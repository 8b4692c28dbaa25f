import TokenAudit.Budget

/-! Any number of calls on a budget, and loops that make one before each turn. The calls that begin an
attempt come first, as many as there are attempts left; so such a loop takes no more turns than that. -/

namespace TokenAudit.Budget

/-! ### One call after another -/

theorem begin?_eq_none_iff_remaining (b : Budget) : b.begin? = none ↔ b.remaining = 0 := by
  rw [begin?_eq_none_iff, isExhausted, decide_eq_true_eq, UInt32.le_iff_toNat_le, remaining]
  exact Nat.sub_eq_zero_iff_le.symm

theorem run_succ_of_spent {b : Budget} (h : b.begin? = none) (calls : Nat) :
    b.run (calls + 1) = ((b.run calls).1, false :: (b.run calls).2) := by
  rw [run, h]

theorem run_succ_of_begun {b c : Budget} (h : b.begin? = some c) (calls : Nat) :
    b.run (calls + 1) = ((c.run calls).1, true :: (c.run calls).2) := by
  rw [run, h]

theorem began_run (b : Budget) (calls : Nat) : (b.run calls).2 =
    List.replicate (min calls b.remaining) true ++ List.replicate (calls - b.remaining) false := by
  -- On the calls, over all budgets: a spent one stays, and any other goes on with one attempt less.
  induction calls generalizing b with
  | zero => rw [Nat.zero_min, Nat.zero_sub]; rfl
  | succ calls ih =>
    cases hb : b.begin? with
    | none =>
      have hnone := (begin?_eq_none_iff_remaining b).mp hb
      rw [run_succ_of_spent hb, ih, hnone, Nat.min_zero, Nat.min_zero]
      rfl
    | some c =>
      have hremaining := remaining_of_begin? hb
      rw [run_succ_of_begun hb, ih, hremaining, Nat.succ_min_succ, Nat.add_sub_add_right,
        List.replicate_succ]
      rfl

example : ((⟨0xfffffffe, 0xffffffff, 0⟩ : Budget).run 3).2 = [true, false, false] := by decide

theorem counts_run (b : Budget) (calls : Nat) :
    (b.run calls).1.attempts.toNat = b.attempts.toNat + min calls b.remaining ∧
      (b.run calls).1.maxAttempts = b.maxAttempts ∧ (b.run calls).1.intervalMs = b.intervalMs := by
  induction calls generalizing b with
  | zero =>
    rw [Nat.zero_min]
    exact ⟨rfl, rfl, rfl⟩
  | succ calls ih =>
    cases hb : b.begin? with
    | none =>
      have hnone := (begin?_eq_none_iff_remaining b).mp hb
      have hrest := ih b
      rw [hnone, Nat.min_zero] at hrest ⊢
      rw [run_succ_of_spent hb]
      exact hrest
    | some c =>
      have hremaining := remaining_of_begin? hb
      obtain ⟨-, hattempts, hmax, hinterval⟩ := attempts_of_begin? hb
      obtain ⟨hcount, hsame, hrest⟩ := ih c
      rw [run_succ_of_begun hb, hremaining, Nat.succ_min_succ]
      refine ⟨?_, hsame.trans hmax, hrest.trans hinterval⟩
      change (c.run calls).1.attempts.toNat = _
      rw [hcount, hattempts]
      omega

theorem began_next (b : Budget) (calls : Nat) :
    (b.run (calls + 1)).2 = (b.run calls).2 ++ [!(b.run calls).1.isExhausted] := by
  induction calls generalizing b with
  | zero =>
    cases hb : b.begin? with
    | none =>
      have he := (begin?_eq_none_iff b).mp hb
      rw [run_succ_of_spent hb, run, he]
      rfl
    | some c =>
      have he : b.isExhausted = false := by
        rw [← Bool.not_eq_true, ← begin?_eq_none_iff, hb]
        exact nofun
      rw [run_succ_of_begun hb, run, run, he]
      rfl
  | succ calls ih =>
    cases hb : b.begin? with
    | none =>
      calc (b.run (calls + 1 + 1)).2
        _ = false :: (b.run (calls + 1)).2 := by rw [run_succ_of_spent hb]
        _ = false :: ((b.run calls).2 ++ [!(b.run calls).1.isExhausted]) := by rw [ih]
        _ = (b.run (calls + 1)).2 ++ [!(b.run (calls + 1)).1.isExhausted] := by
          rw [run_succ_of_spent hb calls]
          rfl
    | some c =>
      calc (b.run (calls + 1 + 1)).2
        _ = true :: (c.run (calls + 1)).2 := by rw [run_succ_of_begun hb]
        _ = true :: ((c.run calls).2 ++ [!(c.run calls).1.isExhausted]) := by rw [ih]
        _ = (b.run (calls + 1)).2 ++ [!(b.run (calls + 1)).1.isExhausted] := by
          rw [run_succ_of_begun hb]
          rfl

/-! ### Loops -/

inductive Turn (ω ρ : Type) where
  | ended (result : ρ)
  | again (state : ω)

def Turn.andThen {ω ρ : Type} (go : ω → ρ) : Turn ω ρ → ρ
  | ended result => result
  | again state => go state

/-- A loop that begins an attempt before each turn, and is over when there is none. -/
structure Loop (ω ρ : Type) where
  turn : Budget → ω → Turn ω ρ
  spent : Budget → ω → ρ

namespace Loop

variable {ω ρ : Type} {l : Loop ω ρ} {b c : Budget} {s s' : ω} {turns : Nat} {result : ρ}

inductive Ends (l : Loop ω ρ) : Budget → ω → Nat → ρ → Prop where
  | spent {b : Budget} (s : ω) (hb : b.begin? = none) : Ends l b s 0 (l.spent b s)
  | ended {b c : Budget} {s : ω} {result : ρ} (hb : b.begin? = some c)
    (ht : l.turn c s = .ended result) : Ends l b s 1 result
  | again {b c : Budget} {s s' : ω} {turns : Nat} {result : ρ} (hb : b.begin? = some c)
    (ht : l.turn c s = .again s') (hrest : Ends l c s' turns result) : Ends l b s (turns + 1) result

/-- However the loop is run, it is over with this result, and after no more turns than the bound. -/
def EndsWithin (l : Loop ω ρ) (bound : Nat) (b : Budget) (s : ω) (result : ρ) : Prop :=
  ∃ turns ≤ bound, l.Ends b s turns result ∧
    ∀ turns' result', l.Ends b s turns' result' → turns' = turns ∧ result' = result

theorem Ends.unique (h : l.Ends b s turns result) {turns' : Nat} {result' : ρ}
    (h' : l.Ends b s turns' result') : turns' = turns ∧ result' = result := by
  induction h generalizing turns' with
  | spent s hb =>
    cases h' with
    | spent => exact ⟨rfl, rfl⟩
    | ended hb' | again hb' => cases hb.symm.trans hb'
  | ended hb ht =>
    cases h' with
    | spent _ hb' => cases hb.symm.trans hb'
    | ended hb' ht' =>
      cases hb.symm.trans hb'
      cases ht.symm.trans ht'
      exact ⟨rfl, rfl⟩
    | again hb' ht' =>
      cases hb.symm.trans hb'
      cases ht.symm.trans ht'
  | again hb ht _ ih =>
    cases h' with
    | spent _ hb' => cases hb.symm.trans hb'
    | ended hb' ht' =>
      cases hb.symm.trans hb'
      cases ht.symm.trans ht'
    | again hb' ht' hrest' =>
      cases hb.symm.trans hb'
      cases ht.symm.trans ht'
      obtain ⟨hturns, hresult⟩ := ih hrest'
      exact ⟨congrArg (· + 1) hturns, hresult⟩

/-- The function does what the loop says, turn by turn. -/
structure Unfolds (l : Loop ω ρ) (f : Budget → ω → ρ) : Prop where
  spent : ∀ {b s}, b.begin? = none → f b s = l.spent b s
  begun : ∀ {b c s}, b.begin? = some c → f b s = (l.turn c s).andThen (f c)

theorem Unfolds.ends {f : Budget → ω → ρ} (h : l.Unfolds f) (b : Budget) (s : ω) :
    ∃ turns ≤ b.remaining, l.Ends b s turns (f b s) := by
  -- A turn takes an attempt away from those that are left.
  cases hb : b.begin? with
  | none =>
    rw [h.spent hb]
    exact ⟨0, Nat.zero_le _, .spent s hb⟩
  | some c =>
    have hremaining := remaining_of_begin? hb
    rw [h.begun hb]
    cases ht : l.turn c s with
    | ended result => exact ⟨1, by omega, .ended hb ht⟩
    | again s' =>
      obtain ⟨turns, hle, hrest⟩ := h.ends c s'
      exact ⟨turns + 1, by omega, .again hb ht hrest⟩
termination_by b.remaining

theorem Unfolds.endsWithin {f : Budget → ω → ρ} (h : l.Unfolds f) (b : Budget) (s : ω) :
    l.EndsWithin b.remaining b s (f b s) := by
  obtain ⟨turns, hle, hends⟩ := h.ends b s
  exact ⟨turns, hle, hends, fun _ _ => hends.unique⟩

theorem Ends.result_of {P : ρ → Prop} (h : l.Ends b s turns result)
    (hspent : ∀ b s, P (l.spent b s)) (hover : ∀ b s result, l.turn b s = .ended result → P result) :
    P result := by
  induction h with
  | spent s _ => exact hspent _ s
  | ended _ ht => exact hover _ _ _ ht
  | again _ _ _ ih => exact ih

end Loop

end TokenAudit.Budget
