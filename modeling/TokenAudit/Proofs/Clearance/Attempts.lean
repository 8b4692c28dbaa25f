import TokenAudit.Clearance

/-! The attempts of a wait for clearance. Whatever the source answers and however long it takes, a
wait is what is left of it at each of its attempts, and it is decided at the one whose check decides. -/

namespace TokenAudit

theorem Budget.remaining_of_isExhausted {b : Budget} (h : b.isExhausted = true) :
    b.remaining = 0 :=
  Nat.sub_eq_zero_of_le (UInt32.le_iff_toNat_le.mp (of_decide_eq_true h))

def Clearance.isDecision : Clearance → Bool
  | .approved => true
  | .denied _ => true
  | _ => false

namespace ClearancePoller

variable {σ : Type} (p : ClearancePoller σ) (w : Window) (token : Address) (fromBlock : UInt64)

def next? (b : Budget) (before : World σ ClearanceAct) :
    Option (Budget × World σ ClearanceAct) :=
  match p.check w token fromBlock before with
  | (some none, world) =>
    match world.sleep w b.intervalMs.toNat with
    | (.ok, world) => b.begin?.map (·, world)
    | _ => none
  | _ => none

/-- The attempts of a wait, the first of them at zero; none once the wait is over. -/
def attempt? (world : World σ ClearanceAct) : Nat → Option (Budget × World σ ClearanceAct)
  | 0 => (Budget.fresh p.maxAttempts p.intervalMs).begin?.map (·, world)
  | k + 1 => (attempt? world k).bind fun x => p.next? w token fromBlock x.1 x.2

/-- What is left of a wait at one of its attempts. -/
def resume (b : Budget) (before : World σ ClearanceAct) :
    Option Clearance × World σ ClearanceAct :=
  match p.check w token fromBlock before with
  | (none, world) => (none, world)
  | (some (some outcome), world) => (some outcome, world)
  | (some none, world) =>
    if b.isExhausted then (some (.timeout b.attempts), world)
    else
      match world.sleep w b.intervalMs.toNat with
      | (.ok, world) => p.waitFrom w token fromBlock b.remaining b world
      | (.cancelled, world) => (some (.cancelled b.attempts), world)
      | (.expired, world) => (none, world)

variable {p w token fromBlock}

theorem waitFrom_of_begin? {b b' : Budget} (h : b.begin? = some b') (world : World σ ClearanceAct) :
    p.waitFrom w token fromBlock b.remaining b world = p.resume w token fromBlock b' world := by
  rw [Budget.remaining_of_begin? h, waitFrom, h]
  unfold resume
  rcases p.check w token fromBlock world with ⟨_ | _ | outcome, world⟩
  · rfl
  · by_cases he : b'.isExhausted = true
    · simp only [he, if_true, Budget.remaining_of_isExhausted he, waitFrom]
    · simp only [he]
      rfl
  · rfl

theorem resume_of_next? {b b' : Budget} {before after : World σ ClearanceAct}
    (h : p.next? w token fromBlock b before = some (b', after)) :
    p.resume w token fromBlock b before = p.resume w token fromBlock b' after := by
  unfold next? at h
  unfold resume
  rcases hcheck : p.check w token fromBlock before with ⟨_ | _ | outcome, world⟩
  · rw [hcheck] at h
    cases h
  · rw [hcheck] at h
    dsimp only at h ⊢
    rcases hslept : world.sleep w b.intervalMs.toNat with ⟨_ | _ | _, world'⟩
    · rw [hslept] at h
      obtain ⟨c, hbegin, hc⟩ := Option.map_eq_some_iff.mp h
      cases hc
      have hmore : b.isExhausted ≠ true := fun he => by
        rw [(Budget.begin?_eq_none_iff b).mpr he] at hbegin
        cases hbegin
      rw [if_neg hmore]
      exact waitFrom_of_begin? hbegin after
    · rw [hslept] at h
      cases h
    · rw [hslept] at h
      cases h
  · rw [hcheck] at h
    cases h

theorem wait_eq_resume {world before : World σ ClearanceAct} {k : Nat} {b : Budget}
    (h : p.attempt? w token fromBlock world k = some (b, before)) :
    p.wait w token fromBlock world = p.resume w token fromBlock b before := by
  induction k generalizing b before with
  | zero =>
    obtain ⟨c, hbegin, hc⟩ := Option.map_eq_some_iff.mp h
    cases hc
    exact waitFrom_of_begin? hbegin _
  | succ k ih =>
    obtain ⟨⟨c, middle⟩, hk, hnext⟩ := Option.bind_eq_some_iff.mp h
    exact (ih hk).trans (resume_of_next? hnext)

theorem wait_of_no_attempt (h : p.maxAttempts = 0) (world : World σ ClearanceAct) :
    p.wait w token fromBlock world = (some (.timeout 0), world) := by
  simp only [wait, Budget.fresh, Budget.remaining, h, waitFrom, UInt32.toNat_zero, Nat.sub_zero]

/-! ### The attempt that decides -/

theorem check_approved_iff {before after : World σ ClearanceAct} :
    p.check w token fromBlock before = (some (some .approved), after) ↔
      (before.record (.approvedAsked token fromBlock)).ask w (p.logs.approved token fromBlock) =
        (some (.ok true), after) := by
  unfold check
  rcases (before.record (.approvedAsked token fromBlock)).ask w
    (p.logs.approved token fromBlock) with ⟨_ | e | _ | _, world⟩
  · simp
  · simp
  · -- Without an approval, denials decide, and none of them approves.
    dsimp only
    rcases (world.record (.deniedAsked token fromBlock)).ask w
      (p.logs.denied token fromBlock) with ⟨_ | e | _ | score, world⟩ <;> simp
  · simp

theorem next?_of_decided {b : Budget} {before after : World σ ClearanceAct} {c : Clearance}
    (h : p.check w token fromBlock before = (some (some c), after)) :
    p.next? w token fromBlock b before = none := by
  rw [next?, h]

theorem resume_of_decided {b : Budget} {before after : World σ ClearanceAct} {c : Clearance}
    (h : p.check w token fromBlock before = (some (some c), after)) :
    p.resume w token fromBlock b before = (some c, after) := by
  rw [resume, h]

theorem attempt?_of_decided {world before after : World σ ClearanceAct} {k : Nat} {b : Budget}
    {c : Clearance} (hk : p.attempt? w token fromBlock world k = some (b, before))
    (h : p.check w token fromBlock before = (some (some c), after)) (more : Nat) :
    p.attempt? w token fromBlock world (k + 1 + more) = none := by
  induction more with
  | zero => rw [Nat.add_zero, attempt?, hk, Option.bind_some, next?_of_decided h]
  | succ more ih => rw [← Nat.add_assoc, attempt?, ih, Option.bind_none]

variable (p w token fromBlock) in
theorem resume_cases (b : Budget) (before : World σ ClearanceAct) :
    (∃ c after, p.check w token fromBlock before = (some (some c), after)) ∨
    (∃ b' after, p.next? w token fromBlock b before = some (b', after) ∧
      b'.remaining < b.remaining) ∨
    ∀ c after, p.resume w token fromBlock b before = (some c, after) → c.isDecision = false := by
  unfold next? resume
  rcases p.check w token fromBlock before with ⟨_ | _ | outcome, middle⟩
  · exact .inr (.inr nofun)
  · right
    cases hbegin : b.begin? with
    | none =>
      refine .inr fun c after h => ?_
      simp only [(Budget.begin?_eq_none_iff b).mp hbegin, if_true] at h
      cases h
      rfl
    | some b' =>
      have hmore : b.isExhausted ≠ true := fun he => by
        rw [(Budget.begin?_eq_none_iff b).mpr he] at hbegin
        cases hbegin
      simp only [hmore]
      rcases middle.sleep w b.intervalMs.toNat with ⟨_ | _ | _, rested⟩
      · exact .inl ⟨b', rested, rfl, Nat.lt_of_lt_of_eq (Nat.lt_succ_self _)
          (Budget.remaining_of_begin? hbegin).symm⟩
      · refine .inr fun c after h => ?_
        cases h
        rfl
      · exact .inr nofun
  · exact .inl ⟨outcome, middle, rfl⟩

theorem exists_attempt_of_decided {world before after : World σ ClearanceAct} {k : Nat} {b : Budget}
    {c : Clearance} (hk : p.attempt? w token fromBlock world k = some (b, before))
    (hr : p.resume w token fromBlock b before = (some c, after)) (hc : c.isDecision = true) :
    ∃ j b' before', p.attempt? w token fromBlock world j = some (b', before') ∧
      p.check w token fromBlock before' = (some (some c), after) := by
  obtain ⟨c', after', hcheck⟩ | ⟨b', next, hnext, hless⟩ | hno :=
    p.resume_cases w token fromBlock b before
  · cases (resume_of_decided hcheck).symm.trans hr
    exact ⟨k, b, before, hk, hcheck⟩
  · have hk' : p.attempt? w token fromBlock world (k + 1) = some (b', next) := by
      rw [attempt?, hk, Option.bind_some, hnext]
    exact exists_attempt_of_decided hk' ((resume_of_next? hnext).symm.trans hr) hc
  · rw [hno c after hr] at hc
    cases hc
termination_by b.remaining

theorem wait_eq_decided_iff {world after : World σ ClearanceAct} {c : Clearance}
    (hc : c.isDecision = true) :
    p.wait w token fromBlock world = (some c, after) ↔
      ∃ k b before, p.attempt? w token fromBlock world k = some (b, before) ∧
        p.check w token fromBlock before = (some (some c), after) := by
  constructor
  · intro h
    cases hbegin : (Budget.fresh p.maxAttempts p.intervalMs).begin? with
    | none =>
      have hmax : p.maxAttempts = 0 := by
        have he := of_decide_eq_true ((Budget.begin?_eq_none_iff _).mp hbegin)
        exact UInt32.toNat_inj.mp (Nat.le_zero.mp (UInt32.le_iff_toNat_le.mp he))
      rw [wait_of_no_attempt hmax] at h
      cases h
      cases hc
    | some b =>
      have hfirst : p.attempt? w token fromBlock world 0 = some (b, world) := by
        rw [attempt?, hbegin, Option.map_some]
      exact exists_attempt_of_decided hfirst ((wait_eq_resume hfirst).symm.trans h) hc
  · rintro ⟨k, b, before, hk, hcheck⟩
    rw [wait_eq_resume hk, resume_of_decided hcheck]

end ClearancePoller

end TokenAudit
