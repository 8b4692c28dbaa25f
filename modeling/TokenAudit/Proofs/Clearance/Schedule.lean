import TokenAudit.Proofs.Clearance.Attempts
import TokenAudit.Proofs.Wait.Timetable

/-! A wait for clearance on a source that answers at once. Its attempts stand an interval apart; how
and when it ends is read off what each attempt hears, and off the instant of the signal. -/

namespace TokenAudit

/-- What one attempt hears; of denials it hears only when there is no approval. -/
inductive Look where
  | failed (e : AuditError)
  | approved
  | unapproved (denied : Except AuditError (Option Uint256))

namespace Look

def decision? : Look → Option Clearance
  | approved => some .approved
  | unapproved (.ok (some score)) => some (.denied score)
  | _ => none

def acts (token : Address) (fromBlock : UInt64) : Look → List ClearanceAct
  | unapproved _ => [.approvedAsked token fromBlock, .deniedAsked token fromBlock]
  | _ => [.approvedAsked token fromBlock]

end Look

namespace ClearanceLogs

variable {σ : Type} (logs : ClearanceLogs σ) (token : Address) (fromBlock : UInt64)

structure Prompt : Prop where
  approved : ∀ token fromBlock s, (logs.approved token fromBlock s).1.delay = some 0
  denied : ∀ token fromBlock s, (logs.denied token fromBlock s).1.delay = some 0

def look (s : σ) : Look × σ :=
  match (logs.approved token fromBlock).answer s with
  | (.error e, s) => (.failed e, s)
  | (.ok true, s) => (.approved, s)
  | (.ok false, s) =>
    let (denied, s) := (logs.denied token fromBlock).answer s
    (.unapproved denied, s)

end ClearanceLogs

namespace ClearancePoller

variable {σ : Type}

variable (p : ClearancePoller σ) (token : Address) (fromBlock : UInt64)

theorem check_of_prompt (h : p.logs.Prompt) (cancelAt : Option Nat) (world : World σ ClearanceAct) :
    p.check ⟨cancelAt, none⟩ token fromBlock world =
      (some (p.logs.look token fromBlock world.state).1.decision?,
        ⟨world.now, world.trace ++ ((p.logs.look token fromBlock world.state).1.acts token
          fromBlock).map (Prod.mk world.now), (p.logs.look token fromBlock world.state).2⟩) := by
  have happroved : (world.record (.approvedAsked token fromBlock)).ask ⟨cancelAt, none⟩
      (p.logs.approved token fromBlock) =
        (some ((p.logs.approved token fromBlock).answer world.state).1,
          ⟨world.now, world.trace ++ [(world.now, .approvedAsked token fromBlock)],
            ((p.logs.approved token fromBlock).answer world.state).2⟩) :=
    World.ask_prompt _ cancelAt (h.approved token fromBlock world.state)
  unfold check ClearanceLogs.look
  rw [happroved]
  rcases (p.logs.approved token fromBlock).answer world.state with ⟨e | _ | _, s⟩
  · rfl
  · have hdenied (world : World σ ClearanceAct) :
        (world.record (.deniedAsked token fromBlock)).ask ⟨cancelAt, none⟩
          (p.logs.denied token fromBlock) =
            (some ((p.logs.denied token fromBlock).answer world.state).1,
              ⟨world.now, world.trace ++ [(world.now, .deniedAsked token fromBlock)],
                ((p.logs.denied token fromBlock).answer world.state).2⟩) :=
      World.ask_prompt _ cancelAt (h.denied token fromBlock world.state)
    dsimp only
    rw [hdenied]
    rcases (p.logs.denied token fromBlock).answer s with ⟨e | _ | score, s⟩
    all_goals
      rw [List.append_assoc]
      rfl
  · rfl

/-! ### The times of the attempts -/

def times (world : World σ ClearanceAct) : Times := ⟨world.now, p.intervalMs.toNat⟩

def timetable (cancelAt : Option Nat) (world : World σ ClearanceAct) : Timetable where
  toTimes := p.times world
  attempts := p.maxAttempts.toNat
  cancelAt := cancelAt

def heard (world : World σ ClearanceAct) (k : Nat) : Look :=
  Draws.heard (p.logs.look token fromBlock) world.state k

def worldAfter (world : World σ ClearanceAct) (k : Nat) : World σ ClearanceAct where
  now := (p.times world).dueAt (k - 1)
  trace := world.trace ++ (List.range k).flatMap fun j =>
    ((p.heard token fromBlock world j).acts token fromBlock).map (Prod.mk ((p.times world).dueAt j))
  state := Draws.stateAfter (p.logs.look token fromBlock) world.state k

def Undecided (world : World σ ClearanceAct) (k : Nat) : Prop :=
  (p.heard token fromBlock world k).decision? = none

/-- How a wait ends: after how many attempts, with which outcome, and when. -/
inductive Ends (cancelAt : Option Nat) (world : World σ ClearanceAct) : Nat → Clearance → Nat → Prop
  | decided (k : Nat) (c : Clearance)
    (hk : (p.timetable cancelAt world).Begins (p.Undecided token fromBlock world) k)
    (hc : (p.heard token fromBlock world k).decision? = some c) :
    Ends cancelAt world (k + 1) c ((p.times world).dueAt k)
  | cut (k t : Nat) (hk : (p.timetable cancelAt world).Begins (p.Undecided token fromBlock world) k)
    (hno : p.Undecided token fromBlock world k) (hmore : k + 1 < p.maxAttempts.toNat)
    (ht : cancelAt = some t) (hcut : t ≤ (p.times world).dueAt k ∨ t < (p.times world).dueAt (k + 1)) :
    Ends cancelAt world (k + 1) (.cancelled (UInt32.ofNat (k + 1))) (max t ((p.times world).dueAt k))
  | spent (hno : ∀ k < p.maxAttempts.toNat, p.Undecided token fromBlock world k)
    (huncut : ∀ k, k + 1 < p.maxAttempts.toNat → ¬(p.timetable cancelAt world).Cut k) :
    Ends cancelAt world p.maxAttempts.toNat (.timeout p.maxAttempts)
      ((p.times world).dueAt (p.maxAttempts.toNat - 1))

variable {p token fromBlock} {cancelAt : Option Nat} {world : World σ ClearanceAct}

theorem sleep_of_uncut {k : Nat} (h : ¬(p.timetable cancelAt world).Cut k) :
    (p.worldAfter token fromBlock world (k + 1)).sleep ⟨cancelAt, none⟩ p.intervalMs.toNat =
      (.ok, { p.worldAfter token fromBlock world (k + 1) with now := (p.times world).dueAt (k + 1) }) := by
  have hslept : (⟨cancelAt, none⟩ : Window).sleep ((p.times world).dueAt k) p.intervalMs.toNat =
      (.ok, (p.times world).dueAt (k + 1)) :=
    Timetable.sleep_of_uncut (t := p.timetable cancelAt world) h
  rw [World.sleep, worldAfter, Nat.add_sub_cancel, hslept]

theorem sleep_of_cut {k t : Nat} (h : t ≤ (p.times world).dueAt k ∨ t < (p.times world).dueAt (k + 1)) :
    (p.worldAfter token fromBlock world (k + 1)).sleep ⟨some t, none⟩ p.intervalMs.toNat =
      (.cancelled, { p.worldAfter token fromBlock world (k + 1) with
        now := max t ((p.times world).dueAt k) }) := by
  have hslept : (⟨some t, none⟩ : Window).sleep ((p.times world).dueAt k) p.intervalMs.toNat =
      (.cancelled, max t ((p.times world).dueAt k)) :=
    Timetable.sleep_of_cut (t := p.timetable (some t) world) rfl h
  rw [World.sleep, worldAfter, Nat.add_sub_cancel, hslept]

section

variable (h : p.logs.Prompt)

include h

theorem check_due (k : Nat) :
    p.check ⟨cancelAt, none⟩ token fromBlock
        { p.worldAfter token fromBlock world k with now := (p.times world).dueAt k } =
      (some (p.heard token fromBlock world k).decision?,
        p.worldAfter token fromBlock world (k + 1)) := by
  rw [p.check_of_prompt token fromBlock h]
  simp only [worldAfter, heard, Draws.heard, Draws.stateAfter, List.range_succ,
    List.flatMap_append, List.flatMap_singleton, List.append_assoc, Nat.add_sub_cancel]

theorem attempt?_of_begins {k : Nat}
    (hk : (p.timetable cancelAt world).Begins (p.Undecided token fromBlock world) k) :
    p.attempt? ⟨cancelAt, none⟩ token fromBlock world k =
      some (⟨UInt32.ofNat (k + 1), p.maxAttempts, p.intervalMs⟩,
        { p.worldAfter token fromBlock world k with now := (p.times world).dueAt k }) := by
  induction k with
  | zero =>
    have hfresh : Budget.fresh p.maxAttempts p.intervalMs =
        ⟨UInt32.ofNat 0, p.maxAttempts, p.intervalMs⟩ := rfl
    rw [attempt?, hfresh, Budget.begin?_ofNat hk.inBudget]
    simp [worldAfter, times, Times.dueAt_zero, Draws.stateAfter]
  | succ k ih =>
    rw [attempt?, ih hk.before, Option.bind_some, next?, check_due h,
      hk.undecided k (Nat.lt_succ_self k)]
    dsimp only
    rw [sleep_of_uncut (hk.uncut k (Nat.lt_succ_self k))]
    dsimp only
    rw [Budget.begin?_ofNat hk.inBudget, Option.map_some]

theorem wait_of_ends {made endsAt : Nat} {c : Clearance}
    (he : p.Ends token fromBlock cancelAt world made c endsAt) :
    p.wait ⟨cancelAt, none⟩ token fromBlock world =
      (some c, { p.worldAfter token fromBlock world made with now := endsAt }) := by
  cases he with
  | decided k c hk hc =>
    have hcheck : p.check ⟨cancelAt, none⟩ token fromBlock
        { p.worldAfter token fromBlock world k with now := (p.times world).dueAt k } =
          (some (some c), p.worldAfter token fromBlock world (k + 1)) := by
      rw [check_due h, hc]
    rw [wait_eq_resume (attempt?_of_begins h hk), resume_of_decided hcheck]
    rfl
  | cut k t hk hno hmore ht hcut =>
    subst ht
    have hleft : (⟨UInt32.ofNat (k + 1), p.maxAttempts, p.intervalMs⟩ : Budget).isExhausted =
        false := by
      rw [Budget.isExhausted_ofNat (Nat.le_of_lt hmore)]
      exact decide_eq_false (Nat.ne_of_gt hmore)
    rw [wait_eq_resume (attempt?_of_begins h hk), resume, check_due h, hno]
    simp only [hleft, sleep_of_cut hcut, Bool.false_eq_true, if_false]
  | spent hno huncut =>
    cases hn : p.maxAttempts.toNat with
    | zero =>
      have hmax : p.maxAttempts = 0 := UInt32.toNat_inj.mp hn
      rw [wait_of_no_attempt hmax, hmax]
      simp [worldAfter, times, Times.dueAt_zero, Draws.stateAfter]
    | succ k =>
      have hk : (p.timetable cancelAt world).Begins (p.Undecided token fromBlock world) k :=
        ⟨Nat.lt_of_lt_of_eq (Nat.lt_succ_self k) hn.symm, fun j hj => hno j (by omega),
          fun j hj => huncut j (by omega)⟩
      have hdone : (⟨UInt32.ofNat (k + 1), p.maxAttempts, p.intervalMs⟩ : Budget).isExhausted =
          true := by
        rw [Budget.isExhausted_ofNat (Nat.le_of_eq hn.symm)]
        exact decide_eq_true hn
      have hmax : UInt32.ofNat (k + 1) = p.maxAttempts := by
        rw [← hn, UInt32.ofNat_toNat]
      rw [wait_eq_resume (attempt?_of_begins h hk), resume, check_due h, hno k (by omega)]
      simp only [hdone, if_true]
      rw [hmax]
      rfl

end

variable (p token fromBlock cancelAt world) in
theorem exists_ends : ∃ made c endsAt, p.Ends token fromBlock cancelAt world made c endsAt := by
  obtain ⟨k, hbegins, hstop⟩ | ⟨hno, huncut⟩ :=
    (p.timetable cancelAt world).exists_stop (p.Undecided token fromBlock world)
  · obtain hdecides | ⟨hu, hmore, t, ht, hcut⟩ := hstop
    · obtain ⟨c, hc⟩ := Option.ne_none_iff_exists'.mp hdecides
      exact ⟨_, _, _, .decided k c hbegins hc⟩
    · exact ⟨_, _, _, .cut k t hbegins hu hmore ht hcut⟩
  · exact ⟨_, _, _, .spent hno huncut⟩

/-- On a source that answers at once, a wait makes its attempts an interval apart and asks of each
what the answers call for; it ends at the first that decides, in the first rest that the signal
cuts off, or with the last attempt of the budget. -/
theorem wait_follows_schedule (p : ClearancePoller σ) (h : p.logs.Prompt) (cancelAt : Option Nat)
    (token : Address) (fromBlock : UInt64) (world : World σ ClearanceAct) :
    (∃ made c endsAt, p.Ends token fromBlock cancelAt world made c endsAt) ∧
    ∀ made c endsAt, p.Ends token fromBlock cancelAt world made c endsAt →
      p.wait ⟨cancelAt, none⟩ token fromBlock world =
        (some c, { p.worldAfter token fromBlock world made with now := endsAt }) :=
  ⟨p.exists_ends token fromBlock cancelAt world, fun _ _ _ he => wait_of_ends h he⟩

def unsteady : ClearancePoller Nat where
  logs :=
    { approved := fun _ _ => Ask.now fun n =>
        (if n = 0 then .error (.transport "http://node" "connection refused") else .ok false, n + 1)
      denied := fun _ _ => Ask.now fun n =>
        (if n = 2 then .error (.upstream "node" 503 "busy") else .ok (some 36), n + 1) }
  intervalMs := 2000
  maxAttempts := 5

theorem unsteady_wait_follows_schedule : unsteady.logs.Prompt ∧
    unsteady.wait ⟨some 4500, none⟩ .zero 7 (World.start 0 0) =
      (some (.denied 36),
        ⟨4000, [(0, .approvedAsked .zero 7), (2000, .approvedAsked .zero 7), (2000, .deniedAsked .zero 7),
          (4000, .approvedAsked .zero 7), (4000, .deniedAsked .zero 7)], 5⟩) := by
  have hprompt : unsteady.logs.Prompt := ⟨fun _ _ _ => rfl, fun _ _ _ => rfl⟩
  have hends : unsteady.Ends .zero 7 (some 4500) (World.start 0 0) 3 (.denied 36) 4000 := by
    refine .decided 2 _ ⟨by decide, fun j hj => ?_, fun j hj => ?_⟩ rfl
    all_goals obtain rfl | rfl : j = 0 ∨ j = 1 := by omega
    · rfl
    · rfl
    · rintro ⟨_, ⟨⟩, hcut⟩
      exact absurd hcut (by decide)
    · rintro ⟨_, ⟨⟩, hcut⟩
      exact absurd hcut (by decide)
  exact ⟨hprompt,
    (wait_follows_schedule unsteady hprompt (some 4500) .zero 7 (World.start 0 0)).2 _ _ _ hends⟩

end ClearancePoller

end TokenAudit
