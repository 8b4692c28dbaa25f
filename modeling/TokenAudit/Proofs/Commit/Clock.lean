import Mathlib.Logic.Relation
import TokenAudit.Proofs.Commit.Sending

/-! A commit on the clock, step by step: each step ends one wait. The run of a commit is the same from
every stage that it comes to, and whatever it waits for, its trade id is reserved. -/

namespace TokenAudit.Committer

open Commit

variable {σ : Type}

/-- One step of a commit on the clock: it starts, or what it has waited for has come. -/
inductive Moves (c : Committer σ) (w : Window) (v : RiskVerdict) :
    Stage × Run σ → Stage × Run σ → Prop where
  | opened (r : Run σ) :
    Moves c w v (.fresh, r) (r.take (open_ v (w.isCancelled r.world.now) r.ledger))
  | answered (r : Run σ) (answer : Except AuditError Hash) (world : World σ CommitAct)
      (h : (r.world.record (.submitted (c.calldata v))).ask w
        (c.writer.submit (c.calldata v)) = (some answer, world)) :
    Moves c w v (.submitting, r)
      (Run.take { r with world := world } (submitted v c.budget r.ledger answer))
  | looked (r : Run σ) (hash : Hash) (b : Budget)
      (answer : Except AuditError (Option Rpc.Receipt)) (world : World σ CommitAct)
      (h : (r.world.record (.lookedUp hash)).ask w (c.writer.receipt hash) = (some answer, world)) :
    Moves c w v (.looking hash b, r)
      (Run.take { r with world := world } (Commit.looked v hash b r.ledger answer))
  | rested (r : Run σ) (hash : Hash) (b : Budget) (woken : Woken) (world : World σ CommitAct)
      (h : r.world.sleep w b.intervalMs.toNat = (woken, world)) (hw : woken ≠ .expired) :
    Moves c w v (.resting hash b, r) (Run.take { r with world := world }
      (Commit.rested hash b r.ledger (decide (woken = .cancelled))))

def Comes (c : Committer σ) (w : Window) (v : RiskVerdict) : Stage × Run σ → Stage × Run σ → Prop :=
  Relation.ReflTransGen (c.Moves w v)

theorem Moves.reserved {c : Committer σ} {w : Window} {v : RiskVerdict} {r : Run σ}
    (hv : v.isCommittable = true) (hw : w.isCancelled r.world.now = false)
    (hl : v.tradeId ∉ r.ledger) :
    c.Moves w v (.fresh, r) (.submitting, { r with ledger := v.tradeId :: r.ledger }) := by
  have hreserve := (Ledger.reserve?_eq_some_iff r.ledger _ v.tradeId).mpr ⟨hl, rfl⟩
  have hopen : open_ v (w.isCancelled r.world.now) r.ledger =
      ⟨.submitting, v.tradeId :: r.ledger, []⟩ := by
    simp only [open_, hv, hw, hreserve, not_true_eq_false, if_false, Bool.false_eq_true]
  have hfirst := Moves.opened (c := c) (w := w) (v := v) r
  rw [hopen] at hfirst
  exact hfirst

theorem commit_of_cancelled (c : Committer σ) {w : Window} {v : RiskVerdict} {r : Run σ}
    (hv : v.isCommittable = true) (hw : w.isCancelled r.world.now = true) :
    c.commit w v r = (some (.error (.cancelled "verdict commit")), r) := by
  simp only [Committer.commit, Commit.open_, hv, hw, not_true_eq_false, if_false, if_true, Run.take]
  rfl

/-! ### The run from a stage -/

def needs : Stage → Nat
  | .looking _ b => 2 * b.remaining + 2
  | .resting _ b => 2 * b.remaining + 1
  | _ => 0

theorem needs_advance (hash : Hash) (b : Budget) : needs (advance hash b) ≤ 2 * b.remaining := by
  unfold advance
  cases h : b.begin? with
  | none => exact Nat.zero_le _
  | some c =>
    have := Budget.remaining_of_begin? h
    simp only [needs]
    omega

theorem needs_looked (v : RiskVerdict) (hash : Hash) (b : Budget) (l : Ledger)
    (answer : Except AuditError (Option Rpc.Receipt)) :
    needs (Commit.looked v hash b l answer).stage ≤ 2 * b.remaining + 1 := by
  unfold Commit.looked
  split
  · split <;> exact Nat.zero_le _
  · split
    · exact Nat.zero_le _
    · exact Nat.le_refl _

theorem needs_rested (hash : Hash) (b : Budget) (l : Ledger) (cancelled : Bool) :
    needs (Commit.rested hash b l cancelled).stage ≤ 2 * b.remaining := by
  unfold Commit.rested
  split
  · exact Nat.zero_le _
  · exact needs_advance hash b

theorem confirm_eq_of_needs (c : Committer σ) (w : Window) (v : RiskVerdict) {left more : Nat}
    {s : Stage} (hl : needs s ≤ left) (hm : needs s ≤ more) (r : Run σ) :
    c.confirm w v left s r = c.confirm w v more s r := by
  induction left generalizing more s r with
  | zero =>
    cases s with
    | fresh | submitting => cases more <;> rfl
    | returned result => rw [confirm_returned, confirm_returned]
    | looking | resting => cases hl
  | succ left ih =>
    cases s with
    | fresh | submitting => cases more <;> rfl
    | returned result => rw [confirm_returned, confirm_returned]
    | looking hash b =>
      cases more with
      | zero => cases hm
      | succ more =>
        rw [Committer.confirm, Committer.confirm]
        rcases (r.world.record (.lookedUp hash)).ask w (c.writer.receipt hash) with
          ⟨_ | answer, world⟩
        · rfl
        · have hnext := needs_looked v hash b r.ledger answer
          exact ih (Nat.le_trans hnext (Nat.le_of_succ_le_succ hl))
            (Nat.le_trans hnext (Nat.le_of_succ_le_succ hm)) _
    | resting hash b =>
      cases more with
      | zero => cases hm
      | succ more =>
        rw [Committer.confirm, Committer.confirm]
        rcases r.world.sleep w b.intervalMs.toNat with ⟨woken, world⟩
        have hnext := needs_rested hash b r.ledger (decide (woken = .cancelled))
        have hrest := fun r' : Run σ => ih (Nat.le_trans hnext (Nat.le_of_succ_le_succ hl))
          (Nat.le_trans hnext (Nat.le_of_succ_le_succ hm)) r'
        cases woken with
        | expired => rfl
        | ok | cancelled => exact hrest _

def finish (c : Committer σ) (w : Window) (v : RiskVerdict) :
    Stage × Run σ → Option Result × Run σ
  | (.fresh, r) => c.commit w v r
  | (.submitting, r) => c.submit w v r
  | (s, r) => c.confirm w v (needs s) s r

def isAnswered : Stage → Bool
  | .fresh => false
  | .submitting => false
  | _ => true

theorem isAnswered_of_awaits {hash : Hash} {s : Stage} (h : Awaits hash s) : isAnswered s = true := by
  cases h <;> rfl

theorem isAnswered_submitted (v : RiskVerdict) (b : Budget) (l : Ledger)
    (answer : Except AuditError Hash) : isAnswered (submitted v b l answer).stage = true := by
  cases answer with
  | error e => rfl
  | ok hash => exact isAnswered_of_awaits (awaits_advance hash b)

theorem isAnswered_looked (v : RiskVerdict) (hash : Hash) (b : Budget) (l : Ledger)
    (answer : Except AuditError (Option Rpc.Receipt)) :
    isAnswered (Commit.looked v hash b l answer).stage = true := by
  obtain ⟨h, -⟩ | ⟨result, h, -⟩ := looked_cases v hash b l answer
  · exact isAnswered_of_awaits h
  · rw [h]
    rfl

theorem needs_submitted (c : Committer σ) (v : RiskVerdict) (l : Ledger)
    (answer : Except AuditError Hash) : needs (submitted v c.budget l answer).stage ≤ c.steps := by
  cases answer with
  | error e => exact Nat.zero_le _
  | ok hash =>
    have hattempts : c.budget.remaining = c.confirmAttempts.toNat := Nat.sub_zero _
    have hadvance := needs_advance hash c.budget
    rw [hattempts] at hadvance
    exact Nat.le_succ_of_le hadvance

theorem finish_take (c : Committer σ) (w : Window) (v : RiskVerdict) {step : Step} {left : Nat}
    (hs : isAnswered step.stage = true) (hl : needs step.stage ≤ left) (r : Run σ) :
    c.finish w v (r.take step) = c.confirm w v left (r.take step).1 (r.take step).2 := by
  have hmore := c.confirm_eq_of_needs w v hl (Nat.le_refl _) (r.take step).2
  obtain ⟨stage, ledger, calls⟩ := step
  cases stage with
  | fresh | submitting => cases hs
  | _ => exact hmore.symm

theorem Moves.finish_eq {c : Committer σ} {w : Window} {v : RiskVerdict} {x y : Stage × Run σ}
    (h : c.Moves w v x y) : c.finish w v x = c.finish w v y := by
  cases h with
  | opened r =>
    obtain ⟨e, hopen⟩ | ⟨-, hopen⟩ := open_cases v (w.isCancelled r.world.now) r.ledger
    · simp only [finish, Committer.commit, Run.take, hopen, confirm_returned]
    · simp only [finish, Committer.commit, Run.take, hopen]
  | answered r answer world h =>
    have hdata : Calldata.encode c.protocol v.tradeId v.score = c.calldata v := rfl
    rw [c.finish_take w v (isAnswered_submitted v c.budget r.ledger answer)
      (c.needs_submitted v r.ledger answer)]
    simp only [finish, Committer.submit, hdata, h]
  | looked r hash b answer world h =>
    rw [c.finish_take w v (isAnswered_looked v hash b r.ledger answer)
      (needs_looked v hash b r.ledger answer)]
    simp only [finish, needs, Committer.confirm, h]
  | rested r hash b woken world h hw =>
    rw [c.finish_take w v (isAnswered_of_awaits (awaits_rested hash b r.ledger _).1)
      (needs_rested hash b r.ledger _)]
    simp only [finish, needs, Committer.confirm, h]

theorem Comes.finish_eq {c : Committer σ} {w : Window} {v : RiskVerdict} {x y : Stage × Run σ}
    (h : c.Comes w v x y) : c.finish w v x = c.finish w v y := by
  induction h with
  | refl => rfl
  | tail _ hstep ih => exact ih.trans hstep.finish_eq

theorem comes_of_confirm (c : Committer σ) (w : Window) (v : RiskVerdict) {left : Nat} {s : Stage}
    {r r' : Run σ} {result : Result} (h : c.confirm w v left s r = (some result, r')) :
    c.Comes w v (s, r) (.returned result, r') := by
  induction left generalizing s r with
  | zero =>
    cases s with
    | returned => cases h; exact .refl
    | _ => cases h
  | succ left ih =>
    cases s with
    | fresh | submitting => cases h
    | returned => cases h; exact .refl
    | looking hash b =>
      rw [Committer.confirm] at h
      rcases hasked : (r.world.record (.lookedUp hash)).ask w (c.writer.receipt hash) with
        ⟨_ | answer, world⟩
      · rw [hasked] at h
        cases h
      · rw [hasked] at h
        exact (ih h).head (.looked r hash b answer world hasked)
    | resting hash b =>
      rw [Committer.confirm] at h
      rcases hslept : r.world.sleep w b.intervalMs.toNat with ⟨_ | _ | _, world⟩
      · rw [hslept] at h
        exact (ih h).head (.rested r hash b .ok world hslept (by decide))
      · rw [hslept] at h
        exact (ih h).head (.rested r hash b .cancelled world hslept (by decide))
      · rw [hslept] at h
        cases h

theorem comes_of_submit (c : Committer σ) (w : Window) (v : RiskVerdict) {r r' : Run σ}
    {result : Result} (h : c.submit w v r = (some result, r')) :
    c.Comes w v (.submitting, r) (.returned result, r') := by
  have hdata : Calldata.encode c.protocol v.tradeId v.score = c.calldata v := rfl
  rw [Committer.submit, hdata] at h
  rcases hasked : (r.world.record (.submitted (c.calldata v))).ask w
    (c.writer.submit (c.calldata v)) with ⟨_ | answer, world⟩
  · rw [hasked] at h
    cases h
  · rw [hasked] at h
    exact (c.comes_of_confirm w v h).head (.answered r answer world hasked)

theorem commit_eq_iff_comes (c : Committer σ) (w : Window) (v : RiskVerdict) (r r' : Run σ)
    (result : Result) : c.commit w v r = (some result, r') ↔
      c.Comes w v (.fresh, r) (.returned result, r') := by
  constructor
  · intro h
    have hfirst := Moves.opened (c := c) (w := w) (v := v) r
    obtain ⟨e, hopen⟩ | ⟨-, hopen⟩ := open_cases v (w.isCancelled r.world.now) r.ledger
    · simp only [Committer.commit, Run.take, hopen] at h hfirst
      cases h
      exact .single hfirst
    · simp only [Committer.commit, Run.take, hopen] at h hfirst
      exact (c.comes_of_submit w v h).head hfirst
  · intro h
    exact h.finish_eq.trans (c.confirm_returned w v _ result r')

/-! ### What is reserved, and how a rest is cut off -/

/-- A commit has not begun, it has begun before the signal and holds its trade id, or it is over. -/
inductive Held (w : Window) (v : RiskVerdict) (start : Run σ) : Stage × Run σ → Prop where
  | fresh : Held w v start (.fresh, start)
  | busy (s : Stage) (r : Run σ) (hw : w.isCancelled start.world.now = false)
    (hr : v.tradeId ∈ r.ledger) : Held w v start (s, r)
  | over (result : Result) (r : Run σ) : Held w v start (.returned result, r)

theorem Held.take {w : Window} {v : RiskVerdict} {start r : Run σ} {step : Step}
    (hw : w.isCancelled start.world.now = false) (hr : v.tradeId ∈ r.ledger)
    (h : (∃ result, step.stage = .returned result) ∨ step.ledger = r.ledger) :
    Held w v start (r.take step) := by
  obtain ⟨result, hstage⟩ | hledger := h
  · rw [Run.take, hstage]
    exact .over result _
  · exact .busy _ _ hw (hledger ▸ hr)

theorem submitted_keeps (v : RiskVerdict) (b : Budget) (l : Ledger) (answer : Except AuditError Hash) :
    (∃ result, (submitted v b l answer).stage = .returned result) ∨
      (submitted v b l answer).ledger = l := by
  cases answer with
  | error e => exact .inl ⟨_, rfl⟩
  | ok hash => exact .inr rfl

theorem looked_keeps (v : RiskVerdict) (hash : Hash) (b : Budget) (l : Ledger)
    (answer : Except AuditError (Option Rpc.Receipt)) :
    (∃ result, (Commit.looked v hash b l answer).stage = .returned result) ∨
      (Commit.looked v hash b l answer).ledger = l := by
  unfold Commit.looked
  split
  · split <;> exact .inl ⟨_, rfl⟩
  · split <;> exact .inr rfl

theorem rested_keeps (hash : Hash) (b : Budget) (l : Ledger) (cancelled : Bool) :
    (Commit.rested hash b l cancelled).ledger = l := by
  unfold Commit.rested
  split <;> rfl

theorem Held.of_moves {c : Committer σ} {w : Window} {v : RiskVerdict} {start : Run σ}
    {x y : Stage × Run σ} (h : Held w v start x) (hstep : c.Moves w v x y) : Held w v start y := by
  cases hstep with
  | opened r =>
    obtain ⟨e, hopen⟩ | ⟨hw, hopen⟩ := open_cases v (w.isCancelled r.world.now) r.ledger
    · rw [hopen]
      exact .over _ _
    · rw [hopen]
      cases h with
      | fresh => exact .busy _ _ hw List.mem_cons_self
      | busy _ _ hw hr => exact .busy _ _ hw List.mem_cons_self
  | answered r answer world =>
    cases h with
    | busy _ _ hw hr => exact .take hw hr (submitted_keeps v c.budget r.ledger answer)
  | looked r hash b answer world =>
    cases h with
    | busy _ _ hw hr => exact .take hw hr (looked_keeps v hash b r.ledger answer)
  | rested r hash b woken world =>
    cases h with
    | busy _ _ hw hr => exact .take hw hr (.inr (rested_keeps hash b r.ledger _))

theorem Comes.held {c : Committer σ} {w : Window} {v : RiskVerdict} {start : Run σ}
    {x : Stage × Run σ} (h : c.Comes w v (.fresh, start) x) : Held w v start x := by
  induction h with
  | refl => exact .fresh
  | tail _ hstep ih => exact ih.of_moves hstep

theorem sleep_of_fired {instant now duration : Nat} (hle : now ≤ instant)
    (hlt : instant < now + duration) :
    (⟨some instant, none⟩ : Window).sleep now duration = (.cancelled, instant) := by
  unfold Window.sleep
  by_cases h : instant ≤ now
  · have hnow : instant = now := Nat.le_antisymm h hle
    simp [Window.isCancelled, hnow]
  · simp [Window.isCancelled, Window.cutBefore, h, hlt]

theorem Comes.commit_of_fired {c : Committer σ} {v : RiskVerdict} {instant : Nat}
    {start r : Run σ} {hash : Hash} {b : Budget}
    (h : c.Comes ⟨some instant, none⟩ v (.fresh, start) (.resting hash b, r))
    (hle : r.world.now ≤ instant) (hlt : instant < r.world.now + b.intervalMs.toNat) :
    (c.commit ⟨some instant, none⟩ v start).1 = some (.error (.cancelled "verdict confirmation")) ∧
      v.tradeId ∈ (c.commit ⟨some instant, none⟩ v start).2.ledger ∧
      start.world.now < instant := by
  have hfinish : c.commit ⟨some instant, none⟩ v start =
      c.finish ⟨some instant, none⟩ v (.resting hash b, r) := h.finish_eq
  simp only [hfinish, finish, needs, Committer.confirm, World.sleep, sleep_of_fired hle hlt,
    Commit.rested, Run.take, confirm_returned, decide_true, if_true]
  cases h.held with
  | busy _ _ hw hr => exact ⟨trivial, hr, Nat.lt_of_not_le (of_decide_eq_false hw)⟩

end TokenAudit.Committer
