import TokenAudit.Proofs.Commit.Clock

/-! A commit beside others on one ledger, a step at a time. Each step is confined to the commit's own
trade id: of the ledger it sees whether that is taken, and it changes nothing else there. -/

namespace TokenAudit

namespace Commit

structure Confined (id : Uint256) (step : Ledger → Step) : Prop where
  stage : ∀ l l', (id ∈ l ↔ id ∈ l') → (step l).stage = (step l').stage
  calls : ∀ l l', (id ∈ l ↔ id ∈ l') → (step l).calls = (step l').calls
  own : ∀ l l', (id ∈ l ↔ id ∈ l') → (id ∈ (step l).ledger ↔ id ∈ (step l').ledger)
  others : ∀ l other, other ≠ id → (other ∈ (step l).ledger ↔ other ∈ l)

theorem Confined.of_keeps {id : Uint256} (stage : Stage) (calls : List Call) :
    Confined id fun l => ⟨stage, l, calls⟩ :=
  ⟨fun _ _ _ => rfl, fun _ _ _ => rfl, fun _ _ h => h, fun _ _ _ => .rfl⟩

theorem Confined.of_releases {id : Uint256} (stage : Stage) (calls : List Call) :
    Confined id fun l => ⟨stage, l.release id, calls⟩ where
  stage _ _ _ := rfl
  calls _ _ _ := rfl
  own l l' _ := by simp
  others l other h := by simp [h]

theorem confined_reserving {v : RiskVerdict} (hv : v.isCommittable = true) :
    Confined v.tradeId (open_ v false) := by
  have htaken {l : Ledger} (h : v.tradeId ∈ l) : open_ v false l =
      ⟨.returned (.error (.duplicateCommit v.tradeId)), l, []⟩ := by
    simp [open_, hv, Ledger.reserve?, Ledger.contains, h]
  have hfree {l : Ledger} (h : v.tradeId ∉ l) : open_ v false l =
      ⟨.submitting, v.tradeId :: l, []⟩ := by
    simp [open_, hv, Ledger.reserve?, Ledger.contains, h]
  refine ⟨fun l l' h => ?_, fun l l' h => ?_, fun l l' h => ?_, fun l other hother => ?_⟩
  all_goals by_cases hl : v.tradeId ∈ l
  · rw [htaken hl, htaken (h.mp hl)]
  · rw [hfree hl, hfree (mt h.mpr hl)]
  · rw [htaken hl, htaken (h.mp hl)]
  · rw [hfree hl, hfree (mt h.mpr hl)]
  · rw [htaken hl, htaken (h.mp hl)]
    exact h
  · rw [hfree hl, hfree (mt h.mpr hl)]
    simp
  · rw [htaken hl]
  · rw [hfree hl]
    simp [hother]

theorem confined_open (v : RiskVerdict) (cancelled : Bool) :
    Confined v.tradeId (open_ v cancelled) := by
  cases hv : v.isCommittable with
  | false =>
    have hrefused : open_ v cancelled = fun l => ⟨.returned (.error (.pipeline
        s!"refusing to commit error verdict for trade {v.tradeId.decimal}")), l, []⟩ := by
      funext l
      simp [open_, hv]
    exact hrefused ▸ .of_keeps _ _
  | true =>
    cases cancelled with
    | false => exact confined_reserving hv
    | true =>
      have hcancelled : open_ v true =
          fun l => ⟨.returned (.error (.cancelled "verdict commit")), l, []⟩ := by
        funext l
        simp [open_, hv]
      exact hcancelled ▸ .of_keeps _ _

theorem confined_submitted (v : RiskVerdict) (b : Budget) (answer : Except AuditError Hash) :
    Confined v.tradeId fun l => submitted v b l answer := by
  cases answer with
  | error e => exact .of_releases _ _
  | ok hash => exact .of_keeps _ _

theorem confined_looked (v : RiskVerdict) (hash : Hash) (b : Budget)
    (answer : Except AuditError (Option Rpc.Receipt)) :
    Confined v.tradeId fun l => looked v hash b l answer := by
  have hpending : Confined v.tradeId fun l => looked v hash b l (.ok none) := by
    cases hb : b.isExhausted with
    | true =>
      simp only [looked, hb]
      exact .of_keeps _ _
    | false =>
      simp only [looked, hb]
      exact .of_keeps _ _
  rcases answer with e | _ | receipt
  · exact hpending
  · exact hpending
  · cases hs : receipt.succeeded with
    | true =>
      simp only [looked, hs]
      exact .of_keeps _ _
    | false =>
      simp only [looked, hs]
      exact .of_releases _ _

theorem confined_rested (id : Uint256) (hash : Hash) (b : Budget) (cancelled : Bool) :
    Confined id fun l => rested hash b l cancelled := by
  cases cancelled <;> exact .of_keeps _ _

end Commit

namespace Committer

open Commit

variable {σ : Type} (c : Committer σ) (w : Window) (v : RiskVerdict)

def next : Stage → World σ CommitAct → Option (Ledger → Step) × World σ CommitAct
  | .fresh, world => (some (open_ v (w.isCancelled world.now)), world)
  | .submitting, world =>
    let (answer, world) :=
      (world.record (.submitted (c.calldata v))).ask w (c.writer.submit (c.calldata v))
    (answer.map fun answer l => submitted v c.budget l answer, world)
  | .looking hash b, world =>
    let (answer, world) := (world.record (.lookedUp hash)).ask w (c.writer.receipt hash)
    (answer.map fun answer l => looked v hash b l answer, world)
  | .resting hash b, world =>
    match world.sleep w b.intervalMs.toNat with
    | (.expired, world) => (none, world)
    | (woken, world) => (some fun l => rested hash b l (decide (woken = .cancelled)), world)
  | .returned result, world => (some fun l => ⟨.returned result, l, []⟩, world)

theorem confined_next {s : Stage} {world : World σ CommitAct} {step : Ledger → Step}
    (h : (c.next w v s world).1 = some step) : Confined v.tradeId step := by
  cases s with
  | fresh =>
    obtain rfl := Option.some.inj h
    exact confined_open v _
  | submitting =>
    obtain ⟨answer, -, rfl⟩ := Option.map_eq_some_iff.mp h
    exact confined_submitted v c.budget answer
  | looking hash b =>
    obtain ⟨answer, -, rfl⟩ := Option.map_eq_some_iff.mp h
    exact confined_looked v hash b answer
  | resting hash b =>
    simp only [next] at h
    split at h
    · cases h
    · obtain rfl := Option.some.inj h
      exact confined_rested v.tradeId hash b _
  | returned result =>
    obtain rfl := Option.some.inj h
    exact .of_keeps _ _

def proceed (s : Stage) (r : Run σ) : Option Stage × Run σ :=
  match c.next w v s r.world with
  | (none, world) => (none, { r with world := world })
  | (some step, world) => Prod.map some id (Run.take { r with world := world } (step r.ledger))

def stepsFrom : Stage → Nat
  | .fresh => c.steps + 2
  | .submitting => c.steps + 1
  | s => needs s

def isOver : Stage → Bool
  | .returned _ => true
  | _ => false

theorem stepsFrom_of_isAnswered {s : Stage} (h : isAnswered s = true) : c.stepsFrom s = needs s := by
  cases s with
  | fresh | submitting => cases h
  | looking | resting | returned => rfl

variable {w v} in
theorem Moves.stepsFrom_lt {x y : Stage × Run σ} (h : c.Moves w v x y) :
    c.stepsFrom y.1 < c.stepsFrom x.1 := by
  cases h with
  | opened r =>
    obtain ⟨e, hopen⟩ | ⟨-, hopen⟩ := open_cases v (w.isCancelled r.world.now) r.ledger
    · rw [hopen]
      exact Nat.zero_lt_succ _
    · rw [hopen]
      exact Nat.lt_succ_self _
  | answered r answer world =>
    have hleft := c.needs_submitted v r.ledger answer
    rw [← c.stepsFrom_of_isAnswered (isAnswered_submitted v c.budget r.ledger answer)] at hleft
    exact Nat.lt_succ_of_le hleft
  | looked r hash b answer world =>
    have hleft := needs_looked v hash b r.ledger answer
    rw [← c.stepsFrom_of_isAnswered (isAnswered_looked v hash b r.ledger answer)] at hleft
    exact Nat.lt_succ_of_le hleft
  | rested r hash b woken world =>
    have hawaits := (awaits_rested hash b r.ledger (decide (woken = .cancelled))).1
    have hleft := needs_rested hash b r.ledger (decide (woken = .cancelled))
    rw [← c.stepsFrom_of_isAnswered (isAnswered_of_awaits hawaits)] at hleft
    exact Nat.lt_succ_of_le hleft

theorem proceed_cases {s : Stage} (hs : isOver s = false) (r : Run σ) :
    (∃ s' r', c.proceed w v s r = (some s', r') ∧ c.Moves w v (s, r) (s', r')) ∨
      ∃ r', c.proceed w v s r = (none, r') ∧ c.finish w v (s, r) = (none, r') := by
  cases s with
  | fresh => exact .inl ⟨_, _, rfl, .opened r⟩
  | submitting =>
    have hdata : Calldata.encode c.protocol v.tradeId v.score = c.calldata v := rfl
    rcases hasked : (r.world.record (.submitted (c.calldata v))).ask w
      (c.writer.submit (c.calldata v)) with ⟨_ | answer, world⟩
    · refine .inr ⟨{ r with world := world }, ?_, ?_⟩
      · simp only [proceed, next, hasked, Option.map_none]
      · simp only [finish, Committer.submit, hdata, hasked]
    · refine .inl ⟨_, _, ?_, .answered r answer world hasked⟩
      simp only [proceed, next, hasked, Option.map_some, Run.take, Prod.map, id]
  | looking hash b =>
    rcases hasked : (r.world.record (.lookedUp hash)).ask w (c.writer.receipt hash) with
      ⟨_ | answer, world⟩
    · refine .inr ⟨{ r with world := world }, ?_, ?_⟩
      · simp only [proceed, next, hasked, Option.map_none]
      · simp only [finish, needs, Committer.confirm, hasked]
    · refine .inl ⟨_, _, ?_, .looked r hash b answer world hasked⟩
      simp only [proceed, next, hasked, Option.map_some, Run.take, Prod.map, id]
  | resting hash b =>
    rcases hslept : r.world.sleep w b.intervalMs.toNat with ⟨woken, world⟩
    by_cases hw : woken = .expired
    · subst hw
      refine .inr ⟨{ r with world := world }, ?_, ?_⟩
      · simp only [proceed, next, hslept]
      · simp only [finish, needs, Committer.confirm, hslept]
    · refine .inl ⟨_, _, ?_, .rested r hash b woken world hslept hw⟩
      simp only [proceed, next, hslept, Run.take, Prod.map, id]
  | returned result => cases hs

/-! ### On another ledger -/

theorem proceed_confined (s : Stage) (r : Run σ) {l : Ledger} (hl : v.tradeId ∈ r.ledger ↔ v.tradeId ∈ l) :
    ∃ l', c.proceed w v s { r with ledger := l } =
        ((c.proceed w v s r).1, { (c.proceed w v s r).2 with ledger := l' }) ∧
      (v.tradeId ∈ (c.proceed w v s r).2.ledger ↔ v.tradeId ∈ l') ∧
      ∀ other ≠ v.tradeId, (other ∈ (c.proceed w v s r).2.ledger ↔ other ∈ r.ledger) := by
  -- Of the ledger only the trade id is looked up, and only it is put in or taken out.
  rcases hnext : c.next w v s r.world with ⟨_ | step, world⟩
  · refine ⟨l, ?_, ?_, fun _ _ => ?_⟩
    all_goals simp only [proceed, hnext]
    exact hl
  · have hconfined := c.confined_next w v (congrArg Prod.fst hnext)
    refine ⟨(step l).ledger, ?_, ?_, fun other h => ?_⟩
    all_goals simp only [proceed, hnext, Run.take, Prod.map, id]
    · rw [hconfined.stage r.ledger l hl, hconfined.calls r.ledger l hl]
    · exact hconfined.own r.ledger l hl
    · exact hconfined.others r.ledger other h

end Committer

end TokenAudit
