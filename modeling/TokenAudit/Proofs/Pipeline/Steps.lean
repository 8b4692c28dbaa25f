import Mathlib.Logic.Function.Iterate
import TokenAudit.Proofs.Commit.Confined
import TokenAudit.Proofs.Pipeline.Course

/-! A run in steps, so that other runs can take theirs in between. The ledger is all that runs share,
so whatever concerns the run alone, such as its search for the source or the work of its detectors, is
one step; the commit takes a step from each wait to the next. -/

namespace TokenAudit

/-- How far a run has come. `lost` waits for an answer that never comes. -/
inductive Progress where
  | fresh
  | found (source : SourceResult)
  | committing (mask : RiskMask) (stage : Commit.Stage)
  | settled (mask : RiskMask)
  | ended (result : Except AuditError RiskVerdict)
  | lost

namespace Progress

def isAtRest : Progress → Bool
  | ended _ => true
  | lost => true
  | _ => false

def result? : Progress → Option (Except AuditError RiskVerdict)
  | ended result => some result
  | _ => none

end Progress

namespace Pipeline

variable {σ : Type}

abbrev Frame (σ : Type) : Type := Progress × Audit σ

def Frame.on (x : Frame σ) (l : Ledger) : Frame σ := (x.1, { x.2 with ledger := l })

def failed (e : AuditError) (a : Audit σ) : Frame σ :=
  (.ended (.error e), tell a [.fatal e.message])

def commitRun (a : Audit σ) : Committer.Run σ :=
  ⟨⟨a.now, a.commitTrace, a.state⟩, a.ledger, a.stream⟩

section

variable (p : Pipeline σ) (t : RunTerms) (request : AuditRequest)

def begun (a : Audit σ) : Frame σ :=
  if request.token = Address.zero then
    failed (.input "target token is the zero address") a
  else
    match p.resolveSource t request.token a with
    | (.error e, a) => failed e a
    | (.ok source, a) => (.found source, a)

def examined (source : SourceResult) (a : Audit σ) : Frame σ :=
  let (found, a) := p.runPanel request.token source a
  match computeVerdict t request found a with
  | (.error e, a) => failed e a
  | (.ok _, a) =>
    match p.committer with
    | none => (.settled found.mask, a)
    | some _ => (.committing found.mask .fresh, tell a [.phase .commitVerdict .running])

def verdictOn (mask : RiskMask) : RiskVerdict := .ofMask request t.decidedAt mask

def carriedOn (c : Committer σ) (mask : RiskMask) (a : Audit σ) : Commit.Stage → Frame σ
  | .returned (.error e) => failed e a
  | .returned (.ok _) => (.settled mask, tell a [.phase .commitVerdict .done])
  | s =>
    match c.proceed ⟨t.cancelAt, none⟩ (verdictOn t request mask) s (commitRun a) with
    | (some s, r) => (.committing mask s, after a r)
    | (none, r) => (.lost, after a r)

def announced (mask : RiskMask) (a : Audit σ) : Frame σ :=
  match announce (verdictOn t request mask) a with
  | (.error e, a) => failed e a
  | (.ok v, a) => (.ended (.ok v), a)

def advance : Frame σ → Frame σ
  | (.fresh, a) => p.begun t request a
  | (.found source, a) => p.examined t request source a
  | (.committing mask s, a) =>
    match p.committer with
    | none => (.lost, a)
    | some c => carriedOn t request c mask a s
  | (.settled mask, a) => announced t request mask a
  | (.ended result, a) => (.ended result, a)
  | (.lost, a) => (.lost, a)

/-! ### The run that the steps make up -/

def told : Option (Except AuditError RiskVerdict) × Audit σ →
    Option (Except AuditError RiskVerdict) × Audit σ
  | (some (.error e), a) => (some (.error e), tell a [.fatal e.message])
  | ran => ran

def concluded (v : RiskVerdict) : Option Commit.Result × Audit σ →
    Option (Except AuditError RiskVerdict) × Audit σ
  | (none, a) => (none, a)
  | (some (.error e), a) => told (some (.error e), a)
  | (some (.ok _), a) =>
    let (result, a) := announce v (tell a [.phase .commitVerdict .done])
    told (some result, a)

def finish : Frame σ → Option (Except AuditError RiskVerdict) × Audit σ
  | (.fresh, a) => p.run t request a
  | (.found source, a) =>
    let (found, a) := p.runPanel request.token source a
    told (p.settle t (verdictOn t request found.mask)
      (tell a [.phase .computeRiskCode .running, .phase .computeRiskCode .done]))
  | (.committing mask s, a) =>
    match p.committer with
    | none => (none, a)
    | some c =>
      let (result, r) := c.finish ⟨t.cancelAt, none⟩ (verdictOn t request mask) (s, commitRun a)
      concluded (verdictOn t request mask) (result, after a r)
  | (.settled mask, a) =>
    let (result, a) := announce (verdictOn t request mask) a
    told (some result, a)
  | (.ended result, a) => (some result, a)
  | (.lost, a) => (none, a)

end

section

variable (p : Pipeline σ) (t : RunTerms) (request : AuditRequest)

theorem finish_begun (a : Audit σ) :
    p.finish t request (p.begun t request a) = p.run t request a := by
  have hrun : p.run t request a = told (p.execute t request a) := rfl
  rw [hrun, begun, execute]
  split
  · rfl
  · rcases p.resolveSource t request.token a with ⟨e | source, b⟩
    · rfl
    · simp only [computeVerdict_eq]
      rfl

theorem settle_eq {c : Committer σ} (hc : p.committer = some c) (v : RiskVerdict) (a : Audit σ) :
    told (p.settle t v a) = concluded v
      ((c.commit ⟨t.cancelAt, none⟩ v (commitRun (tell a [.phase .commitVerdict .running]))).1,
        after a (c.commit ⟨t.cancelAt, none⟩ v
          (commitRun (tell a [.phase .commitVerdict .running]))).2) := by
  rcases hcommit : c.commit ⟨t.cancelAt, none⟩ v
    (commitRun (tell a [.phase .commitVerdict .running])) with ⟨result, r⟩
  rw [settle, commitVerdict_of hc hcommit]
  rcases result with _ | _ | _ <;> rfl

theorem finish_examined (source : SourceResult) (a : Audit σ) :
    p.finish t request (p.examined t request source a) =
      p.finish t request (.found source, a) := by
  simp only [examined, computeVerdict_eq]
  cases hc : p.committer with
  | none =>
    simp only [finish, settle, commitVerdict, hc]
  | some c =>
    have hsettle := p.settle_eq t hc
    simp only [finish, hc, hsettle]
    rfl

theorem carriedOn_of_not_over (c : Committer σ) (mask : RiskMask) (a : Audit σ) {s : Commit.Stage}
    (hs : Committer.isOver s = false) : carriedOn t request c mask a s =
      match c.proceed ⟨t.cancelAt, none⟩ (verdictOn t request mask) s (commitRun a) with
      | (some s, r) => (.committing mask s, after a r)
      | (none, r) => (.lost, after a r) := by
  unfold carriedOn
  split
  · cases hs
  · cases hs
  · rfl

theorem carriedOn_cases (c : Committer σ) (mask : RiskMask) (s : Commit.Stage) (a : Audit σ) :
    (∃ e, s = .returned (.error e) ∧ carriedOn t request c mask a s = failed e a) ∨
    (∃ receipt, s = .returned (.ok receipt) ∧ carriedOn t request c mask a s =
      (.settled mask, tell a [.phase .commitVerdict .done])) ∨
    (∃ s' r', c.Moves ⟨t.cancelAt, none⟩ (verdictOn t request mask) (s, commitRun a) (s', r') ∧
      carriedOn t request c mask a s = (.committing mask s', after a r')) ∨
    ∃ r', c.finish ⟨t.cancelAt, none⟩ (verdictOn t request mask) (s, commitRun a) = (none, r') ∧
      carriedOn t request c mask a s = (.lost, after a r') := by
  cases hs : Committer.isOver s with
  | true =>
    cases s with
    | returned result =>
      rcases result with e | receipt
      · exact .inl ⟨e, rfl, rfl⟩
      · exact .inr (.inl ⟨receipt, rfl, rfl⟩)
    | _ => cases hs
  | false =>
    rw [carriedOn_of_not_over t request c mask a hs]
    rcases c.proceed_cases ⟨t.cancelAt, none⟩ (verdictOn t request mask) hs (commitRun a) with
      ⟨s', r', hproceed, hmoves⟩ | ⟨r', hproceed, hfinish⟩
    · rw [hproceed]
      exact .inr (.inr (.inl ⟨s', r', hmoves, rfl⟩))
    · rw [hproceed]
      exact .inr (.inr (.inr ⟨r', hfinish, rfl⟩))

theorem finish_carriedOn {c : Committer σ} (hc : p.committer = some c) (mask : RiskMask)
    (s : Commit.Stage) (a : Audit σ) :
    p.finish t request (carriedOn t request c mask a s) =
      p.finish t request (.committing mask s, a) := by
  have hwhole : p.finish t request (.committing mask s, a) =
      let ran := c.finish ⟨t.cancelAt, none⟩ (verdictOn t request mask) (s, commitRun a)
      concluded (verdictOn t request mask) (ran.1, after a ran.2) := by
    simp only [finish, hc]
  rw [hwhole]
  obtain ⟨e, rfl, hstep⟩ | ⟨receipt, rfl, hstep⟩ | ⟨s', r', hmoves, hstep⟩ | ⟨r', hlost, hstep⟩ :=
    carriedOn_cases t request c mask s a
  · rw [hstep]
    rfl
  · rw [hstep]
    rfl
  · have hmoved := hmoves.finish_eq
    rw [hstep]
    simp only [finish, hc, hmoved]
    rfl
  · rw [hstep, hlost]
    rfl

theorem finish_advance (x : Frame σ) :
    p.finish t request (p.advance t request x) = p.finish t request x := by
  obtain ⟨s, a⟩ := x
  cases s with
  | fresh => exact p.finish_begun t request a
  | found source => exact p.finish_examined t request source a
  | committing mask s =>
    cases hc : p.committer with
    | none => simp only [advance, finish, hc]
    | some c =>
      have hcarried := p.finish_carriedOn t request hc mask s a
      simp only [advance, hc, hcarried]
  | settled mask =>
    simp only [advance, announced, finish]
    rcases announce (verdictOn t request mask) a with ⟨_ | _, b⟩ <;> rfl
  | ended result => rfl
  | lost => rfl

theorem finish_of_rest {x : Frame σ} (h : x.1.isAtRest = true) :
    p.finish t request x = (x.1.result?, x.2) := by
  obtain ⟨s, a⟩ := x
  cases s with
  | ended result => rfl
  | lost => rfl
  | fresh | found | committing | settled => cases h

/-! ### How many steps there are -/

def stepsFrom : Progress → Nat
  | .fresh => p.committer.elim 0 (fun c => c.stepsFrom .fresh) + 4
  | .found _ => p.committer.elim 0 (fun c => c.stepsFrom .fresh) + 3
  | .committing _ s => p.committer.elim 0 (fun c => c.stepsFrom s) + 2
  | .settled _ => 1
  | .ended _ => 0
  | .lost => 0

def steps : Nat := p.stepsFrom .fresh

theorem stepsFrom_begun (a : Audit σ) :
    p.stepsFrom (p.begun t request a).1 < p.stepsFrom .fresh := by
  unfold begun
  split
  · exact Nat.zero_lt_succ _
  · rcases p.resolveSource t request.token a with ⟨e | source, b⟩
    · exact Nat.zero_lt_succ _
    · exact Nat.lt_succ_self _

theorem stepsFrom_examined (source : SourceResult) (a : Audit σ) :
    p.stepsFrom (p.examined t request source a).1 < p.stepsFrom (.found source) := by
  simp only [examined, computeVerdict_eq]
  cases hc : p.committer with
  | none =>
    simp only [stepsFrom]
    omega
  | some c =>
    simp only [stepsFrom, hc]
    exact Nat.lt_succ_self _

theorem stepsFrom_carriedOn {c : Committer σ} (hc : p.committer = some c) (mask : RiskMask)
    (s : Commit.Stage) (a : Audit σ) :
    p.stepsFrom (carriedOn t request c mask a s).1 < p.stepsFrom (.committing mask s) := by
  have hleft (s : Commit.Stage) : p.stepsFrom (.committing mask s) = c.stepsFrom s + 2 := by
    simp only [stepsFrom, hc, Option.elim_some]
  obtain ⟨e, -, hstep⟩ | ⟨receipt, -, hstep⟩ | ⟨s', r', hmoves, hstep⟩ | ⟨r', -, hstep⟩ :=
    carriedOn_cases t request c mask s a
  · rw [hstep, hleft]
    exact Nat.zero_lt_succ _
  · rw [hstep, hleft]
    exact Nat.succ_lt_succ (Nat.zero_lt_succ _)
  · rw [hstep, hleft, hleft]
    exact Nat.add_lt_add_right hmoves.stepsFrom_lt 2
  · rw [hstep, hleft]
    exact Nat.zero_lt_succ _

theorem stepsFrom_advance {x : Frame σ} (h : x.1.isAtRest = false) :
    p.stepsFrom (p.advance t request x).1 < p.stepsFrom x.1 := by
  obtain ⟨s, a⟩ := x
  cases s with
  | fresh => exact p.stepsFrom_begun t request a
  | found source => exact p.stepsFrom_examined t request source a
  | committing mask s =>
    cases hc : p.committer with
    | none =>
      simp only [advance, hc]
      exact Nat.zero_lt_succ _
    | some c =>
      have hcarried := p.stepsFrom_carriedOn t request hc mask s a
      simp only [advance, hc]
      exact hcarried
  | settled mask =>
    simp only [advance, announced]
    rcases announce (verdictOn t request mask) a with ⟨_ | _, b⟩ <;> exact Nat.one_pos
  | ended result => cases h
  | lost => cases h

theorem advance_of_rest {x : Frame σ} (h : x.1.isAtRest = true) : p.advance t request x = x := by
  obtain ⟨s, a⟩ := x
  cases s with
  | ended | lost => rfl
  | fresh | found | committing | settled => cases h

theorem finish_iterate (n : Nat) (x : Frame σ) :
    p.finish t request ((p.advance t request)^[n] x) = p.finish t request x := by
  induction n with
  | zero => rfl
  | succ n ih => rw [Function.iterate_succ_apply', finish_advance, ih]

theorem rest_or_stepsFrom_iterate (n : Nat) (x : Frame σ) :
    ((p.advance t request)^[n] x).1.isAtRest = true ∨
      p.stepsFrom ((p.advance t request)^[n] x).1 + n ≤ p.stepsFrom x.1 := by
  -- Each step brings a run nearer to its rest.
  induction n with
  | zero => exact .inr (Nat.le_refl _)
  | succ n ih =>
    rw [Function.iterate_succ_apply']
    cases h : ((p.advance t request)^[n] x).1.isAtRest with
    | true =>
      rw [p.advance_of_rest t request h]
      exact .inl h
    | false =>
      have hlt := p.stepsFrom_advance t request h
      have hle := ih.resolve_left (by simp [h])
      exact .inr (by omega)

theorem rest_iterate {n : Nat} (hn : p.steps ≤ n) (a : Audit σ) :
    ((p.advance t request)^[n] (.fresh, a)).1.isAtRest = true := by
  by_contra hrest
  rw [Bool.not_eq_true] at hrest
  have hlt := p.stepsFrom_advance t request hrest
  have hle : _ ≤ p.steps :=
    (p.rest_or_stepsFrom_iterate t request n (.fresh, a)).resolve_left (by simp [hrest])
  omega

theorem run_eq_of_rest {n : Nat} {a : Audit σ}
    (h : ((p.advance t request)^[n] (.fresh, a)).1.isAtRest = true) :
    p.run t request a = (((p.advance t request)^[n] (.fresh, a)).1.result?,
      ((p.advance t request)^[n] (.fresh, a)).2) := by
  rw [← p.finish_of_rest t request h, finish_iterate]
  rfl

/-! ### On another ledger -/

/-- Of the ledger `step` sees whether a trade id is taken, and it leaves the others there alone. -/
def Confined (id : Uint256) (step : Audit σ → Frame σ) : Prop :=
  ∀ a l, (id ∈ a.ledger ↔ id ∈ l) → ∃ l', step { a with ledger := l } = (step a).on l' ∧
    (id ∈ (step a).2.ledger ↔ id ∈ l') ∧
    ∀ other ≠ id, (other ∈ (step a).2.ledger ↔ other ∈ a.ledger)

theorem Confined.of_keeps (id : Uint256) {step : Audit σ → Frame σ}
    (h : ∀ a l, step { a with ledger := l } = (step a).on l) : Confined id step := by
  intro a l hl
  have hkeeps : (step a).2.ledger = a.ledger := congrArg (fun x => x.2.ledger) (h a a.ledger)
  refine ⟨l, h a l, ?_, fun other _ => ?_⟩
  · rw [hkeeps]
    exact hl
  · rw [hkeeps]

theorem confined_begun : Confined request.tradeId (p.begun t request) := by
  refine .of_keeps _ fun a l => ?_
  have hsearch : p.search t request.token { a with ledger := l } = p.search t request.token a := rfl
  simp only [begun, resolveSource_eq, hsearch]
  split
  · rfl
  · cases (⟨t.cancelAt, none⟩ : Window).isCancelled (p.search t request.token a).2.now <;> rfl

theorem confined_examined (source : SourceResult) :
    Confined request.tradeId (p.examined t request source) := by
  refine .of_keeps _ fun a l => ?_
  simp only [examined, computeVerdict_eq]
  cases p.committer <;> rfl

theorem confined_announced (mask : RiskMask) :
    Confined request.tradeId (announced (σ := σ) t request mask) := by
  refine .of_keeps _ fun a l => ?_
  simp only [announced, announce]
  cases a.stream.feed.refusal? <;> rfl

theorem confined_carriedOn (c : Committer σ) (mask : RiskMask) (s : Commit.Stage) :
    Confined request.tradeId fun a => carriedOn t request c mask a s := by
  cases hs : Committer.isOver s with
  | true =>
    cases s with
    | returned result =>
      rcases result with e | receipt
      · exact .of_keeps _ fun _ _ => rfl
      · exact .of_keeps _ fun _ _ => rfl
    | _ => cases hs
  | false =>
    intro a l hl
    obtain ⟨l', hproceed, hown, hothers⟩ :=
      c.proceed_confined ⟨t.cancelAt, none⟩ (verdictOn t request mask) s (commitRun a) hl
    have hrun : commitRun { a with ledger := l } = { commitRun a with ledger := l } := rfl
    simp only [carriedOn_of_not_over t request c mask _ hs, hrun, hproceed]
    generalize c.proceed ⟨t.cancelAt, none⟩ (verdictOn t request mask) s (commitRun a) = ran
      at hown hothers ⊢
    rcases ran with ⟨_ | s', r'⟩
    · exact ⟨l', rfl, hown, hothers⟩
    · exact ⟨l', rfl, hown, hothers⟩

theorem confined_advance (s : Progress) :
    Confined request.tradeId fun a => p.advance t request (s, a) := by
  have hrest (s : Progress) : Confined request.tradeId fun a : Audit σ => (s, a) :=
    .of_keeps _ fun _ _ => rfl
  cases s with
  | fresh => exact p.confined_begun t request
  | found source => exact p.confined_examined t request source
  | committing mask s =>
    simp only [advance]
    cases p.committer with
    | none => exact hrest .lost
    | some c => exact confined_carriedOn t request c mask s
  | settled mask => exact confined_announced t request mask
  | ended result => exact hrest (.ended result)
  | lost => exact hrest .lost

end

end Pipeline

end TokenAudit
