import TokenAudit.Proofs.Pipeline.Story
import TokenAudit.Proofs.Risk.Scores

/-! The course of a run, stage by stage: the search for the source, the detectors on what it found,
the verdict on their code, and what becomes of that verdict. -/

namespace TokenAudit

theorem Window.isCancelled_iff (w : Window) (now : Nat) :
    w.isCancelled now = true ↔ ∃ t, w.cancelAt = some t ∧ t ≤ now := by
  unfold isCancelled
  cases w.cancelAt <;> simp

namespace Pipeline

variable {σ : Type}

section

variable (p : Pipeline σ) (t : RunTerms) (token : Address) (a : Audit σ)

def search : Decompiler.Ran σ SourceResult :=
  p.resolver.resolve ⟨t.cancelAt, some (a.now + p.sourceTimeoutMs)⟩ token
    ⟨a.now, a.sourceTrace, a.state⟩

/-- The signal fired by the end of the search. -/
def Abandoned : Prop :=
  ∃ instant, t.cancelAt = some instant ∧ instant ≤ (p.search t token a).2.now

def found : SourceResult := (p.search t token a).1.getD .absent

def searched : Audit σ :=
  let world := (p.search t token a).2
  { tell a [.phase .resolveSource .running] with
    now := world.now, state := world.state, sourceTrace := world.trace }

def inspected : Panel.Ran σ :=
  p.panel.run token (p.found t token a) (p.search t token a).2.state

/-- All that is told between the end of the search and the end of the computation. -/
def judgement : List Call :=
  [.phase .resolveSource .done] ++ (p.inspected t token a).calls ++
    [.phase .computeRiskCode .running, .phase .computeRiskCode .done]

def judged : Audit σ :=
  { tell (p.searched t token a) (p.judgement t token a) with
    now := (p.search t token a).2.now + (p.inspected t token a).duration
    state := (p.inspected t token a).state }

end

def verdict (p : Pipeline σ) (t : RunTerms) (request : AuditRequest) (a : Audit σ) : RiskVerdict :=
  .ofMask request t.decidedAt (p.inspected t request.token a).aggregation.mask

theorem isCommittable_verdict (p : Pipeline σ) (t : RunTerms) (request : AuditRequest) (a : Audit σ) :
    (p.verdict t request a).isCommittable = true :=
  RiskVerdict.isCommittable_ofMask request t.decidedAt _

def settle (p : Pipeline σ) (t : RunTerms) (v : RiskVerdict) (a : Audit σ) :
    Option (Except AuditError RiskVerdict) × Audit σ :=
  match p.commitVerdict t v a with
  | (none, a) => (none, a)
  | (some (.error e), a) => (some (.error e), a)
  | (some (.ok ()), a) =>
    let (result, a) := announce v a
    (some result, a)

theorem resolveSource_eq (p : Pipeline σ) (t : RunTerms) (token : Address) (a : Audit σ) :
    p.resolveSource t token a =
      if (⟨t.cancelAt, none⟩ : Window).isCancelled (p.search t token a).2.now then
        (.error (.cancelled "audit"), p.searched t token a)
      else (.ok (p.found t token a), tell (p.searched t token a) [.phase .resolveSource .done]) := rfl

theorem computeVerdict_eq (t : RunTerms) (request : AuditRequest) (found : Aggregation)
    (a : Audit σ) : computeVerdict t request found a =
      (.ok (.ofMask request t.decidedAt found.mask),
        tell a [.phase .computeRiskCode .running, .phase .computeRiskCode .done]) := by
  simp only [computeVerdict, RiskVerdict.ofScore_bits, RiskVerdict.status_ofMask, if_false]
  rfl

theorem judged_eq (p : Pipeline σ) (t : RunTerms) (token : Address) (a : Audit σ) :
    p.judged t token a =
      tell (p.runPanel token (p.found t token a)
        (tell (p.searched t token a) [.phase .resolveSource .done])).2
          [.phase .computeRiskCode .running, .phase .computeRiskCode .done] := by
  simp only [judged, judgement, tell, Stream.calls_append]
  rfl

theorem at_judged (p : Pipeline σ) (t : RunTerms) (token : Address) {a : Audit σ} (h : At a 0) :
    At (p.judged t token a) 8 := by
  have hsearched : At (p.searched t token a) 1 := h.phase rfl
  have hpanel := p.at_runPanel token (p.found t token a) (hsearched.phase rfl)
  rw [judged_eq, tell_cons]
  exact (hpanel.phase rfl).phase rfl

section

variable (p : Pipeline σ) (t : RunTerms) {request : AuditRequest} (a : Audit σ)

theorem execute_of_abandoned (hz : request.token ≠ .zero) (h : p.Abandoned t request.token a) :
    p.execute t request a =
      (some (.error (.cancelled "audit")), p.searched t request.token a) := by
  have hwindow := (Window.isCancelled_iff ⟨t.cancelAt, none⟩ _).mpr h
  simp only [execute, hz, if_false, resolveSource_eq, hwindow, if_true]

theorem execute_of_not_abandoned (hz : request.token ≠ .zero)
    (h : ¬p.Abandoned t request.token a) :
    p.execute t request a = p.settle t (p.verdict t request a) (p.judged t request.token a) := by
  have hwindow := mt (Window.isCancelled_iff ⟨t.cancelAt, none⟩ _).mp h
  simp only [execute, hz, if_false, resolveSource_eq, hwindow, Bool.false_eq_true, computeVerdict_eq,
    judged_eq]
  rfl

theorem run_of_zero (hz : request.token = .zero) :
    p.run t request a = (some (.error (.input "target token is the zero address")),
      tell a [.fatal (AuditError.input "target token is the zero address").message]) := by
  rw [run, execute, if_pos hz]

theorem run_of_abandoned (hz : request.token ≠ .zero) (h : p.Abandoned t request.token a) :
    p.run t request a = (some (.error (.cancelled "audit")),
      tell (p.searched t request.token a) [.fatal (AuditError.cancelled "audit").message]) := by
  rw [run, p.execute_of_abandoned t a hz h]

theorem run_cases (request : AuditRequest) :
    (∃ e after, p.run t request a = (some (.error e), tell after [.fatal e.message]) ∧
      (after = a ∨ after = p.searched t request.token a)) ∨
    request.token ≠ .zero ∧ ¬p.Abandoned t request.token a ∧
      p.execute t request a = p.settle t (p.verdict t request a) (p.judged t request.token a) := by
  by_cases hz : request.token = .zero
  · exact .inl ⟨_, a, p.run_of_zero t a hz, .inl rfl⟩
  by_cases h : p.Abandoned t request.token a
  · exact .inl ⟨_, _, p.run_of_abandoned t a hz h, .inr rfl⟩
  · exact .inr ⟨hz, h, p.execute_of_not_abandoned t a hz h⟩

end

theorem announce_ok {v v' : RiskVerdict} {a : Audit σ} (h : (announce v a).1 = .ok v') : v' = v := by
  unfold announce at h
  split at h
  · cases h
  · exact (Except.ok.inj h).symm

theorem settle_ok {p : Pipeline σ} {t : RunTerms} {v v' : RiskVerdict} {a : Audit σ}
    (h : (p.settle t v a).1 = some (.ok v')) : v' = v := by
  unfold settle at h
  split at h
  · cases h
  · cases h
  · exact announce_ok (Option.some.inj h)

theorem eq_verdict_of_run {p : Pipeline σ} {t : RunTerms} {request : AuditRequest} {a : Audit σ}
    {v : RiskVerdict} (h : (p.run t request a).1 = some (.ok v)) : v = p.verdict t request a := by
  obtain ⟨e, after, hrun, -⟩ | ⟨-, -, hexecute⟩ := p.run_cases t a request
  · rw [hrun] at h
    cases h
  · rw [run, hexecute] at h
    split at h
    · cases h
    · exact settle_ok h

/-! ### Runs that commit -/

def committing (p : Pipeline σ) (t : RunTerms) (token : Address) (a : Audit σ) :
    Committer.Run σ :=
  let b := p.judged t token a
  ⟨⟨b.now, b.commitTrace, b.state⟩, b.ledger, (tell b [.phase .commitVerdict .running]).stream⟩

def committed (p : Pipeline σ) (c : Committer σ) (t : RunTerms) (request : AuditRequest)
    (a : Audit σ) : Option Commit.Result × Committer.Run σ :=
  c.commit ⟨t.cancelAt, none⟩ (p.verdict t request a) (p.committing t request.token a)

def after (a : Audit σ) (r : Committer.Run σ) : Audit σ :=
  { a with
    now := r.world.now, state := r.world.state, commitTrace := r.world.trace
    ledger := r.ledger, stream := r.stream }

@[simp] theorem after_ledger (a : Audit σ) (r : Committer.Run σ) : (after a r).ledger = r.ledger := rfl

@[simp] theorem after_stream (a : Audit σ) (r : Committer.Run σ) : (after a r).stream = r.stream := rfl

@[simp] theorem after_commitTrace (a : Audit σ) (r : Committer.Run σ) :
    (after a r).commitTrace = r.world.trace := rfl

theorem at_after {a : Audit σ} {r : Committer.Run σ} {n : Nat}
    (h : r.stream.OpenAt (fullLog.take n)) : At (after a r) n := h

def settled (p : Pipeline σ) (c : Committer σ) (t : RunTerms) (request : AuditRequest)
    (a : Audit σ) : Audit σ :=
  after (p.judged t request.token a) (p.committed c t request a).2

theorem at_settled (p : Pipeline σ) (c : Committer σ) (t : RunTerms) (request : AuditRequest)
    {a : Audit σ} (h : At a 0) : At (p.settled c t request a) 9 := by
  have hrunning : At (tell (p.judged t request.token a) [.phase .commitVerdict .running]) 9 :=
    (p.at_judged t request.token h).phase rfl
  exact at_after (c.openAt_commit ⟨t.cancelAt, none⟩ (p.verdict t request a) hrunning)

theorem commitVerdict_of {p : Pipeline σ} {c : Committer σ} (hc : p.committer = some c)
    {t : RunTerms} {v : RiskVerdict} {a : Audit σ} {result : Option Commit.Result}
    {r : Committer.Run σ}
    (h : c.commit ⟨t.cancelAt, none⟩ v ⟨⟨a.now, a.commitTrace, a.state⟩, a.ledger,
      (tell a [.phase .commitVerdict .running]).stream⟩ = (result, r)) :
    p.commitVerdict t v a = match result with
      | none => (none, after a r)
      | some (.error e) => (some (.error e), after a r)
      | some (.ok _) => (some (.ok ()), tell (after a r) [.phase .commitVerdict .done]) := by
  unfold commitVerdict
  simp only [tell] at h
  simp only [hc, tell, h]
  rcases result with _ | _ | _ <;> rfl

theorem announce_of_ended {v : RiskVerdict} {a : Audit σ} {n : Nat} (h : At a n)
    (hended : ∀ p, statusIn p (fullLog.take n) ≠ some .running) :
    announce v a = (.ok v, tell a [.finalVerdict v]) := by
  refine Prod.ext (announce_eq h hended).1 ?_
  unfold announce
  split <;> rfl

theorem ended_fullLog (p : Phase) : statusIn p (fullLog.take 10) ≠ some .running := by
  cases p <;> decide

section

variable {p : Pipeline σ} {c : Committer σ} {t : RunTerms} {request : AuditRequest} {a : Audit σ}
  (hc : p.committer = some c) (hz : request.token ≠ .zero)
  (h : ¬p.Abandoned t request.token a)

include hc hz h

theorem run_of_unsettled (hcommit : (p.committed c t request a).1 = none) :
    p.run t request a = (none, p.settled c t request a) := by
  have hverdict := commitVerdict_of hc (Prod.ext hcommit rfl :
    p.committed c t request a = (none, (p.committed c t request a).2))
  rw [run, p.execute_of_not_abandoned t a hz h, settle, hverdict]
  rfl

theorem run_of_uncommitted {e : AuditError}
    (hcommit : (p.committed c t request a).1 = some (.error e)) :
    p.run t request a =
      (some (.error e), tell (p.settled c t request a) [.fatal e.message]) := by
  have hverdict := commitVerdict_of hc (Prod.ext hcommit rfl :
    p.committed c t request a = (some (.error e), (p.committed c t request a).2))
  rw [run, p.execute_of_not_abandoned t a hz h, settle, hverdict]
  rfl

theorem run_of_committed (ha : At a 0) {receipt : CommitReceipt}
    (hcommit : (p.committed c t request a).1 = some (.ok receipt)) :
    p.run t request a = (some (.ok (p.verdict t request a)),
      tell (p.settled c t request a)
        [.phase .commitVerdict .done, .finalVerdict (p.verdict t request a)]) := by
  have hverdict := commitVerdict_of hc (Prod.ext hcommit rfl :
    p.committed c t request a = (some (.ok receipt), (p.committed c t request a).2))
  have hdone : At (tell (p.settled c t request a) [.phase .commitVerdict .done]) 10 :=
    (p.at_settled c t request ha).phase rfl
  rw [run, p.execute_of_not_abandoned t a hz h, settle, hverdict]
  dsimp only
  rw [← settled, announce_of_ended hdone ended_fullLog]
  exact congrArg (Prod.mk _) (tell_cons (p.settled c t request a) _ _).symm

end

end Pipeline

end TokenAudit
