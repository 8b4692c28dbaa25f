import TokenAudit.Proofs.Commit.Failing
import TokenAudit.Proofs.Pipeline.Chain

/-! Why a run fails: its token is the zero address, the signal has fired by the end of the search, or
its commit fails. Whatever the detectors and the sources do, it fails for nothing else. -/

namespace TokenAudit

namespace Pipeline

variable {σ : Type}

theorem announce_judged (p : Pipeline σ) (t : RunTerms) (token : Address) {a : Audit σ}
    (ha : At a 0) (v : RiskVerdict) : announce v (p.judged t token a) =
      (.ok v, tell (p.judged t token a) [.finalVerdict v]) :=
  announce_of_ended (p.at_judged t token ha) fun q => by cases q <;> decide

theorem announce_settled (p : Pipeline σ) (c : Committer σ) (t : RunTerms) (request : AuditRequest)
    {a : Audit σ} (ha : At a 0) (v : RiskVerdict) :
    announce v (tell (p.settled c t request a) [.phase .commitVerdict .done]) =
      (.ok v, tell (tell (p.settled c t request a) [.phase .commitVerdict .done])
        [.finalVerdict v]) :=
  announce_of_ended ((p.at_settled c t request ha).phase rfl) ended_fullLog

section

variable {p : Pipeline σ} {t : RunTerms} {request : AuditRequest} {a : Audit σ}
  (hz : request.token ≠ .zero) (h : ¬p.Abandoned t request.token a) (ha : At a 0)

include hz h ha

theorem run_of_uncommitting (hc : p.committer = none) :
    p.run t request a = (some (.ok (p.verdict t request a)),
      tell (p.judged t request.token a) [.finalVerdict (p.verdict t request a)]) := by
  have hcommit : p.commitVerdict t (p.verdict t request a) (p.judged t request.token a) =
      (some (.ok ()), p.judged t request.token a) := by
    rw [commitVerdict, hc]
  have hannounce := p.announce_judged t request.token ha (p.verdict t request a)
  rw [run, p.execute_of_not_abandoned t a hz h, settle, hcommit]
  dsimp only
  rw [hannounce]

theorem committed_of_run {c : Committer σ} (hc : p.committer = some c) {e : AuditError}
    (hr : (p.run t request a).1 = some (.error e)) :
    (p.committed c t request a).1 = some (.error e) := by
  obtain ⟨hreturned, -⟩ := run_told hc hz h ha
  rw [hr] at hreturned
  rcases hcommit : (p.committed c t request a).1 with _ | e' | receipt
  · rw [hcommit] at hreturned
    cases hreturned
  · rw [hcommit] at hreturned
    cases hreturned
    rfl
  · rw [hcommit] at hreturned
    cases hreturned

end

/-- Whatever the sources and the detectors do, and in whatever order: a run fails for its token, for
the signal, or with its commit. That a verdict is no risk code, may not be committed, or comes while
a phase is still running, never happens. -/
theorem only_commits_fail (p : Pipeline σ) (t : RunTerms) (request : AuditRequest) (now : Nat)
    (state : σ) (ledger : Ledger) :
    let a := start now state ledger
    let token := request.token
    let ran := p.run t request a
    (token = .zero →
      ran.1 = some (.error (.input "target token is the zero address")) ∧
      ran.2.state = state ∧ ran.2.sourceTrace = [] ∧ ran.2.commitTrace = [] ∧
      ∀ q : Pipeline σ, q.run t request a = ran) ∧
    (token ≠ .zero → p.Abandoned t token a → ran.1 = some (.error (.cancelled "audit"))) ∧
    (token ≠ .zero → ¬p.Abandoned t token a → p.committer = none → ∃ v, ran.1 = some (.ok v)) ∧
    (∀ c e, token ≠ .zero → ¬p.Abandoned t token a → p.committer = some c →
      ran.1 = some (.error e) →
      c.Fails ⟨t.cancelAt, none⟩ (p.verdict t request a) (p.committing t token a) e) ∧
    (∀ found (b : Audit σ), ∃ after, computeVerdict t request found b =
      (.ok (.ofMask request t.decidedAt found.mask), after)) ∧
    (p.verdict t request a).isCommittable = true ∧
    (∀ v, (announce v (p.judged t token a)).1 = .ok v) ∧
    ∀ c v, (announce v (tell (p.settled c t request a) [.phase .commitVerdict .done])).1 = .ok v := by
  intro a token ran
  have hat : At a 0 := Stream.OpenAt.empty
  refine ⟨?_, ?_, ?_, ?_, fun found b => ⟨_, computeVerdict_eq t request found b⟩,
    p.isCommittable_verdict t request a, fun v => congrArg Prod.fst (p.announce_judged t token hat v),
    fun c v => congrArg Prod.fst (p.announce_settled c t request hat v)⟩
  · intro hz
    have hrun : ran = _ := p.run_of_zero t a hz
    rw [hrun]
    exact ⟨rfl, rfl, rfl, rfl, fun q => q.run_of_zero t a hz⟩
  · intro hz h
    exact congrArg Prod.fst (p.run_of_abandoned t a hz h)
  · intro hz h hc
    exact ⟨_, congrArg Prod.fst (run_of_uncommitting hz h hat hc)⟩
  · intro c e hz h hc hr
    exact Committer.fails_of_commit (p.isCommittable_verdict t request a)
      (committed_of_run hz h hat hc hr)

def reverter : Committer Unit :=
  ⟨⟨fun _ => Ask.pure (.ok ⟨1⟩), fun h => Ask.pure (.ok (some ⟨h, none, some 0⟩))⟩, .v1, 2, 10⟩

def reverting : Pipeline Unit where
  resolver := ⟨fun _ => Ask.pure (.error (.input "no explorer")),
    fun _ => Ask.pure (.error (.input "no node")),
    .answering fun _ _ => Ask.pure (.error (.input "no decompiler"))⟩
  panel :=
    { security := fun _ => Ask.pure (.panicked "lookup broke down")
      slots := []
      sellTaxThreshold := 0
      strictConsensus := false
      timeoutMs := 5 }
  committer := some reverter
  sourceTimeoutMs := 5

theorem reverting_run_fails :
    let request : AuditRequest := ⟨7, ⟨1⟩, 0⟩
    let terms : RunTerms := ⟨none, ⟨2025, 1, 1, 0, 0⟩⟩
    let e : AuditError :=
      .upstream "receiving-contract" 0 s!"verdict transaction {Hash.hex ⟨1⟩} reverted"
    (reverting.run terms request (start 0 () [])).1 = some (.error e) ∧
      reverter.Fails ⟨none, none⟩ (reverting.verdict terms request (start 0 () []))
        (reverting.committing terms request.token (start 0 () [])) e := by
  intro request terms e
  have hrun : (reverting.run terms request (start 0 () [])).1 = some (.error e) := by
    decide +kernel
  obtain ⟨-, -, -, hfails, -⟩ := only_commits_fail reverting terms request 0 () []
  exact ⟨hrun, hfails reverter e (by decide) (fun ⟨_, h, _⟩ => nomatch h) rfl hrun⟩

end Pipeline

end TokenAudit
