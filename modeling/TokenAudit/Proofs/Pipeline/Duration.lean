import TokenAudit.Proofs.Commit.Outcome
import TokenAudit.Proofs.Detector.Duration
import TokenAudit.Proofs.Pipeline.Failure
import TokenAudit.Proofs.Source.Waits

/-! How long a run takes. Whatever the source collaborators and the detectors do, and also when they
never answer, the search and the detectors are over by their time limits, and with a writer that
answers at once the commit adds its rests. -/

namespace TokenAudit

namespace Pipeline

open World (within needed)

variable {σ : Type}

def unlimited (p : Pipeline σ) (t : RunTerms) (token : Address) (a : Audit σ) :
    Decompiler.Ran σ SourceResult :=
  p.resolver.resolve ⟨t.cancelAt, none⟩ token ⟨a.now, a.sourceTrace, a.state⟩

theorem now_search (p : Pipeline σ) (t : RunTerms) (token : Address) (a : Audit σ) :
    (p.search t token a).2.now =
      a.now + within p.sourceTimeoutMs (needed a.now (p.unlimited t token a)) :=
  (p.resolver.regular_resolve token).now_limited t.cancelAt p.sourceTimeoutMs
    ⟨a.now, a.sourceTrace, a.state⟩

theorem search_eq_some_iff (p : Pipeline σ) (t : RunTerms) (token : Address) (a : Audit σ)
    (x : SourceResult) : (p.search t token a).1 = some x ↔
      (p.unlimited t token a).1 = some x ∧
        (p.unlimited t token a).2.now ≤ a.now + p.sourceTimeoutMs :=
  ((p.resolver.regular_resolve token).limited t.cancelAt (a.now + p.sourceTimeoutMs)
    ⟨a.now, a.sourceTrace, a.state⟩ (Nat.le_add_right _ _)).eq_some_iff x

theorem events_judged_done (p : Pipeline σ) (t : RunTerms) (token : Address) {a : Audit σ}
    (ha : At a 0) :
    Feed.phaseEvent .computeRiskCode .done ∈ (p.judged t token a).stream.events := by
  have hsearched : At (p.searched t token a) 1 := ha.phase rfl
  have hpanel := p.at_runPanel token (p.found t token a) (hsearched.phase rfl)
  have hrunning : At (tell (p.runPanel token (p.found t token a)
      (tell (p.searched t token a) [.phase .resolveSource .done])).2
      [.phase .computeRiskCode .running]) 7 := hpanel.phase rfl
  rw [judged_eq, tell_cons, hrunning.events_phase rfl]
  exact List.mem_append_right _ (List.mem_singleton_self _)

section

variable {p : Pipeline σ} {t : RunTerms} {request : AuditRequest} {a : Audit σ}
  (hz : request.token ≠ .zero) (h : ¬p.Abandoned t request.token a) (ha : At a 0)

include hz h ha

theorem run_returns {c : Committer σ} (hc : p.committer = some c) (hp : c.writer.Prompt) :
    (p.run t request a).1 ≠ none ∧
      (p.run t request a).2.now ≤ (p.judged t request.token a).now + c.longest := by
  obtain ⟨result, r, hcommit, hnow⟩ := Committer.commit_returns t.cancelAt
    (p.committing t request.token a) hp (p.isCommittable_verdict t request a)
  have hcommitted : p.committed c t request a = (some result, r) := hcommit
  have hsettled : (p.settled c t request a).now ≤ (p.judged t request.token a).now + c.longest := by
    rw [settled, hcommitted]
    exact hnow
  cases result with
  | error e =>
    rw [run_of_uncommitted hc hz h (congrArg Prod.fst hcommitted)]
    exact ⟨Option.some_ne_none _, hsettled⟩
  | ok receipt =>
    rw [run_of_committed hc hz h ha (congrArg Prod.fst hcommitted)]
    exact ⟨Option.some_ne_none _, hsettled⟩

end

/-- No source collaborator and no detector can hold a run that is not cancelled. It computes a code:
the search for the source is over when the resolver is, or at its time limit, and then the code is
known when the longest of the detectors has ended, each cut off at its time limit. -/
theorem collaborators_cannot_hold (p : Pipeline σ) (t : RunTerms) (request : AuditRequest) (now : Nat)
    (state : σ) (ledger : Ledger) (hz : request.token ≠ .zero)
    (h : ¬p.Abandoned t request.token (start now state ledger)) :
    let token := request.token
    let a := start now state ledger
    let ran := p.run t request a
    let alone := p.unlimited t token a
    let searchEnd := (p.search t token a).2.now
    let asked := (p.search t token a).2.state
    let source := p.found t token a
    let judged := p.judged t token a
    -- A code is computed, and the run goes on with it.
    (p.execute t request a = p.settle t (p.verdict t request a) judged ∧
      Feed.phaseEvent .computeRiskCode .done ∈ judged.stream.events) ∧
    -- The search.
    searchEnd = now + within p.sourceTimeoutMs (needed now alone) ∧
    (∀ x, (p.search t token a).1 = some x ↔
      alone.1 = some x ∧ alone.2.now ≤ now + p.sourceTimeoutMs) ∧
    -- The detectors, whose ends are awaited one after another.
    (∃ duration, judged.now = searchEnd + duration ∧
      IsGreatest {n | ∃ delay ∈ p.panel.delays token source asked,
        within p.panel.timeoutMs delay = n} duration ∧
      (p.panel.noticed token source asked).getLast? = some duration) ∧
    (∀ r, p.panel.Reports token asked r → (p.inspected t token a).aggregation.staticMask =
      Rules.evaluate p.panel.sellTaxThreshold (some r) source) ∧
    (∀ x, x ∈ (p.inspected t token a).aggregation.assessments ↔
      source.isAvailable = true ∧ p.panel.Given token source asked x) ∧
    judged.now ≤ now + p.sourceTimeoutMs + p.panel.timeoutMs ∧
    -- The commit.
    (p.committer = none → ran.1 = some (.ok (p.verdict t request a)) ∧ ran.2.now = judged.now) ∧
    ∀ c, p.committer = some c → c.writer.Prompt → ran.1 ≠ none ∧
      ran.2.now ≤ judged.now +
        (max c.confirmAttempts.toNat 1 - 1) * c.confirmIntervalMs.toNat := by
  intro token a ran alone searchEnd asked source judged
  have hat : At a 0 := Stream.OpenAt.empty
  have hsearchEnd : searchEnd = now + within p.sourceTimeoutMs (needed now alone) :=
    p.now_search t token a
  have hlongest := p.panel.isGreatest_duration token source asked
  have hbound : judged.now ≤ now + p.sourceTimeoutMs + p.panel.timeoutMs := by
    obtain ⟨delay, -, hduration⟩ := hlongest.1
    have hsearch := World.within_le p.sourceTimeoutMs (needed now alone)
    have hpanel := World.within_le p.panel.timeoutMs delay
    have hjudged : judged.now = searchEnd + (p.panel.run token source asked).duration := rfl
    rw [hjudged, ← hduration, hsearchEnd]
    omega
  refine ⟨⟨p.execute_of_not_abandoned t a hz h, p.events_judged_done t token hat⟩, hsearchEnd,
    p.search_eq_some_iff t token a,
    ⟨_, rfl, hlongest, p.panel.last_noticed token source asked⟩,
    (p.panel.staticMask_run token source asked).1, p.panel.mem_assessments_run token source asked,
    hbound, fun hc => ?_, fun c hc hp => run_returns hz h hat hc hp⟩
  have hran : ran = _ := run_of_uncommitting hz h hat hc
  rw [hran]
  exact ⟨rfl, rfl⟩

def stalled : Committer Unit :=
  ⟨⟨fun _ => Ask.pure (.ok ⟨1⟩), fun _ => Ask.pure (.ok none)⟩, .v1, 3, 20⟩

def sluggish : Pipeline Unit where
  resolver := ⟨fun _ s => (⟨some 10, fun s => (.ok (some ⟨"contract", "C"⟩), s)⟩, s),
    fun _ => Ask.pure (.ok ""), .answering fun _ _ => Ask.pure (.ok "")⟩
  panel :=
    { security := fun _ s => (⟨none, fun s => (.timedOut, s)⟩, s)
      slots := [⟨"silent", fun _ _ s => (⟨none, [], fun s => (([], .timedOut), s)⟩, s)⟩,
        ⟨"late", fun _ _ s => (⟨some 5, [], fun s =>
          (([], .answered "\x7b\"logic_bomb\": true\x7d"), s)⟩, s)⟩]
      sellTaxThreshold := 0
      strictConsensus := false
      timeoutMs := 5 }
  committer := some stalled
  sourceTimeoutMs := 10

theorem sluggish_collaborators_cannot_hold :
    let request : AuditRequest := ⟨7, ⟨1⟩, 0⟩
    let t : RunTerms := ⟨none, ⟨2025, 1, 1, 0, 0⟩⟩
    let a := start 100 () []
    let ran := sluggish.run t request a
    (sluggish.judged t request.token a).now = 115 ∧
      (sluggish.inspected t request.token a).aggregation.assessments.length = 1 ∧
      ran.1 ≠ none ∧ ran.2.now ≤ 155 := by
  intro request t a ran
  have hlive : ¬sluggish.Abandoned t request.token a := by
    rintro ⟨instant, hfired, -⟩
    cases hfired
  obtain ⟨-, hsearch, -, ⟨duration, hjudged, -, hlast⟩, -, -, -, -, hcommit⟩ :=
    collaborators_cannot_hold sluggish t request 100 () [] (by decide) hlive
  have hfive : (sluggish.panel.noticed request.token (sluggish.found t request.token a)
      (sluggish.search t request.token a).2.state).getLast? = some 5 := by decide +kernel
  have hduration : duration = 5 := Option.some.inj (hlast.symm.trans hfive)
  obtain ⟨hreturns, hend⟩ := hcommit stalled rfl ⟨fun _ _ => rfl, fun _ _ => rfl⟩
  have hnow : (sluggish.judged t request.token a).now = 115 := by
    have hten : 100 + World.within sluggish.sourceTimeoutMs
        (World.needed 100 (sluggish.unlimited t request.token a)) = 110 := by decide +kernel
    rw [hjudged, hsearch, hduration, hten]
  have hbound : 115 + (max stalled.confirmAttempts.toNat 1 - 1) * stalled.confirmIntervalMs.toNat =
      155 := by
    decide
  rw [hnow, hbound] at hend
  refine ⟨hnow, by decide +kernel, hreturns, ?_⟩
  -- Without its value, so that nothing runs the pipeline to compare the two times.
  generalize ran.2.now = n at hend ⊢
  exact hend

end Pipeline

end TokenAudit
