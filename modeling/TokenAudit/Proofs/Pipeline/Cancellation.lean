import TokenAudit.Proofs.Commit.Clock
import TokenAudit.Proofs.Pipeline.Chain

/-! What a signal does to a run, by the instant at which it fires: the run looks for it after the
search, before the commit, and in each rest of the commit, and nowhere else. -/

namespace TokenAudit

namespace Pipeline

open Committer (submissions Comes)

variable {σ : Type}

/-! ### Submissions -/

theorem commitTrace_of_uncommitting {p : Pipeline σ} (hc : p.committer = none) (t : RunTerms)
    (v : RiskVerdict) (a : Audit σ) : (p.settle t v a).2.commitTrace = a.commitTrace := by
  simp only [settle, commitVerdict, hc, announce]
  split <;> rfl

theorem commitTrace_run (p : Pipeline σ) (t : RunTerms) (request : AuditRequest) (a : Audit σ) :
    (p.run t request a).2.commitTrace = (p.execute t request a).2.commitTrace := by
  unfold run
  split
  · rename_i h
    rw [h]
    rfl
  · rfl

theorem run_submissions (p : Pipeline σ) (t : RunTerms) (request : AuditRequest) {a : Audit σ}
    (ha : At a 0) : ∃ sent,
      submissions (p.run t request a).2.commitTrace = submissions a.commitTrace ++ sent ∧
      ∀ x ∈ sent, (⟨t.cancelAt, none⟩ : Window).isCancelled x.1 = false := by
  obtain ⟨e, after, hrun, hafter⟩ | ⟨hz, h, hexecute⟩ := p.run_cases t a request
  · refine ⟨[], ?_, nofun⟩
    rw [commitTrace_of_failed hrun hafter, List.append_nil]
  · cases hc : p.committer with
    | none =>
      refine ⟨[], ?_, nofun⟩
      rw [commitTrace_run, hexecute, commitTrace_of_uncommitting hc, List.append_nil]
      rfl
    | some c =>
      obtain ⟨result, sent, calls, hsends, -, htrace, -⟩ := run_sends hc hz h ha
      refine ⟨sent, htrace, ?_⟩
      obtain rfl | ⟨rfl, hw⟩ := hsends.sent_cases
      · exact nofun
      · exact List.forall_mem_singleton.mpr hw

/-! ### Instants -/

section

variable {p : Pipeline σ} {request : AuditRequest} {decidedAt : Instant} {instant : Nat}

theorem run_of_early (hz : request.token ≠ .zero) {a : Audit σ} (ha : At a 0)
    (h : instant ≤ (p.search ⟨some instant, decidedAt⟩ request.token a).2.now) :
    let t : RunTerms := ⟨some instant, decidedAt⟩
    let ran := p.run t request a
    ran.1 = some (.error (.cancelled "audit")) ∧ ran.2.ledger = a.ledger ∧
      ran.2.stream.events = a.stream.events ++
        [Feed.phaseEvent .resolveSource .running, Feed.phaseEvent .resolveSource .error,
          .fatalError (AuditError.cancelled "audit").message] ∧
      ∀ panel, { p with panel := panel }.run t request a = ran := by
  intro t ran
  have hrun := p.run_of_abandoned t a hz ⟨instant, rfl, h⟩
  have hsearched : At (p.searched t request.token a) 1 := ha.phase rfl
  have hevents : (p.searched t request.token a).stream.events =
      a.stream.events ++ [Feed.phaseEvent .resolveSource .running] := ha.events_phase rfl
  have hrunning : (p.searched t request.token a).stream.feed.running = [.resolveSource] :=
    hsearched.running_eq.trans (by decide)
  have hfatal := Stream.OpenAt.fatal hsearched (AuditError.cancelled "audit").message
  refine ⟨congrArg Prod.fst hrun, ?_, ?_, fun panel => ?_⟩
  · exact congrArg (fun ran => ran.2.ledger) hrun
  · rw [hrunning, hevents, List.append_assoc, List.append_assoc] at hfatal
    exact (congrArg (fun ran => ran.2.stream.events) hrun).trans hfatal
  · have hpanel := Pipeline.run_of_abandoned { p with panel := panel } t a hz ⟨instant, rfl, h⟩
    exact hpanel.trans hrun.symm

variable {c : Committer σ} (hc : p.committer = some c) (hz : request.token ≠ .zero) {a : Audit σ}

include hc hz

theorem run_of_late (hsearch : (p.search ⟨some instant, decidedAt⟩ request.token a).2.now < instant)
    (h : instant ≤ (p.judged ⟨some instant, decidedAt⟩ request.token a).now) :
    (p.run ⟨some instant, decidedAt⟩ request a).1 = some (.error (.cancelled "verdict commit")) ∧
      (p.run ⟨some instant, decidedAt⟩ request a).2.ledger = a.ledger := by
  have hnot : ¬p.Abandoned ⟨some instant, decidedAt⟩ request.token a := by
    rintro ⟨_, ⟨⟩, hle⟩
    exact Nat.not_lt_of_le hle hsearch
  have hcommit : p.committed c ⟨some instant, decidedAt⟩ request a = _ :=
    c.commit_of_cancelled (p.isCommittable_verdict _ request a) (decide_eq_true h)
  rw [run_of_uncommitted hc hz hnot (congrArg Prod.fst hcommit), tell_ledger, settled, after_ledger,
    hcommit]
  exact ⟨rfl, rfl⟩

theorem run_of_resting {hash : Hash} {b : Budget} {r : Committer.Run σ}
    (hcomes : c.Comes ⟨some instant, none⟩ (p.verdict ⟨some instant, decidedAt⟩ request a)
      (.fresh, p.committing ⟨some instant, decidedAt⟩ request.token a) (.resting hash b, r))
    (hle : r.world.now ≤ instant) (hlt : instant < r.world.now + b.intervalMs.toNat) :
    (p.run ⟨some instant, decidedAt⟩ request a).1 =
        some (.error (.cancelled "verdict confirmation")) ∧
      request.tradeId ∈ (p.run ⟨some instant, decidedAt⟩ request a).2.ledger := by
  obtain ⟨hresult, hreserved, hbefore⟩ := hcomes.commit_of_fired hle hlt
  have hnot : ¬p.Abandoned ⟨some instant, decidedAt⟩ request.token a := by
    rintro ⟨_, ⟨⟩, habandoned⟩
    exact Nat.not_lt_of_le (Nat.le_trans habandoned (Nat.le_add_right _ _)) hbefore
  rw [run_of_uncommitted hc hz hnot hresult, tell_ledger, settled, after_ledger]
  exact ⟨rfl, hreserved⟩

end

/-- At whatever instant the signal fires, nothing is handed over from then on, and the run ends by
the stage that the instant falls into. -/
theorem cancels_safely (p : Pipeline σ) (request : AuditRequest) (decidedAt : Instant)
    (instant now : Nat) (state : σ) (ledger : Ledger) (hz : request.token ≠ .zero) :
    let t : RunTerms := ⟨some instant, decidedAt⟩
    let a := start now state ledger
    let ran := p.run t request a
    let searchEnd := (p.search t request.token a).2.now
    (∀ x ∈ submissions ran.2.commitTrace, x.1 < instant) ∧
    (instant ≤ searchEnd →
      ran.1 = some (.error (.cancelled "audit")) ∧ ran.2.ledger = ledger ∧
      ran.2.stream.events = [Feed.phaseEvent .resolveSource .running,
        Feed.phaseEvent .resolveSource .error,
        .fatalError (AuditError.cancelled "audit").message] ∧
      ∀ panel, { p with panel := panel }.run t request a = ran) ∧
    (∀ c, p.committer = some c → searchEnd < instant →
      instant ≤ (p.judged t request.token a).now →
      ran.1 = some (.error (.cancelled "verdict commit")) ∧ ran.2.ledger = ledger) ∧
    (∀ c hash b r, p.committer = some c →
      c.Comes ⟨some instant, none⟩ (p.verdict t request a)
        (.fresh, p.committing t request.token a) (.resting hash b, r) →
      r.world.now ≤ instant → instant < r.world.now + b.intervalMs.toNat →
      ran.1 = some (.error (.cancelled "verdict confirmation")) ∧
      request.tradeId ∈ ran.2.ledger) := by
  intro t a ran searchEnd
  have hat : At a 0 := Stream.OpenAt.empty
  refine ⟨fun x hx => ?_, fun h => run_of_early hz hat h,
    fun c hc hsearch h => run_of_late hc hz hsearch h,
    fun c hash b r hc hcomes hle hlt => run_of_resting hc hz hcomes hle hlt⟩
  obtain ⟨sent, htrace, hsent⟩ := p.run_submissions t request hat
  rw [htrace] at hx
  exact Nat.lt_of_not_le (of_decide_eq_false (hsent x hx))

def patient : Committer Unit :=
  ⟨⟨fun _ => Ask.pure (.ok ⟨1⟩), fun _ => Ask.pure (.ok none)⟩, .v1, 2, 10⟩

def unconfirmed : Pipeline Unit where
  resolver := ⟨fun _ => Ask.pure (.ok none), fun _ => Ask.pure (.error (.cancelled "")),
    .answering fun _ _ => Ask.pure (.error (.cancelled ""))⟩
  panel :=
    { security := fun _ => Ask.pure .timedOut
      slots := []
      sellTaxThreshold := 0
      strictConsensus := false
      timeoutMs := 5 }
  committer := some patient
  sourceTimeoutMs := 5

theorem unconfirmed_is_cut_off :
    let request : AuditRequest := ⟨7, ⟨1⟩, 0⟩
    let ran := unconfirmed.run ⟨some 5, ⟨2025, 1, 1, 0, 0⟩⟩ request (start 0 () [])
    ran.1 = some (.error (.cancelled "verdict confirmation")) ∧ request.tradeId ∈ ran.2.ledger ∧
      (submissions ran.2.commitTrace).map Prod.fst = [0] := by
  intro request ran
  let t : RunTerms := ⟨some 5, ⟨2025, 1, 1, 0, 0⟩⟩
  let v := unconfirmed.verdict t request (start 0 () [])
  let fresh := unconfirmed.committing t request.token (start 0 () [])
  let reserved : Committer.Run Unit := { fresh with ledger := [7] }
  let named : Committer.Run Unit :=
    ⟨⟨0, [(0, .submitted (patient.calldata v))], ()⟩, [7],
      fresh.stream.calls [.transactionSubmitted (Hash.hex ⟨1⟩)]⟩
  let pending : Committer.Run Unit := { named with world := named.world.record (.lookedUp ⟨1⟩) }
  have hopened : patient.Moves ⟨some 5, none⟩ v (.fresh, fresh) (.submitting, reserved) :=
    .reserved (unconfirmed.isCommittable_verdict t request _) rfl List.not_mem_nil
  have hanswered : patient.Moves ⟨some 5, none⟩ v (.submitting, reserved)
      (.looking ⟨1⟩ ⟨1, 2, 10⟩, named) := .answered reserved (.ok ⟨1⟩) _ rfl
  have hlooked : patient.Moves ⟨some 5, none⟩ v (.looking ⟨1⟩ ⟨1, 2, 10⟩, named)
      (.resting ⟨1⟩ ⟨1, 2, 10⟩, pending) := .looked named ⟨1⟩ _ (.ok none) _ rfl
  obtain ⟨-, -, -, hresting⟩ :=
    cancels_safely unconfirmed request t.decidedAt 5 0 () [] (by decide)
  obtain ⟨hresult, hledger⟩ := hresting patient ⟨1⟩ ⟨1, 2, 10⟩ pending rfl
    (.head hopened (.head hanswered (.single hlooked))) (by decide) (by decide)
  exact ⟨hresult, hledger, by decide +kernel⟩

end Pipeline

end TokenAudit
