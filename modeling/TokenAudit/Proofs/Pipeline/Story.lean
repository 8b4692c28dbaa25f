import TokenAudit.Proofs.Pipeline.Quiet

/-! How far the story of a run has come after each of its steps. The phases of a run are told in one
fixed order, so a run that has stopped anywhere has told a first part of it. -/

namespace TokenAudit

namespace Pipeline

def fullLog : List (Phase × PhaseStatus) :=
  [(.resolveSource, .running), (.resolveSource, .done),
    (.staticAnalysis, .running), (.modelConsensus, .running),
    (.staticAnalysis, .done), (.modelConsensus, .done),
    (.computeRiskCode, .running), (.computeRiskCode, .done),
    (.commitVerdict, .running), (.commitVerdict, .done)]

theorem phaseAllowed_fullLog {n : Nat} {p : Phase} {st : PhaseStatus}
    (h : fullLog[n]? = some (p, st)) :
    Feed.phaseAllowed (statusIn p (fullLog.take n)) st = true := by
  have hall : ∀ n : Fin 10, Feed.phaseAllowed (statusIn (fullLog[n]).1 (fullLog.take n))
      (fullLog[n]).2 = true := by decide
  obtain ⟨hn, he⟩ := List.getElem?_eq_some_iff.mp h
  have := hall ⟨n, hn⟩
  rw [Fin.getElem_fin, he] at this
  exact this

variable {σ : Type}

/-- The audit has told the first steps of the story, and is not at its end. -/
def At (a : Audit σ) (n : Nat) : Prop := a.stream.OpenAt (fullLog.take n)

theorem at_of_empty {a : Audit σ} (ha : a.stream = .empty) : At a 0 := by
  unfold At
  rw [ha]
  exact Stream.OpenAt.empty

theorem At.phase {a : Audit σ} {n : Nat} (h : At a n) {p : Phase} {st : PhaseStatus}
    (hn : fullLog[n]? = some (p, st)) : At (tell a [.phase p st]) (n + 1) := by
  have hnext := Stream.OpenAt.phase h (phaseAllowed_fullLog hn)
  unfold At
  rw [List.take_add_one, hn]
  exact hnext

theorem At.events_phase {a : Audit σ} {n : Nat} (h : At a n) {p : Phase} {st : PhaseStatus}
    (hn : fullLog[n]? = some (p, st)) :
    (tell a [.phase p st]).stream.events = a.stream.events ++ [Feed.phaseEvent p st] :=
  congrArg Stream.events (Stream.OpenAt.call_phase h (phaseAllowed_fullLog hn))

theorem At.quiets {a : Audit σ} {n : Nat} (h : At a n) {cs : List Call}
    (hcs : ∀ c ∈ cs, c.isQuiet = true) : At (tell a cs) n := Stream.OpenAt.quiets h hcs

@[simp] theorem tell_ledger (a : Audit σ) (cs : List Call) : (tell a cs).ledger = a.ledger := rfl

@[simp] theorem tell_commitTrace (a : Audit σ) (cs : List Call) :
    (tell a cs).commitTrace = a.commitTrace := rfl

theorem tell_append (a : Audit σ) (cs ds : List Call) :
    tell a (cs ++ ds) = tell (tell a cs) ds := by
  simp only [tell, Stream.calls_append]

theorem tell_cons (a : Audit σ) (c : Call) (cs : List Call) :
    tell a (c :: cs) = tell (tell a [c]) cs := tell_append a [c] cs

theorem resolveSource_cases (p : Pipeline σ) (t : RunTerms) (token : Address) {a : Audit σ}
    (h : At a 0) :
    (∃ e after, p.resolveSource t token a = (.error e, after) ∧ At after 1) ∨
      ∃ source after, p.resolveSource t token a = (.ok source, after) ∧ At after 2 := by
  have hrunning : At (tell a [.phase .resolveSource .running]) 1 := h.phase rfl
  simp only [resolveSource]
  split
  · exact .inl ⟨_, _, rfl, hrunning⟩
  · exact .inr ⟨_, _, rfl, At.phase hrunning rfl⟩

theorem At.detectors {a : Audit σ} {n : Nat} (h : At a n) {cs : List Call}
    (hcs : ∀ c ∈ cs, c.ofDetector = true) : At (tell a cs) n :=
  h.quiets fun c hc => Call.isQuiet_of_ofDetector (hcs c hc)

theorem at_runPanel (p : Pipeline σ) (token : Address) (source : SourceResult) {a : Audit σ}
    (h : At a 2) : At (p.runPanel token source a).2 6 := by
  obtain ⟨before, after, hcalls, hbefore, hafter⟩ := p.panel.calls_run token source a.state
  have hstart : At (tell (tell a [.phase .staticAnalysis .running])
      [.phase .modelConsensus .running]) 4 := (h.phase rfl).phase rfl
  have hend := (((hstart.detectors hbefore).phase rfl).detectors hafter).phase rfl
  unfold At at hend ⊢
  simp only [runPanel, hcalls, tell_append]
  exact hend

theorem computeVerdict_cases (t : RunTerms) (request : AuditRequest) (found : Aggregation)
    {a : Audit σ} (h : At a 6) :
    (∃ e after, computeVerdict t request found a = (.error e, after) ∧ At after 7) ∨
      ∃ v after, computeVerdict t request found a = (.ok v, after) ∧ At after 8 := by
  have hrunning : At (tell a [.phase .computeRiskCode .running]) 7 := h.phase rfl
  simp only [computeVerdict]
  split
  · exact .inl ⟨_, _, rfl, hrunning⟩
  · exact .inr ⟨_, _, rfl, hrunning.phase rfl⟩

theorem commitVerdict_cases (p : Pipeline σ) (t : RunTerms) (v : RiskVerdict) {a : Audit σ}
    (h : At a 8) :
    (∃ after, p.commitVerdict t v a = (none, after)) ∨
    (∃ e after, p.commitVerdict t v a = (some (.error e), after) ∧ At after 9) ∨
      ∃ after, p.commitVerdict t v a = (some (.ok ()), after) ∧ (At after 8 ∨ At after 10) := by
  unfold commitVerdict
  cases p.committer with
  | none => exact .inr (.inr ⟨a, rfl, .inl h⟩)
  | some c =>
    have hrunning : At (tell a [.phase .commitVerdict .running]) 9 := h.phase rfl
    generalize tell a [.phase .commitVerdict .running] = b at hrunning ⊢
    -- The committer works on a stream of its own run, which is that of the audit.
    have hcommitted := c.openAt_commit ⟨t.cancelAt, none⟩ v
      (r := ⟨⟨b.now, b.commitTrace, b.state⟩, b.ledger, b.stream⟩) hrunning
    dsimp only
    generalize c.commit ⟨t.cancelAt, none⟩ v
      ⟨⟨b.now, b.commitTrace, b.state⟩, b.ledger, b.stream⟩ = ran at hcommitted ⊢
    obtain ⟨result, r⟩ := ran
    have hstream : r.stream.OpenAt (fullLog.take 9) := hcommitted
    rcases result with _ | e | receipt
    · exact .inl ⟨_, rfl⟩
    · exact .inr (.inl ⟨e, _, rfl, hstream⟩)
    · refine .inr (.inr ⟨_, rfl, .inr ?_⟩)
      exact At.phase (a := { b with stream := r.stream }) hstream rfl

theorem announce_eq {v : RiskVerdict} {a : Audit σ} {n : Nat} (h : At a n)
    (he : ∀ p, statusIn p (fullLog.take n) ≠ some .running) :
    (announce v a).1 = .ok v ∧
      (announce v a).2.stream.events = a.stream.events ++ [.finalVerdict v] := by
  obtain ⟨hno, hevents⟩ := Stream.OpenAt.finalVerdict h he v
  unfold announce
  rw [hno]
  exact ⟨rfl, hevents⟩

end Pipeline

end TokenAudit
