import TokenAudit.Proofs.Detector.Lanes
import TokenAudit.Proofs.Pipeline.Failure

/-! All that a run tells until it knows its code, when the names of its detectors differ: every call
is heard, and those of the detectors stand together between the phases around them. -/

namespace TokenAudit

theorem Call.event?_of_ofDetector {c : Call} (h : c.ofDetector = true) :
    ∃ e, c.event? = some e ∧ e.isTerminal = false ∧ e.phase? = none :=
  event?_of_isQuiet (isQuiet_of_ofDetector h)

theorem phaseLog_of_detectors {cs : List Call} (h : ∀ c ∈ cs, c.ofDetector = true) :
    phaseLog (askedFor cs) = [] := by
  refine List.filterMap_eq_nil_iff.mpr fun e he => ?_
  obtain ⟨c, hc, he⟩ := mem_askedFor.mp he
  obtain ⟨e', he', -, hphase⟩ := Call.event?_of_ofDetector (h c hc)
  cases he.symm.trans he'
  exact hphase

namespace Panel

variable {σ : Type} (p : Panel σ) (token : Address) (source : SourceResult) (s : σ)

theorem split_work : ∃ before after,
    p.work token source s = before ++ ([.phase .staticAnalysis .done] ++ after) ∧
      (∀ c ∈ before, c.ofDetector = true) ∧ ∀ c ∈ after, c.ofDetector = true :=
  p.order.split (p.minds_workSecurity token source s) (p.minds_workSlots _ _ _)

theorem phaseLog_work :
    phaseLog (askedFor (p.work token source s)) = [(.staticAnalysis, .done)] := by
  obtain ⟨before, after, hwork, hbefore, hafter⟩ := p.split_work token source s
  rw [hwork, askedFor_append, askedFor_append, phaseLog_append, phaseLog_append,
    phaseLog_of_detectors hbefore, phaseLog_of_detectors hafter]
  rfl

theorem event?_of_mem_work : ∀ c ∈ p.work token source s,
    ∃ e, c.event? = some e ∧ e.isTerminal = false := by
  obtain ⟨before, after, hwork, hbefore, hafter⟩ := p.split_work token source s
  have hown : ∀ c : Call, c.ofDetector = true →
      ∃ e : Event, c.event? = some e ∧ e.isTerminal = false :=
    fun c hc => (Call.event?_of_ofDetector hc).imp fun e he => ⟨he.1, he.2.1⟩
  rw [hwork]
  simp only [List.forall_mem_append, List.forall_mem_singleton]
  exact ⟨fun c hc => hown c (hbefore c hc), ⟨_, rfl, rfl⟩, fun c hc => hown c (hafter c hc)⟩

end Panel

namespace Pipeline

variable {σ : Type}

def opening : List Event :=
  [Feed.phaseEvent .resolveSource .running, Feed.phaseEvent .resolveSource .done,
    Feed.phaseEvent .staticAnalysis .running, Feed.phaseEvent .modelConsensus .running]

def closing : List Event :=
  [Feed.phaseEvent .modelConsensus .done, Feed.phaseEvent .computeRiskCode .running,
    Feed.phaseEvent .computeRiskCode .done]

section

variable (p : Pipeline σ) (t : RunTerms) (token : Address) (a : Audit σ)

def asked : σ := (p.search t token a).2.state

def detection : List Event := askedFor (p.panel.work token (p.found t token a) (p.asked t token a))

def detectors : List String := p.panel.names token (p.found t token a) (p.asked t token a)

def script : List Call := .phase .resolveSource .running :: p.judgement t token a

theorem askedFor_script :
    askedFor (p.script t token a) = opening ++ (p.detection t token a ++ closing) := by
  unfold script judgement inspected
  rw [Panel.calls_run_eq, ← List.singleton_append]
  simp only [askedFor_append, detection, List.append_assoc]
  rfl

theorem stream_judged (ha : a.stream = .empty) :
    (p.judged t token a).stream = Stream.empty.calls (p.script t token a) := by
  rw [← ha]
  rfl

theorem phaseLog_script : phaseLog (askedFor (p.script t token a)) = fullLog.take 8 := by
  rw [askedFor_script, phaseLog_append, phaseLog_append, detection, Panel.phaseLog_work]
  rfl

theorem event?_of_mem_script : ∀ c ∈ p.script t token a,
    ∃ e, c.event? = some e ∧ e.isTerminal = false := by
  have hphase : ∀ q st, ∃ e, (Call.phase q st).event? = some e ∧ e.isTerminal = false :=
    fun q st => ⟨_, rfl, rfl⟩
  have hwork := p.panel.event?_of_mem_work token (p.found t token a) (p.asked t token a)
  unfold script judgement inspected
  rw [Panel.calls_run_eq]
  simp only [List.forall_mem_cons, List.forall_mem_append, hphase, true_and]
  exact ⟨⟨nofun, ⟨nofun, hwork⟩, nofun⟩, nofun⟩

theorem detectorRecords_script (d : String) :
    detectorRecords d (askedFor (p.script t token a)) = detectorRecords d (p.detection t token a) := by
  rw [askedFor_script, detectorRecords_append, detectorRecords_append]
  exact List.append_nil _

section

variable {p t token a} (hnodup : (p.detectors t token a).Nodup)

include hnodup

theorem grammar_script : Grammar (askedFor (p.script t token a)) where
  phases q := by
    rw [phaseRecords_eq, phaseLog_script]
    refine ⟨_, .ended .done rfl, ?_⟩
    cases q <;> decide
  detectors d := by
    rw [detectorRecords_script]
    obtain hnone | hword := Panel.records_cases hnodup d
    · exact ⟨_, .concluded .fixed [] _ .silent (.score 0), hnone ▸ List.nil_prefix⟩
    · exact ⟨_, hword, List.prefix_rfl⟩
  terminal before e after hs he := by
    have hmem : e ∈ askedFor (p.script t token a) := by
      rw [hs]
      exact List.mem_append_right _ List.mem_cons_self
    obtain ⟨c, hc, hevent⟩ := mem_askedFor.mp hmem
    obtain ⟨e', hevent', hopen⟩ := p.event?_of_mem_script t token a c hc
    cases hevent.symm.trans hevent'
    rw [he] at hopen
    cases hopen

theorem events_judged (ha : a.stream = .empty) : (p.judged t token a).stream.events =
    opening ++ (p.detection t token a ++ closing) := by
  rw [stream_judged p t token a ha, Stream.sound_empty.calls_heard rfl
    (p.event?_of_mem_script t token a) (grammar_script hnodup), ← askedFor_script]
  rfl

end

end

theorem events_run {p : Pipeline σ} {t : RunTerms} {request : AuditRequest} {a : Audit σ}
    (hz : request.token ≠ .zero) (h : ¬p.Abandoned t request.token a) (ha : a.stream = .empty) :
    ∃ rest, (p.run t request a).2.stream.events =
        (p.judged t request.token a).stream.events ++ rest ∧ ∀ e ∈ rest, e.detector? = none := by
  have hat := at_of_empty ha
  cases hc : p.committer with
  | none =>
    rw [run_of_uncommitting hz h hat hc]
    have hannounce := announce_eq (v := p.verdict t request a)
      (p.at_judged t request.token hat) fun q => by cases q <;> decide
    rw [p.announce_judged t request.token hat] at hannounce
    exact ⟨_, hannounce.2, List.forall_mem_singleton.mpr rfl⟩
  | some c =>
    obtain ⟨result, sent, calls, hsends, -, -, hevents⟩ := run_sends hc hz h hat
    refine ⟨_, hevents, List.forall_mem_cons.mpr ⟨rfl, List.forall_mem_append.mpr ⟨?_, ?_⟩⟩⟩
    · intro e he
      have ht := hsends.isTransaction_event e he
      cases e with
      | transactionSubmitted | transactionConfirmed => rfl
      | _ => cases ht
    · rcases result with _ | _ | _ <;> simp [ending, Feed.phaseEvent, Event.detector?]

end Pipeline

end TokenAudit
