import TokenAudit.Proofs.Detector.Reading
import TokenAudit.Proofs.Pipeline.Script

/-! The stream of a run explains its verdict: from what it says of the detectors the code can be found
again, and each detector has told of its work within its phase. -/

namespace TokenAudit

/-- The names of models that differ from each other and from that of the security lookup. -/
def Panel.Distinct {σ : Type} (p : Panel σ) : Prop :=
  (Panel.securityName :: p.slots.map Slot.name).Nodup

def Panel.phaseOf (d : String) : Phase :=
  if d = securityName then .staticAnalysis else .modelConsensus

theorem Panel.Distinct.names {σ : Type} {p : Panel σ} (h : p.Distinct) (token : Address)
    (source : SourceResult) (s : σ) : (p.names token source s).Nodup := by
  unfold Panel.names
  rw [p.names_works]
  cases source.isAvailable with
  | true => exact h
  | false => exact List.nodup_singleton _

theorem mem_phaseRecords_of_mem {q : Phase} {st : PhaseStatus} {es : List Event}
    (h : Feed.phaseEvent q st ∈ es) : st ∈ phaseRecords q es :=
  List.mem_filterMap.mpr ⟨_, h, if_pos rfl⟩

theorem filter_of_no_detector {P : Event → Bool} (hP : ∀ {e}, P e = true → e.detector? ≠ none)
    {es : List Event} (hes : ∀ e ∈ es, e.detector? = none) : es.filter P = [] :=
  List.filter_eq_nil_iff.mpr fun e he h => hP h (hes e he)

namespace Pipeline

variable {σ : Type}

section

variable {p : Pipeline σ} {t : RunTerms} {token : Address} {a : Audit σ}
  (hnodup : (p.detectors t token a).Nodup)

theorem filter_around {P : Event → Bool} (hP : ∀ {e}, P e = true → e.detector? ≠ none)
    {rest : List Event} (hrest : ∀ e ∈ rest, e.detector? = none) :
    (opening ++ (p.detection t token a ++ (closing ++ rest))).filter P =
      (p.detection t token a).filter P := by
  have hopening : opening.filter P = [] := filter_of_no_detector hP (by decide)
  have hclosing : closing.filter P = [] := filter_of_no_detector hP (by decide)
  simp only [List.filter_append, hopening, hclosing, filter_of_no_detector hP hrest,
    List.nil_append, List.append_nil]

include hnodup

theorem told_within_phase {rest : List Event} (hrest : ∀ e ∈ rest, e.detector? = none)
    {before after : List Event} {e : Event}
    (hs : opening ++ (p.detection t token a ++ (closing ++ rest)) = before ++ e :: after)
    {d : String} (hd : e.detector? = some d) :
    phaseRecords (Panel.phaseOf d) before = [.running] ∧
      .done ∈ phaseRecords (Panel.phaseOf d) after := by
  have hopening : ∀ e ∈ opening, ¬(e.detector?.isSome = true) := by decide
  have hclosing : ∀ e ∈ closing ++ rest, ¬(e.detector?.isSome = true) := by
    refine List.forall_mem_append.mpr ⟨by decide, fun e he => ?_⟩
    rw [hrest e he]
    exact nofun
  obtain ⟨front, back, hdetection, rfl, rfl⟩ :=
    split_middle hopening hclosing hs (hd ▸ rfl : e.detector?.isSome = true)
  have hlog : phaseLog front ++ phaseLog (e :: back) = [(.staticAnalysis, .done)] := by
    rw [← phaseLog_append, ← hdetection]
    exact p.panel.phaseLog_work _ _ _
  have hphase : e.phase? = none := by
    cases e with
    | phase => cases hd
    | _ => rfl
  have hcons : phaseLog (e :: back) = phaseLog back := List.filterMap_cons_none hphase
  rw [hcons, List.append_eq_singleton_iff] at hlog
  by_cases hname : d = Panel.securityName
  · subst hname
    have hdone := Panel.phase_ends_after hnodup hdetection hd
    have hfront : phaseLog front = [] := by
      obtain ⟨hfront, -⟩ | ⟨-, hback⟩ := hlog
      · exact hfront
      · have hmem := mem_phaseRecords.mp (mem_phaseRecords_of_mem hdone)
        rw [hback] at hmem
        cases hmem
    rw [Panel.phaseOf, if_pos rfl, phaseRecords_append, phaseRecords_eq _ front, hfront]
    exact ⟨rfl, mem_phaseRecords_of_mem (List.mem_append_left _ hdone)⟩
  · have hfront : phaseRecords .modelConsensus front = [] := by
      rw [phaseRecords_eq]
      obtain ⟨hfront, -⟩ | ⟨hfront, -⟩ := hlog
      · rw [hfront]
        rfl
      · rw [hfront]
        rfl
    rw [Panel.phaseOf, if_neg hname, phaseRecords_append, hfront]
    refine ⟨rfl, mem_phaseRecords_of_mem (List.mem_append_right _ (List.mem_append_left _ ?_))⟩
    exact List.mem_cons_self

end

/-- Of every run that returns a verdict, whatever the order in which its detectors work. -/
theorem stream_explains_verdict (p : Pipeline σ) (t : RunTerms) (request : AuditRequest) (now : Nat)
    (state : σ) (ledger : Ledger) (v : RiskVerdict) (hnames : p.panel.Distinct)
    (hfaithful : ∀ slot ∈ p.panel.slots, slot.Faithful)
    (hr : (p.run t request (start now state ledger)).1 = some (.ok v)) :
    let a := start now state ledger
    let events := (p.run t request a).2.stream.events
    let code : RiskMask := ⟨v.score⟩
    (∀ before d family after, events = before ++ .detectorStarted d family :: after →
      family = (if d = Panel.securityName then .fixed else .model) ∧
      ∃ e, after.filter (Event.endsOf d) = [e]) ∧
    (∀ before e d after, events = before ++ e :: after → e.detector? = some d →
      phaseRecords (Panel.phaseOf d) before = [.running] ∧
        .done ∈ phaseRecords (Panel.phaseOf d) after) ∧
    (∀ d bits, .detectorStarted d .model ∈ events → .detectorScore d bits ∈ events →
      ∃ x, Assessment.parse d (String.join (chunksOf d events)) = .ok x ∧ x.mask.bits = bits) ∧
    code.only .model = .combine (modelScores events) p.panel.strictConsensus ∧
    .detectorStarted Panel.securityName .fixed ∈ events ∧
    (∀ bits, .detectorScore Panel.securityName bits ∈ events → code.only .fixed = ⟨bits⟩) ∧
    (∀ message, .detectorError Panel.securityName message ∈ events →
      code.only .fixed =
        Rules.evaluate p.panel.sellTaxThreshold none (p.found t request.token a)) := by
  intro a events code
  obtain ⟨e, after, hrun, -⟩ | ⟨hz, h, -⟩ := p.run_cases t a request
  · rw [hrun] at hr
    cases hr
  have hnodup := hnames.names request.token (p.found t request.token a) (p.asked t request.token a)
  obtain ⟨rest, hevents, hrest⟩ := events_run (p := p) (t := t) hz h (a := a) rfl
  rw [events_judged hnodup rfl, List.append_assoc, List.append_assoc] at hevents
  have hevents : events = _ := hevents
  have hes : ∀ d, detectorRecords d events = detectorRecords d (askedFor (p.panel.work request.token
      (p.found t request.token a) (p.asked t request.token a))) := by
    intro d
    rw [hevents]
    exact filter_around (fun he => by simp [of_decide_eq_true he]) hrest
  have hcode : code = (p.inspected t request.token a).aggregation.mask :=
    congrArg (fun v => RiskMask.mk v.score) (eq_verdict_of_run hr)
  have hfixed := p.panel.only_fixed_run request.token (p.found t request.token a)
    (p.asked t request.token a)
  have hmodel := p.panel.only_model_run request.token (p.found t request.token a)
    (p.asked t request.token a)
  refine ⟨?_, ?_, ?_, ?_, ?_, ?_, ?_⟩
  · intro before d family after hs
    have hmem : .detectorStarted d family ∈ events := by
      rw [hs]
      exact List.mem_append_right _ List.mem_cons_self
    refine ⟨Panel.family_of_started hnodup hes hmem, one_end_after_start hs ?_⟩
    rw [hes]
    exact Panel.records_cases hnodup d
  · intro before e d after hs hd
    rw [hevents] at hs
    exact told_within_phase hnodup hrest hs hd
  · intro d bits hstarted hscore
    obtain ⟨w, hw, rfl⟩ := Panel.model_of_started hnodup hes hstarted
    obtain ⟨x, hx, hbits⟩ := (Panel.score_of_model hnodup hes hw).mp hscore
    exact ⟨x, Panel.parse_chunks hnodup hes hfaithful hw hx, hbits⟩
  · rw [hcode, RiskMask.combine_congr (Panel.mem_modelScores hnodup hes)]
    exact hmodel
  · exact (Panel.mem_of_security hnodup hes rfl).mpr (.inl rfl)
  · intro bits hscore
    obtain ⟨r, hlookup, rfl⟩ := (Panel.score_of_security hnodup hes).mp hscore
    rw [hcode]
    exact hfixed.trans (by rw [hlookup]; rfl)
  · intro message herror
    rw [hcode]
    exact hfixed.trans (by rw [Panel.error_of_security hnodup hes herror])

def talkative : Pipeline Unit where
  resolver := ⟨fun _ => Ask.pure (.ok (some ⟨"contract", "C"⟩)), fun _ => Ask.pure (.ok ""),
    .answering fun _ _ => Ask.pure (.ok "")⟩
  panel :=
    { security := fun _ => Ask.pure (.failed (.input "no such token"))
      slots := [⟨"keen", fun _ _ s => (⟨some 4, [], fun s =>
          ((["\x7b\"logic_bomb\":", " true\x7d"], .answered "\x7b\"logic_bomb\": true\x7d"), s)⟩, s)⟩,
        ⟨"slow", fun _ _ s => (⟨none, ["let me see"], fun s => (([], .timedOut), s)⟩, s)⟩]
      sellTaxThreshold := 0
      strictConsensus := true
      timeoutMs := 5 }
  committer := none
  sourceTimeoutMs := 10

theorem talkative_is_distinct : talkative.panel.Distinct := by
  unfold Panel.Distinct
  decide +kernel

theorem talkative_is_faithful : ∀ slot ∈ talkative.panel.slots, slot.Faithful := by
  refine List.forall_mem_cons.mpr ⟨?_, List.forall_mem_singleton.mpr ?_⟩
  · intro system prompt s u text h
    cases h
    rfl
  · intro system prompt s u text h
    cases h

theorem talkative_stream_explains :
    let request : AuditRequest := ⟨7, ⟨1⟩, 0⟩
    let terms : RunTerms := ⟨none, ⟨2025, 1, 1, 0, 0⟩⟩
    let v : RiskVerdict := .ofMask request terms.decidedAt ⟨0x80⟩
    let events := (talkative.run terms request (start 0 () [])).2.stream.events
    (talkative.run terms request (start 0 () [])).1 = some (.ok v) ∧ modelScores events = [⟨0x80⟩] ∧
      RiskMask.only ⟨v.score⟩ .model =
        .combine (modelScores events) talkative.panel.strictConsensus ∧
      RiskMask.only ⟨v.score⟩ .fixed = Rules.evaluate talkative.panel.sellTaxThreshold none
        (talkative.found terms request.token (start 0 () [])) := by
  intro request terms v events
  have hrun : (talkative.run terms request (start 0 () [])).1 = some (.ok v) := by decide +kernel
  have hscores : modelScores events = [⟨0x80⟩] := by decide +kernel
  have herror :
      .detectorError Panel.securityName (AuditError.input "no such token").message ∈ events := by
    decide +kernel
  obtain ⟨-, -, -, hmodel, -, -, hfixed⟩ := stream_explains_verdict talkative terms request 0 () [] v
    talkative_is_distinct talkative_is_faithful hrun
  exact ⟨hrun, hscores, hmodel, hfixed _ herror⟩

end Pipeline

end TokenAudit
