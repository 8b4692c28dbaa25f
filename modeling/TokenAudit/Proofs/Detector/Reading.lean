import TokenAudit.Proofs.Detector.Lanes

/-! What can be read off a stream about its detectors: which of them started, what they handed on, and
how they ended, when their names differ and all that they tell is heard. -/

namespace TokenAudit

def Event.endsOf (d : String) : Event → Bool
  | .detectorScore d' _ => d' = d
  | .detectorError d' _ => d' = d
  | _ => false

def Event.chunkOf? (d : String) : Event → Option String
  | .reasoningChunk d' text => if d' = d then some text else none
  | _ => none

def chunksOf (d : String) (es : List Event) : List String := es.filterMap (Event.chunkOf? d)

def modelScores (es : List Event) : List RiskMask :=
  es.filterMap fun
    | .detectorScore d bits => if .detectorStarted d .model ∈ es then some ⟨bits⟩ else none
    | _ => none

theorem chunksOf_records (d : String) (es : List Event) :
    chunksOf d es = chunksOf d (detectorRecords d es) := by
  unfold chunksOf detectorRecords
  rw [List.filterMap_filter]
  congr 1
  funext e
  cases e with
  | reasoningChunk d' text => simp [Event.chunkOf?, Event.detector?]
  | _ => simp [Event.chunkOf?]

theorem filter_endsOf_records (d : String) (es : List Event) :
    es.filter (Event.endsOf d) = (detectorRecords d es).filter (Event.endsOf d) := by
  unfold detectorRecords
  rw [List.filter_filter]
  apply List.filter_congr
  intro e _
  cases e <;> simp [Event.endsOf, Event.detector?]

theorem Concludes.endsOf {d : String} {e : Event} (h : Concludes d e) : e.endsOf d = true := by
  cases h <;> exact decide_eq_true rfl

theorem Reasoning.not_endsOf {d : String} {r : List Event} (h : Reasoning d r) :
    ∀ e ∈ r, e.endsOf d = false ∧ ∀ family, e ≠ .detectorStarted d family := by
  cases h with
  | silent => exact nofun
  | opened texts => simp [Event.endsOf]

theorem one_end_after_start {d : String} {family : Family} {es before after : List Event}
    (hs : es = before ++ .detectorStarted d family :: after)
    (h : detectorRecords d es = [] ∨ DetectorWord d (detectorRecords d es)) :
    ∃ e, after.filter (Event.endsOf d) = [e] := by
  have hrecords : detectorRecords d es =
      detectorRecords d before ++ .detectorStarted d family :: detectorRecords d after := by
    rw [hs, detectorRecords_append]
    exact congrArg _ (List.filter_cons_of_pos (decide_eq_true rfl))
  rw [hrecords] at h
  obtain h | h := h
  · exact absurd h (by simp)
  generalize hfront : detectorRecords d before = front at h
  generalize hw : front ++ .detectorStarted d family :: detectorRecords d after = w at h
  obtain ⟨family', r, e, hr, he⟩ := h
  cases front with
  | nil =>
    obtain ⟨-, hback⟩ := List.cons.inj hw
    have hreasoned : r.filter (Event.endsOf d) = [] :=
      List.filter_eq_nil_iff.mpr fun x hx => by simp [(hr.not_endsOf x hx).1]
    refine ⟨e, ?_⟩
    rw [filter_endsOf_records, hback, List.filter_append, hreasoned, List.nil_append,
      List.filter_cons_of_pos he.endsOf, List.filter_nil]
  | cons x front =>
    -- Past its first record a full sequence does not start again.
    obtain ⟨-, hback⟩ := List.cons.inj hw
    have hmem : .detectorStarted d family ∈ r ++ [e] := by
      rw [← hback]
      exact List.mem_append_right _ List.mem_cons_self
    rcases List.mem_append.mp hmem with hmem | hmem
    · exact absurd rfl ((hr.not_endsOf _ hmem).2 family)
    · cases List.mem_singleton.mp hmem
      cases he

namespace Panel

variable {σ : Type} {p : Panel σ} {token : Address} {source : SourceResult} {s : σ} {es : List Event}

theorem chunksOf_tells {timeoutMs : Nat} {w : Worked Assessment} {texts : List String}
    (h : Tells timeoutMs w texts) : chunksOf w.name (told w) = texts := by
  have hend : (modelEnd timeoutMs w).chunkOf? w.name = none := by
    unfold modelEnd
    cases w.outcome <;> rfl
  have htexts :
      (texts.map (Event.reasoningChunk w.name)).filterMap (Event.chunkOf? w.name) = texts := by
    rw [List.filterMap_map]
    simp [Event.chunkOf?, Function.comp_def]
  rw [h, chunksOf, List.filterMap_cons_none rfl, List.filterMap_cons_none rfl, List.filterMap_append,
    htexts, List.filterMap_cons_none hend, List.filterMap_nil, List.append_nil]

theorem mem_of_tells {timeoutMs : Nat} {w : Worked Assessment} {texts : List String}
    (h : Tells timeoutMs w texts) {e : Event} : e ∈ told w ↔
      e = .detectorStarted w.name .model ∨ e = .reasoningStart w.name ∨
        (∃ text ∈ texts, .reasoningChunk w.name text = e) ∨ e = modelEnd timeoutMs w := by
  rw [h]
  simp only [List.mem_cons, List.mem_append, List.mem_map, List.not_mem_nil, or_false]

theorem conclusion_eq_score {α : Type} {name : String} {timeoutMs : Nat} {score : α → UInt8}
    {o : Outcome α} {bits : UInt8} :
    conclusion name timeoutMs score o = .detectorScore name bits ↔
      ∃ x, o = .answered x ∧ score x = bits := by
  cases o <;> simp [conclusion]

theorem conclusion_ne_started {α : Type} {name d : String} {timeoutMs : Nat} {score : α → UInt8}
    {o : Outcome α} {family : Family} :
    conclusion name timeoutMs score o ≠ .detectorStarted d family := by
  cases o <;> exact nofun

theorem conclusion_eq_error {α : Type} {name message : String} {timeoutMs : Nat}
    {score : α → UInt8} {o : Outcome α}
    (h : conclusion name timeoutMs score o = .detectorError name message) : o.answer? = none := by
  cases o with
  | answered => cases h
  | _ => rfl

theorem mem_assessed {x : Assessment} : x ∈ assessed (p.answers token source s) ↔
    ∃ w ∈ p.works token source s, w.outcome = .answered x := by
  unfold assessed answers
  rw [List.filterMap_map, List.mem_filterMap]
  exact exists_congr fun w => and_congr_right fun _ => answer?_eq_some

section

variable (hnodup : (p.names token source s).Nodup)
  (hes : ∀ d, detectorRecords d es = detectorRecords d (askedFor (p.work token source s)))

include hes

theorem worker_of_mem {e : Event} {d : String} (he : e ∈ es) (hd : e.detector? = some d) :
    d = securityName ∨ ∃ w ∈ p.works token source s, w.name = d := by
  have hmem := mem_detectorRecords.mpr ⟨he, hd⟩
  rw [hes, mem_detectorRecords] at hmem
  have howner := p.owner_mem_names token source s hmem.1
  rw [owner_of_detector? hd] at howner
  exact (List.mem_cons.mp howner).imp_right List.mem_map.mp

include hnodup

theorem mem_of_security {e : Event} (hd : e.detector? = some securityName) :
    e ∈ es ↔ e = .detectorStarted securityName .fixed ∨ e = p.securityEnd token source s := by
  have hmem : e ∈ detectorRecords securityName es ↔ e ∈ es ∧ e.detector? = some securityName :=
    mem_detectorRecords
  rw [hes, records_security hnodup] at hmem
  simpa [hd] using hmem.symm

theorem mem_of_model {w : Worked Assessment} (hw : w ∈ p.works token source s) {e : Event}
    (hd : e.detector? = some w.name) : e ∈ es ↔ e ∈ told w := by
  have hmem : e ∈ detectorRecords w.name es ↔ e ∈ es ∧ e.detector? = some w.name :=
    mem_detectorRecords
  rw [hes, records_model hnodup hw] at hmem
  simpa [hd] using hmem.symm

theorem family_of_started {d : String} {family : Family} (h : .detectorStarted d family ∈ es) :
    family = if d = securityName then .fixed else .model := by
  by_cases hd : d = securityName
  · subst hd
    rw [if_pos rfl]
    obtain h | h := (mem_of_security hnodup hes rfl).mp h
    · cases h
      rfl
    · exact absurd h.symm conclusion_ne_started
  · rw [if_neg hd]
    obtain ⟨w, hw, rfl⟩ := (worker_of_mem hes h rfl).resolve_left hd
    obtain ⟨texts, htells, -⟩ := p.tells_works token source s w hw
    obtain h | h | ⟨text, -, h⟩ | h := (mem_of_tells htells).mp ((mem_of_model hnodup hes hw rfl).mp h)
    · cases h
      rfl
    · cases h
    · cases h
    · exact absurd h.symm conclusion_ne_started

theorem model_of_started {d : String} (h : .detectorStarted d .model ∈ es) :
    ∃ w ∈ p.works token source s, w.name = d := by
  refine (worker_of_mem hes h rfl).resolve_left fun hd => ?_
  have hfamily := family_of_started hnodup hes h
  rw [if_pos hd] at hfamily
  cases hfamily

theorem started_model {w : Worked Assessment} (hw : w ∈ p.works token source s) :
    .detectorStarted w.name .model ∈ es := by
  obtain ⟨texts, htells, -⟩ := p.tells_works token source s w hw
  exact (mem_of_model hnodup hes hw rfl).mpr ((mem_of_tells htells).mpr (.inl rfl))

theorem score_of_model {w : Worked Assessment} (hw : w ∈ p.works token source s) {bits : UInt8} :
    .detectorScore w.name bits ∈ es ↔ ∃ x, w.outcome = .answered x ∧ x.mask.bits = bits := by
  obtain ⟨texts, htells, -⟩ := p.tells_works token source s w hw
  rw [mem_of_model hnodup hes hw rfl, mem_of_tells htells, eq_comm (b := modelEnd p.timeoutMs w),
    modelEnd, conclusion_eq_score]
  simp

theorem parse_chunks (hf : ∀ slot ∈ p.slots, slot.Faithful) {w : Worked Assessment}
    (hw : w ∈ p.works token source s) {x : Assessment} (hx : w.outcome = .answered x) :
    Assessment.parse w.name (String.join (chunksOf w.name es)) = .ok x := by
  obtain ⟨texts, htells, hparse⟩ := p.tells_works token source s w hw
  rw [chunksOf_records, hes, records_model hnodup hw, chunksOf_tells htells]
  exact hparse hf x hx

theorem mem_modelScores (m : RiskMask) :
    m ∈ modelScores es ↔ m ∈ (assessed (p.answers token source s)).map Assessment.mask := by
  rw [List.mem_map, modelScores, List.mem_filterMap]
  constructor
  · rintro ⟨e, he, hm⟩
    cases e with
    | detectorScore d bits =>
      simp only [Option.ite_none_right_eq_some] at hm
      obtain ⟨hstarted, hm⟩ := hm
      obtain ⟨w, hw, rfl⟩ := model_of_started hnodup hes hstarted
      obtain ⟨x, hx, rfl⟩ := (score_of_model hnodup hes hw).mp he
      exact ⟨x, mem_assessed.mpr ⟨w, hw, hx⟩, Option.some.inj hm⟩
    | _ => cases hm
  · rintro ⟨x, hx, rfl⟩
    obtain ⟨w, hw, hx⟩ := mem_assessed.mp hx
    exact ⟨_, (score_of_model hnodup hes hw).mpr ⟨x, hx, rfl⟩, if_pos (started_model hnodup hes hw)⟩

theorem score_of_security {bits : UInt8} : .detectorScore securityName bits ∈ es ↔
    ∃ r, p.lookup token source s = .answered r ∧
      (Rules.evaluate p.sellTaxThreshold (some r) source).bits = bits := by
  rw [mem_of_security hnodup hes rfl, eq_comm (b := p.securityEnd token source s), securityEnd,
    conclusion_eq_score]
  simp

theorem error_of_security {message : String} (h : .detectorError securityName message ∈ es) :
    (p.lookup token source s).answer? = none := by
  obtain h | h := (mem_of_security hnodup hes rfl).mp h
  · cases h
  · exact conclusion_eq_error h.symm

end

theorem phase_ends_after (hnodup : (p.names token source s).Nodup) {front back : List Event}
    {e : Event} (h : askedFor (p.work token source s) = front ++ e :: back)
    (he : e.detector? = some securityName) : Feed.phaseEvent .staticAnalysis .done ∈ back := by
  have hlane := lane_security hnodup
  rw [h, List.filter_append, List.filter_cons_of_pos
    (p := fun e => decide (owner e = securityName)) (decide_eq_true (owner_of_detector? he))] at hlane
  have hne : e ≠ Feed.phaseEvent .staticAnalysis .done := by
    rintro rfl
    cases he
  exact List.mem_of_mem_filter
    (mem_of_split_concat (l := [_, p.securityEnd token source s]) hlane.symm hne)

/-! ### What was decided -/

theorem contains_evaluate_of_model (threshold : Float) (report : Option SecurityReport)
    (source : SourceResult) {b : RiskBit} (hb : b.family ≠ .fixed) :
    (Rules.evaluate threshold report source).contains b = false := by
  rw [Rules.contains_evaluate]
  cases b with
  | unverifiedCode | sellRestriction | knownHoneypot | upgradeableProxy => exact absurd rfl hb
  | _ => rfl

theorem only_fixed_run (p : Panel σ) (token : Address) (source : SourceResult) (s : σ) :
    (p.run token source s).aggregation.mask.only .fixed =
      Rules.evaluate p.sellTaxThreshold (p.lookup token source s).answer? source := by
  refine RiskMask.ext_contains fun b => ?_
  rw [RiskMask.contains_only]
  by_cases hb : b.family = .fixed
  · rw [p.contains_run_of_fixed token source s hb]
    simp [hb, lookup]
  · simp [hb, contains_evaluate_of_model _ _ _ hb]

theorem only_model_run (p : Panel σ) (token : Address) (source : SourceResult) (s : σ) :
    (p.run token source s).aggregation.mask.only .model =
      .combine ((assessed (p.answers token source s)).map Assessment.mask) p.strictConsensus := by
  refine RiskMask.ext_contains fun b => ?_
  have hmask : (p.run token source s).aggregation.mask.contains b = _ := contains_aggregate
    p.sellTaxThreshold p.strictConsensus source (p.lookup token source s) (p.answers token source s) b
  rw [RiskMask.contains_only, hmask]
  by_cases hb : b.family = .model
  · simp only [hb, reduceCtorEq, if_false, decide_true, Bool.and_true]
    rfl
  · have hnone : (RiskMask.combine ((assessed (p.answers token source s)).map Assessment.mask)
        p.strictConsensus).contains b = false :=
      Bool.eq_false_iff.mpr fun h => hb ((RiskMask.contains_combine ..).mp h).1
    simp only [hb, hnone, decide_false, Bool.and_false]

end Panel

end TokenAudit
