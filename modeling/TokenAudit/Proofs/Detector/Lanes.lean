import TokenAudit.Proofs.Detector.Calls
import TokenAudit.Proofs.Detector.Independence
import TokenAudit.Proofs.Stream.Heard

/-! What each detector tells of its own work. However the detectors are interleaved, as long as their
names differ the records of one of them are those that it would leave alone, in the same order. -/

namespace TokenAudit

/-- The texts of a model are put together from what it hands on. -/
def Slot.Faithful {σ : Type} (slot : Slot σ) : Prop :=
  ∀ system prompt s u text, ((slot.ask system prompt s).1.draw u).1.2 = .answered text →
    String.join ((slot.ask system prompt s).1.draw u).1.1 = text

theorem askedFor_cons (c : Call) (cs : List Call) :
    askedFor (c :: cs) = c.event?.toList ++ askedFor cs := by
  cases h : c.event? <;> simp [askedFor, h]

namespace Panel

variable {σ α : Type}

/-! ### Tasks that tell of different things -/

def Task.told (t : Task) : List Event := askedFor (t.own ++ t.noticed)

theorem Interleaved.told_perm {ts : List Task} {cs : List Call} (h : Interleaved ts cs) :
    (askedFor cs).Perm (ts.flatMap Task.told) := by
  have hperm := h.perm.filterMap Call.event?
  rw [List.filterMap_flatMap] at hperm
  exact hperm

def Free (P : Event → Bool) (t : Task) : Prop := t.told.filter P = []

/-- At most one of the tasks tells of a kind of things. -/
def Apart (P : Event → Bool) (ts : List Task) : Prop := ts.Pairwise fun t u => Free P t ∨ Free P u

theorem apart_middle {P : Event → Bool} (before : List Task) {after : List Task} {t : Task} :
    Apart P (before ++ t :: after) ↔
      (∀ u ∈ before ++ after, Free P t ∨ Free P u) ∧ Apart P (before ++ after) := by
  unfold Apart
  rw [List.pairwise_middle Or.symm, List.pairwise_cons]

theorem flatMap_of_free {P : Event → Bool} {ts : List Task} (h : ∀ t ∈ ts, Free P t) :
    (ts.flatMap fun t => t.told.filter P) = [] := List.flatMap_eq_nil_iff.mpr h

theorem Apart.told_first {P : Event → Bool} (before : List Task) {after : List Task} {t u : Task}
    {es : List Event} (ha : Apart P (before ++ t :: after)) (htold : t.told = es ++ u.told) :
    Apart P (before ++ u :: after) ∧
      ((before ++ t :: after).flatMap fun t => t.told.filter P) =
        es.filter P ++ (before ++ u :: after).flatMap fun t => t.told.filter P := by
  obtain ⟨hmid, hrest⟩ := (apart_middle before).mp ha
  have hsplit : t.told.filter P = es.filter P ++ u.told.filter P := by
    rw [htold, List.filter_append]
  have hless : Free P t → es.filter P = [] ∧ Free P u := by
    unfold Free
    rw [hsplit]
    exact List.append_eq_nil_iff.mp
  have hmid' : ∀ v ∈ before ++ after, Free P u ∨ Free P v :=
    fun v hv => (hmid v hv).imp_left fun h => (hless h).2
  refine ⟨(apart_middle before).mpr ⟨hmid', hrest⟩, ?_⟩
  rw [List.flatMap_append, List.flatMap_append, List.flatMap_cons, List.flatMap_cons, hsplit]
  -- A task that tells of such a thing now has none before it that could.
  by_cases hes : es.filter P = []
  · rw [hes, List.nil_append, List.nil_append]
  · have hbefore : ∀ v ∈ before, Free P v := fun v hv =>
      (hmid v (List.mem_append_left _ hv)).resolve_left fun h => hes (hless h).1
    rw [flatMap_of_free hbefore, List.nil_append, List.nil_append, List.append_assoc]

theorem Interleaved.told_of_apart {P : Event → Bool} {ts : List Task} {cs : List Call}
    (h : Interleaved ts cs) (ha : Apart P ts) :
    (askedFor cs).filter P = ts.flatMap fun t => t.told.filter P := by
  -- Call by call: what is left of the tasks is still apart, so `Apart` goes along the induction.
  induction h with
  | nil => rfl
  | call before c own noticed after h ih =>
    obtain ⟨hapart, htold⟩ := ha.told_first before (u := ⟨own, noticed⟩) (askedFor_cons c _)
    rw [askedFor_cons, List.filter_append, ih hapart, htold]
  | notice c noticed after h ih =>
    obtain ⟨hapart, htold⟩ := ha.told_first [] (u := ⟨[], noticed⟩) (askedFor_cons c _)
    rw [askedFor_cons, List.filter_append, ih hapart]
    exact htold.symm
  | next h ih =>
    rw [List.flatMap_cons]
    exact ih ((apart_middle []).mp ha).2

/-- Whose record it is; what is no detector's is the security lookup's, whose end closes a phase. -/
def owner (e : Event) : String := e.detector?.getD securityName

theorem free_of_ne {t : Task} {name d : String} (h : ∀ e ∈ t.told, owner e = name) (hne : name ≠ d) :
    Free (owner · = d) t :=
  List.filter_eq_nil_iff.mpr fun e he => by simp [h e he, hne]

section

variable {xs : List (String × Task)} (howner : ∀ x ∈ xs, ∀ e ∈ x.2.told, owner e = x.1)

include howner

theorem apart_of_owners (hnodup : (xs.map Prod.fst).Nodup) (d : String) :
    Apart (owner · = d) (xs.map Prod.snd) := by
  refine List.pairwise_map.mpr ((List.pairwise_map.mp hnodup).imp_of_mem ?_)
  intro x y hx hy hne
  by_cases hd : x.1 = d
  · exact .inr (free_of_ne (howner y hy) fun h => hne (hd.trans h.symm))
  · exact .inl (free_of_ne (howner x hx) hd)

theorem flatMap_lane (hnodup : (xs.map Prod.fst).Nodup) {x : String × Task} (hx : x ∈ xs) :
    ((xs.map Prod.snd).flatMap fun t => t.told.filter (owner · = x.1)) = x.2.told := by
  obtain ⟨before, after, rfl⟩ := List.append_of_mem hx
  rw [List.map_append, List.map_cons, List.nodup_middle, List.nodup_cons, ← List.map_append] at hnodup
  have hfree : ∀ y ∈ before ++ after, Free (owner · = x.1) y.2 := fun y hy =>
    have hmem := ((List.Sublist.refl before).append (List.sublist_cons_self x after)).subset hy
    free_of_ne (howner y hmem) fun h => hnodup.1 (h ▸ List.mem_map_of_mem hy)
  have hself : x.2.told.filter (owner · = x.1) = x.2.told :=
    List.filter_eq_self.mpr fun e he => decide_eq_true (howner x hx e he)
  obtain ⟨hbefore, hafter⟩ := List.forall_mem_append.mp hfree
  rw [List.map_append, List.map_cons, List.flatMap_append, List.flatMap_cons, hself,
    flatMap_of_free (List.forall_mem_map.mpr hbefore),
    flatMap_of_free (List.forall_mem_map.mpr hafter), List.nil_append, List.append_nil]

theorem Interleaved.lane {cs : List Call} (h : Interleaved (xs.map Prod.snd) cs)
    (hnodup : (xs.map Prod.fst).Nodup) {x : String × Task} (hx : x ∈ xs) :
    (askedFor cs).filter (owner · = x.1) = x.2.told := by
  rw [h.told_of_apart (apart_of_owners howner hnodup x.1), flatMap_lane howner hnodup hx]

end

/-! ### What one detector tells -/

def conclusion (name : String) (timeoutMs : Nat) (score : α → UInt8) : Outcome α → Event
  | .answered x => .detectorScore name (score x)
  | .failed e => .detectorError name e.message
  | .timedOut => .detectorError name (timeoutMessage timeoutMs)
  | .panicked report => .detectorError name report

def told (w : Worked α) : List Event := askedFor (w.opening ++ w.closing ++ breakdownCalls w)

theorem askedFor_end (w : Worked α) (timeoutMs : Nat) (score : α → UInt8) :
    askedFor (lastCalls w.name timeoutMs score w.outcome) ++ askedFor (breakdownCalls w) =
      [conclusion w.name timeoutMs score w.outcome] := by
  unfold breakdownCalls
  cases w.outcome <;> rfl

theorem concludes_conclusion (name : String) (timeoutMs : Nat) (score : α → UInt8) (o : Outcome α) :
    Concludes name (conclusion name timeoutMs score o) := by
  cases o with
  | answered => exact .score _
  | failed | timedOut | panicked => exact .error _

theorem detector?_conclusion (name : String) (timeoutMs : Nat) (score : α → UInt8) (o : Outcome α) :
    (conclusion name timeoutMs score o).detector? = some name := by
  cases o <;> rfl

section

variable (p : Panel σ) (token : Address) (source : SourceResult) (s : σ)

def securityEnd : Event :=
  conclusion securityName p.timeoutMs
    (fun r => (Rules.evaluate p.sellTaxThreshold (some r) source).bits) (p.lookup token source s)

theorem told_workSecurity : told (p.workSecurity token source s).1 =
    [.detectorStarted securityName .fixed, p.securityEnd token source s] := by
  have hend := askedFor_end (p.workSecurity token source s).1 p.timeoutMs
    fun r => (Rules.evaluate p.sellTaxThreshold (some r) source).bits
  unfold told
  rw [List.append_assoc, askedFor_append, askedFor_append]
  exact congrArg (_ :: ·) hend

end

def modelEnd (timeoutMs : Nat) (w : Worked Assessment) : Event :=
  conclusion w.name timeoutMs (fun x => x.mask.bits) w.outcome

def reply (p : Panel σ) (input : DetectorInput) (slot : Slot σ) (s : σ) :
    List String × Outcome String :=
  let (reply, s) := slot.ask systemPrompt input.prompt s
  if (endOf p.timeoutMs reply.delay).2 then (reply.draw s).1 else (reply.cut, .timedOut)

theorem outcome_workSlot (p : Panel σ) (input : DetectorInput) (slot : Slot σ) (s : σ) :
    (p.workSlot input slot s).1.outcome =
      (p.reply input slot s).2.bind (Assessment.parse slot.name) := by
  unfold reply workSlot
  dsimp only
  split
  · rfl
  · rfl

theorem closing_workSlot (p : Panel σ) (input : DetectorInput) (slot : Slot σ) (s : σ) :
    let w := (p.workSlot input slot s).1
    w.closing = (p.reply input slot s).1.map (.reasoningChunk w.name) ++
      lastCalls w.name p.timeoutMs (fun x => x.mask.bits) w.outcome := by
  unfold reply workSlot
  dsimp only
  split
  · rfl
  · rfl

theorem askedFor_chunks (name : String) (texts : List String) :
    askedFor (texts.map (.reasoningChunk name)) = texts.map (.reasoningChunk name) := by
  induction texts with
  | nil => rfl
  | cons text texts ih => exact congrArg (_ :: ·) ih

/-- A model tells that it starts, that it reasons and what, and how it ends. -/
def Tells (timeoutMs : Nat) (w : Worked Assessment) (texts : List String) : Prop :=
  told w = .detectorStarted w.name .model :: .reasoningStart w.name ::
    (texts.map (.reasoningChunk w.name) ++ [modelEnd timeoutMs w])

theorem tells_workSlot (p : Panel σ) (input : DetectorInput) (slot : Slot σ) (s : σ) :
    Tells p.timeoutMs (p.workSlot input slot s).1 (p.reply input slot s).1 := by
  unfold Tells told
  rw [p.closing_workSlot, askedFor_append, askedFor_append, askedFor_append, askedFor_chunks,
    List.append_assoc, List.append_assoc, askedFor_end]
  rfl

theorem parse_workSlot (p : Panel σ) (input : DetectorInput) {slot : Slot σ} (hf : slot.Faithful)
    {s : σ} {x : Assessment} (h : (p.workSlot input slot s).1.outcome = .answered x) :
    Assessment.parse slot.name (String.join (p.reply input slot s).1) = .ok x := by
  rw [p.outcome_workSlot, bind_eq_answered] at h
  obtain ⟨text, htext, hparse⟩ := h
  unfold reply at htext ⊢
  dsimp only at htext ⊢
  split at htext
  · next hin =>
    rw [if_pos hin, hf _ _ _ _ _ htext]
    exact hparse
  · cases htext

theorem tells_workSlots (p : Panel σ) (input : DetectorInput) (slots : List (Slot σ)) (s : σ) :
    ∀ w ∈ (p.workSlots input slots s).1, ∃ texts, Tells p.timeoutMs w texts ∧
      ((∀ slot ∈ slots, slot.Faithful) → ∀ x, w.outcome = .answered x →
        Assessment.parse w.name (String.join texts) = .ok x) := by
  induction slots generalizing s with
  | nil => exact nofun
  | cons slot slots ih =>
    intro w hw
    rcases List.mem_cons.mp hw with hw | hw
    · rw [hw]
      exact ⟨_, p.tells_workSlot input slot s, fun hf x hx =>
        p.parse_workSlot input (hf slot List.mem_cons_self) hx⟩
    · obtain ⟨texts, htells, hparse⟩ := ih _ w hw
      exact ⟨texts, htells, fun hf =>
        hparse fun slot' hslot => hf slot' (List.mem_cons_of_mem slot hslot)⟩

theorem detector?_of_tells {timeoutMs : Nat} {w : Worked Assessment} {texts : List String}
    (h : Tells timeoutMs w texts) : ∀ e ∈ told w, e.detector? = some w.name := by
  intro e he
  rw [h] at he
  rcases List.mem_cons.mp he with rfl | he
  · rfl
  rcases List.mem_cons.mp he with rfl | he
  · rfl
  rcases List.mem_append.mp he with he | he
  · obtain ⟨text, -, rfl⟩ := List.mem_map.mp he
    rfl
  · rw [List.mem_singleton.mp he]
    exact detector?_conclusion ..

/-! ### The detectors of a panel -/

section

variable (p : Panel σ) (token : Address) (source : SourceResult) (s : σ)

theorem tells_works : ∀ w ∈ p.works token source s, ∃ texts, Tells p.timeoutMs w texts ∧
    ((∀ slot ∈ p.slots, slot.Faithful) → ∀ x, w.outcome = .answered x →
      Assessment.parse w.name (String.join texts) = .ok x) := by
  intro w hw
  obtain ⟨texts, htells, hparse⟩ := p.tells_workSlots _ _ _ w hw
  refine ⟨texts, htells, fun hf => hparse fun slot hslot => ?_⟩
  split at hslot
  · exact hf slot hslot
  · cases hslot

def lanes : List (String × Task) :=
  (securityName, ⟨(p.workSecurity token source s).1.opening ++
    (p.workSecurity token source s).1.closing,
    breakdownCalls (p.workSecurity token source s).1 ++ [.phase .staticAnalysis .done]⟩) ::
  (p.works token source s).map fun w => (w.name, ⟨w.opening ++ w.closing, breakdownCalls w⟩)

theorem interleaved_work : Interleaved ((p.lanes token source s).map Prod.snd)
    (p.work token source s) := by
  have h := p.order.interleaved (p.workSecurity token source s).1 (p.works token source s)
  unfold tasks at h
  unfold lanes
  rw [List.map_cons, List.map_map]
  exact h

theorem told_security : Task.told ⟨(p.workSecurity token source s).1.opening ++
    (p.workSecurity token source s).1.closing,
    breakdownCalls (p.workSecurity token source s).1 ++ [.phase .staticAnalysis .done]⟩ =
      [.detectorStarted securityName .fixed, p.securityEnd token source s,
        Feed.phaseEvent .staticAnalysis .done] := by
  have htold := p.told_workSecurity token source s
  unfold told at htold
  rw [Task.told, ← List.append_assoc, askedFor_append, htold]
  rfl

theorem owner_lanes : ∀ x ∈ p.lanes token source s, ∀ e ∈ x.2.told, owner e = x.1 := by
  unfold lanes
  rw [List.forall_mem_cons, List.forall_mem_map]
  constructor
  · rw [told_security]
    refine List.forall_mem_cons.mpr ⟨rfl, List.forall_mem_cons.mpr ⟨?_, ?_⟩⟩
    · exact congrArg (Option.getD · _) (detector?_conclusion ..)
    · exact List.forall_mem_singleton.mpr rfl
  · intro w hw e he
    obtain ⟨texts, htells, -⟩ := p.tells_works token source s w hw
    exact congrArg (Option.getD · _) (detector?_of_tells htells e he)

def names : List String := securityName :: (p.works token source s).map Worked.name

theorem names_lanes : (p.lanes token source s).map Prod.fst = p.names token source s := by
  unfold lanes names
  rw [List.map_cons, List.map_map]
  rfl

section

variable {p token source s} (hnodup : (p.names token source s).Nodup)

include hnodup

theorem lane_security : (askedFor (p.work token source s)).filter (owner · = securityName) =
    [.detectorStarted securityName .fixed, p.securityEnd token source s,
      Feed.phaseEvent .staticAnalysis .done] := by
  rw [← told_security]
  rw [← names_lanes] at hnodup
  exact (p.interleaved_work token source s).lane (p.owner_lanes token source s) hnodup
    (List.mem_cons_self ..)

theorem lane_model {w : Worked Assessment} (hw : w ∈ p.works token source s) :
    (askedFor (p.work token source s)).filter (owner · = w.name) = told w := by
  rw [← names_lanes] at hnodup
  exact (p.interleaved_work token source s).lane (p.owner_lanes token source s) hnodup
    (List.mem_cons_of_mem _ (List.mem_map_of_mem hw))

end

theorem owner_mem_names {e : Event} (he : e ∈ askedFor (p.work token source s)) :
    owner e ∈ p.names token source s := by
  rw [(p.interleaved_work token source s).told_perm.mem_iff, List.mem_flatMap] at he
  obtain ⟨t, ht, he⟩ := he
  obtain ⟨x, hx, rfl⟩ := List.mem_map.mp ht
  rw [p.owner_lanes token source s x hx e he, ← names_lanes]
  exact List.mem_map_of_mem hx

end

/-! ### The records of each detector -/

theorem owner_of_detector? {e : Event} {d : String} (h : e.detector? = some d) : owner e = d :=
  congrArg (Option.getD · _) h

theorem detectorRecords_lane (d : String) (es : List Event) :
    detectorRecords d es = detectorRecords d (es.filter (owner · = d)) := by
  unfold detectorRecords
  rw [List.filter_filter]
  apply List.filter_congr
  intro e _
  by_cases h : e.detector? = some d
  · simp [h, owner_of_detector? h]
  · simp [h]

section

variable {p : Panel σ} {token : Address} {source : SourceResult} {s : σ}
  (hnodup : (p.names token source s).Nodup)

include hnodup

theorem records_security : detectorRecords securityName (askedFor (p.work token source s)) =
    [.detectorStarted securityName .fixed, p.securityEnd token source s] := by
  have hend : (p.securityEnd token source s).detector? = some securityName :=
    detector?_conclusion ..
  rw [detectorRecords_lane, lane_security hnodup]
  exact congrArg (_ :: ·) (List.filter_cons_of_pos (decide_eq_true hend))

theorem records_model {w : Worked Assessment} (hw : w ∈ p.works token source s) :
    detectorRecords w.name (askedFor (p.work token source s)) = told w := by
  obtain ⟨texts, htells, -⟩ := p.tells_works token source s w hw
  rw [detectorRecords_lane, lane_model hnodup hw]
  exact List.filter_eq_self.mpr fun e he => decide_eq_true (detector?_of_tells htells e he)

theorem records_cases (d : String) :
    let records := detectorRecords d (askedFor (p.work token source s))
    records = [] ∨ DetectorWord d records := by
  intro records
  by_cases hd : d = securityName
  · subst hd
    have h : records = _ := records_security hnodup
    rw [h]
    exact .inr (.concluded .fixed [] _ .silent (concludes_conclusion ..))
  by_cases hmem : d ∈ (p.works token source s).map Worked.name
  · obtain ⟨w, hw, rfl⟩ := List.mem_map.mp hmem
    obtain ⟨texts, htells, -⟩ := p.tells_works token source s w hw
    have h : records = _ := (records_model hnodup hw).trans htells
    rw [h]
    exact .inr (.concluded .model _ _ (.opened texts) (concludes_conclusion ..))
  · refine .inl (List.filter_eq_nil_iff.mpr fun e he h => ?_)
    have howner := p.owner_mem_names token source s he
    rw [owner_of_detector? (of_decide_eq_true h)] at howner
    rcases List.mem_cons.mp howner with h | h
    · exact hd h
    · exact hmem h

end

end Panel

end TokenAudit
