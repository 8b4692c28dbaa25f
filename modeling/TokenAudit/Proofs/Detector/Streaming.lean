import TokenAudit.Detector.Model

/-! Completions in one piece and in fragments. A stream hands on the texts in front of its first fault,
and what it comes to is what the same items come to at once: their texts put together, however they
are cut. -/

namespace TokenAudit.Completion

def Item.fault? : Item → Option String
  | fault message => some message
  | _ => none

def firstFault? (items : List Item) : Option String := items.findSome? Item.fault?

def texts (items : List Item) : List String := items.filterMap Item.text?

def saying (items : List Item) : String := String.join (texts items)

def beforeFault (items : List Item) : List Item := items.takeWhile fun i => i.fault?.isNone

variable {provider : String} {items : List Item}

theorem streamFrom_eq (provider : String) (before : List String) (items : List Item) :
    streamFrom provider before items = ⟨before ++ texts (beforeFault items),
      match firstFault? items with
      | some message => refused provider message
      | none => joined provider (before ++ texts items)⟩ := by
  -- Each text joins what was handed on before, so that stands in the statement for any texts.
  induction items generalizing before with
  | nil => simp [streamFrom, texts, beforeFault, firstFault?]
  | cons item items ih =>
    cases item with
    | text s =>
      have hsplit : ∀ ts, before ++ [s] ++ ts = before ++ s :: ts := by simp
      rw [streamFrom, ih, hsplit, hsplit]
      rfl
    | silent => exact ih before
    | fault message =>
      have hnone : texts (beforeFault (.fault message :: items)) = [] := rfl
      rw [streamFrom, hnone, List.append_nil]
      rfl

theorem beforeFault_of_faultless (h : firstFault? items = none) : beforeFault items = items := by
  have hnone : ∀ i ∈ items, i.fault? = none := List.findSome?_eq_none_iff.mp h
  rw [beforeFault, ← List.append_nil items, List.takeWhile_append_of_pos, List.takeWhile_nil]
  intro i hi
  rw [hnone i hi]
  rfl

theorem fragments_stream (provider : String) (items : List Item) :
    (stream provider items).fragments = texts (beforeFault items) := by
  rw [stream, streamFrom_eq, List.nil_append]

theorem answer_stream_of_fault {message : String} (h : firstFault? items = some message) :
    (stream provider items).answer = refused provider message := by
  rw [stream, streamFrom_eq, h]

theorem answer_stream_of_faultless (h : firstFault? items = none) :
    (stream provider items).answer = ofItems provider items := by
  rw [stream, streamFrom_eq, h]
  rfl

theorem ofItems_eq (provider : String) (items : List Item) :
    ofItems provider items = if isBlankText (saying items) then
      .error (.upstream provider 200 "completion carried no text") else .ok (saying items) := rfl

theorem saying_of_ofItems {answer : String} (h : ofItems provider items = .ok answer) :
    saying items = answer := by
  rw [ofItems_eq] at h
  split at h
  · cases h
  · exact Except.ok.inj h

theorem join_fragments {answer : String} (h : (stream provider items).answer = .ok answer) :
    String.join (stream provider items).fragments = answer := by
  cases hfault : firstFault? items with
  | some message =>
    rw [answer_stream_of_fault hfault] at h
    cases h
  | none =>
    rw [answer_stream_of_faultless hfault] at h
    rw [fragments_stream, beforeFault_of_faultless hfault]
    exact saying_of_ofItems h

theorem assess_of_faultless {d : ModelDetector} {input : DetectorInput}
    (hreply : d.reply systemPrompt input.prompt = .ok items) (h : firstFault? items = none) :
    d.assess input = (whole (ofItems d.provider items)).assess d.name := by
  rw [ModelDetector.assess, ModelDetector.assessStreaming, hreply, completeStreaming, assess,
    answer_stream_of_faultless h]
  cases ofItems d.provider items <;> rfl

/-- A model that is streamed answers as it does at once. Only what it says in all counts, for the answer
as for an assessment; what is handed on are the texts in front of the first fault. -/
theorem streams_as_it_completes (provider : String) :
    (∀ items, firstFault? items = none →
      (completeStreaming provider (.ok items)).answer = complete provider (.ok items) ∧
      complete provider (.ok items) = if isBlankText (saying items) then
        .error (.upstream provider 200 "completion carried no text") else .ok (saying items)) ∧
    (∀ items, (completeStreaming provider (.ok items)).fragments = texts (beforeFault items) ∧
      (∀ message, firstFault? items = some message →
        (completeStreaming provider (.ok items)).answer = .error (.upstream provider 0 message)) ∧
      ∀ answer, (completeStreaming provider (.ok items)).answer = .ok answer →
        String.join (completeStreaming provider (.ok items)).fragments = answer) ∧
    (∀ message, completeStreaming provider (.error message) =
      ⟨[], .error (.upstream provider 0 message)⟩ ∧
      complete provider (.error message) = .error (.upstream provider 0 message)) ∧
    ∀ name reply reply' input items other,
      reply systemPrompt (DetectorInput.prompt input) = .ok items → firstFault? items = none →
      reply' systemPrompt (DetectorInput.prompt input) = .ok other → firstFault? other = none →
      saying items = saying other →
      let d : ModelDetector := ⟨name, provider, reply⟩
      let d' : ModelDetector := ⟨name, provider, reply'⟩
      d.assess input = d'.assess input ∧ d.assess input = (d'.assessStreaming input).2 := by
  refine ⟨fun items h => ⟨answer_stream_of_faultless h, ofItems_eq provider items⟩,
    fun items => ⟨fragments_stream provider items, fun _ h => answer_stream_of_fault h,
      fun _ h => join_fragments h⟩, fun _ => ⟨rfl, rfl⟩, ?_⟩
  intro name reply reply' input items other hreply h hreply' h' hsame d d'
  have hassess : d.assess input = d'.assess input := by
    rw [assess_of_faultless hreply h, assess_of_faultless hreply' h', ofItems_eq, ofItems_eq, hsame]
  exact ⟨hassess, hassess⟩

def pieces : List Item :=
  [.text "", .text "\x7b\"logic_bomb\": ", .silent, .text "true\x7d"]

theorem pieces_stream_as_they_complete :
    let answer := "\x7b\"logic_bomb\": true\x7d"
    let cut := pieces ++ [.fault "reset", .text "late"]
    let input := DetectorInput.ofSource Address.zero .absent
    firstFault? pieces = none ∧ saying pieces = saying [.text answer] ∧
      (completeStreaming "groq" (.ok pieces)).answer = complete "groq" (.ok pieces) ∧
      complete "groq" (.ok pieces) = .ok answer ∧
      String.join (completeStreaming "groq" (.ok pieces)).fragments = answer ∧
      (completeStreaming "groq" (.ok cut)).fragments = ["", "\x7b\"logic_bomb\": ", "true\x7d"] ∧
      (completeStreaming "groq" (.ok cut)).answer = .error (.upstream "groq" 0 "reset") ∧
      (ModelDetector.mk "m" "groq" fun _ _ => .ok pieces).assess input =
        (ModelDetector.mk "m" "groq" fun _ _ => .ok [.text answer]).assess input := by
  intro answer cut input
  obtain ⟨hwhole, hfragments, -, hassess⟩ := streams_as_it_completes "groq"
  have hsaying : saying pieces = saying [.text answer] := by decide
  obtain ⟨hsame, hcomplete⟩ := hwhole pieces rfl
  obtain ⟨-, -, hjoin⟩ := hfragments pieces
  obtain ⟨hheard, hfault, -⟩ := hfragments cut
  have hspoken : isBlankText (saying pieces) = false := by decide
  have hjoined : saying pieces = answer := by decide
  rw [hspoken, if_neg Bool.false_ne_true, hjoined] at hcomplete
  exact ⟨rfl, hsaying, hsame, hcomplete, hjoin answer (hsame.trans hcomplete), hheard, hfault "reset" rfl,
    (hassess "m" _ _ input pieces [.text answer] rfl rfl rfl rfl hsaying).1⟩

end TokenAudit.Completion
