import TokenAudit.Detector.Model
import TokenAudit.Proofs.Json.Free
import TokenAudit.Proofs.Risk.Membership

/-! Answers of models: whatever stands around the object of an answer, what is read is what the object
says, and an answer without such an object is refused. -/

namespace TokenAudit.Text

theorem fromFirst?_eq_none_iff {p : Char → Bool} {s : List Char} :
    fromFirst? p s = none ↔ ∀ c ∈ s, p c = false := by
  induction s with
  | nil => exact iff_of_true rfl (List.forall_mem_nil _)
  | cons c s ih =>
    rw [fromFirst?, List.forall_mem_cons]
    cases hc : p c with
    | true => simp
    | false => simpa using ih

theorem fromFirst?_append {p : Char → Bool} {before : List Char} (h : ∀ c ∈ before, p c = false)
    {c : Char} (hc : p c = true) (s : List Char) :
    fromFirst? p (before ++ c :: s) = some (c :: s) := by
  induction before with
  | nil => rw [List.nil_append, fromFirst?, if_pos hc]
  | cons d before ih =>
    obtain ⟨hd, hbefore⟩ := List.forall_mem_cons.mp h
    rw [List.cons_append, fromFirst?, hd, if_neg Bool.false_ne_true, ih hbefore]

theorem fromFirst?_sound {p : Char → Bool} {s r : List Char} (h : fromFirst? p s = some r) :
    ∃ before c after, s = before ++ c :: after ∧ r = c :: after ∧ p c = true ∧
      ∀ d ∈ before, p d = false := by
  induction s with
  | nil => cases h
  | cons c s ih =>
    rw [fromFirst?] at h
    split at h
    · rename_i hc
      cases h
      exact ⟨[], c, s, rfl, rfl, hc, List.forall_mem_nil _⟩
    · rename_i hc
      obtain ⟨before, d, after, rfl, hr, hd, hbefore⟩ := ih h
      exact ⟨c :: before, d, after, rfl, hr, hd,
        List.forall_mem_cons.mpr ⟨Bool.eq_false_iff.mpr hc, hbefore⟩⟩

theorem throughLast?_append {p : Char → Bool} {after : List Char} (h : ∀ c ∈ after, p c = false)
    {c : Char} (hc : p c = true) (s : List Char) :
    throughLast? p (s ++ c :: after) = some (s ++ [c]) := by
  have hreversed : (s ++ c :: after).reverse = after.reverse ++ c :: s.reverse := by simp
  have hafter : ∀ d ∈ after.reverse, p d = false := fun d hd => h d (List.mem_reverse.mp hd)
  rw [throughLast?, hreversed, fromFirst?_append hafter hc]
  simp

theorem throughLast?_sound {p : Char → Bool} {s r : List Char} (h : throughLast? p s = some r) :
    ∃ inner c after, s = inner ++ c :: after ∧ r = inner ++ [c] ∧ p c = true ∧
      ∀ d ∈ after, p d = false := by
  obtain ⟨t, ht, rfl⟩ := Option.map_eq_some_iff.mp h
  obtain ⟨before, c, after, hs, rfl, hc, hbefore⟩ := fromFirst?_sound ht
  refine ⟨after.reverse, c, before.reverse, ?_, ?_, hc, fun d hd => hbefore d (List.mem_reverse.mp hd)⟩
  · have hback := congrArg List.reverse hs
    simpa using hback
  · simp

theorem throughLast?_eq_none_iff {p : Char → Bool} {s : List Char} :
    throughLast? p s = none ↔ ∀ c ∈ s, p c = false := by
  rw [throughLast?, Option.map_eq_none_iff, fromFirst?_eq_none_iff]
  simp only [List.mem_reverse]

end TokenAudit.Text

namespace TokenAudit.Assessment

open Json (Tree lastUnder)

/-! ### The object in an answer -/

/-- The part of an answer from its first opening to its last closing brace. -/
def Spans (answer span : List Char) : Prop :=
  ∃ before inner after, answer = before ++ '{' :: (inner ++ '}' :: after) ∧
    span = '{' :: (inner ++ ['}']) ∧ '{' ∉ before ∧ '}' ∉ after

theorem objectSpan?_of_spans {answer span : List Char} (h : Spans answer span) :
    objectSpan? answer = some span := by
  obtain ⟨before, inner, after, rfl, rfl, hbefore, hafter⟩ := h
  have hopening : ∀ c ∈ before, (c == '{') = false := by
    intro c hc
    exact beq_eq_false_iff_ne.mpr fun heq => hbefore (heq ▸ hc)
  have hclosing : ∀ c ∈ after, (c == '}') = false := by
    intro c hc
    exact beq_eq_false_iff_ne.mpr fun heq => hafter (heq ▸ hc)
  rw [objectSpan?, Text.fromFirst?_append hopening (beq_self_eq_true '{')]
  exact Text.throughLast?_append hclosing (beq_self_eq_true '}') ('{' :: inner)

theorem spans_of_objectSpan? {answer span : List Char} (h : objectSpan? answer = some span) :
    Spans answer span := by
  unfold objectSpan? at h
  split at h
  · rename_i t hfirst
    obtain ⟨before, c, rest, rfl, rfl, hc, hbefore⟩ := Text.fromFirst?_sound hfirst
    obtain ⟨inner, d, after, hrest, rfl, hd, hafter⟩ := Text.throughLast?_sound h
    obtain rfl : c = '{' := beq_iff_eq.mp hc
    obtain rfl : d = '}' := beq_iff_eq.mp hd
    cases inner with
    | nil => exact absurd (List.cons.inj hrest).1 (by decide)
    | cons e inner =>
      obtain ⟨rfl, rfl⟩ := List.cons.inj hrest
      refine ⟨before, inner, after, rfl, rfl, fun hmem => ?_, fun hmem => ?_⟩
      · exact Bool.noConfusion (hbefore '{' hmem)
      · exact Bool.noConfusion (hafter '}' hmem)
  · cases h

theorem objectSpan?_eq_none_iff {answer : List Char} :
    objectSpan? answer = none ↔
      ∀ before inner after, answer ≠ before ++ '{' :: (inner ++ '}' :: after) := by
  constructor
  · rintro h before inner after rfl
    unfold objectSpan? at h
    split at h
    · rename_i t hfirst
      obtain ⟨early, c, rest, hanswer, rfl, hc, hearly⟩ := Text.fromFirst?_sound hfirst
      have hnone := Text.throughLast?_eq_none_iff.mp h
      -- The closing brace stands after the first opening one: no brace opens earlier.
      have hmem : '}' ∈ c :: rest := by
        rcases List.append_eq_append_iff.mp hanswer with ⟨x, hx, hrest⟩ | ⟨x, hx, hrest⟩
        · cases x with
          | nil =>
            obtain ⟨rfl, rfl⟩ := List.cons.inj hrest
            simp
          | cons d x =>
            obtain ⟨rfl, -⟩ := List.cons.inj hrest
            have hopening : '{' ∈ early := by simp [hx]
            exact Bool.noConfusion (hearly '{' hopening)
        · simp [hrest]
      exact Bool.noConfusion (hnone '}' hmem)
    · rename_i hfirst
      have hnone := Text.fromFirst?_eq_none_iff.mp hfirst
      exact Bool.noConfusion (hnone '{' (by simp))
  · intro h
    cases hspan : objectSpan? answer with
    | none => rfl
    | some span =>
      obtain ⟨before, inner, after, hanswer, -⟩ := spans_of_objectSpan? hspan
      exact absurd hanswer (h before inner after)

theorem parse_of_unread (m : String) {answer : String} {span : List Char}
    (h : Spans answer.toList span) (hv : Json.parseFree (String.ofList span) = none) :
    parse m answer = .error (.pipeline s!"{m}: invalid JSON answer: {Json.fault}") := by
  rw [parse, objectSpan?_of_spans h]
  simp only [hv]

theorem parse_of_read (m : String) {answer : String} {span : List Char} {v : Json}
    (h : Spans answer.toList span) (hv : Json.parseFree (String.ofList span) = some v) :
    parse m answer = .ok (ofValue m v) := by
  rw [parse, objectSpan?_of_spans h]
  simp only [hv]

theorem exists_enclosed {s : List Char} (hopen : s.head? = some '{') (hclose : s.getLast? = some '}') :
    ∃ inner, s = '{' :: (inner ++ ['}']) := by
  obtain ⟨t, rfl⟩ := List.getLast?_eq_some_iff.mp hclose
  cases t with
  | nil => cases hopen
  | cons c inner =>
    cases hopen
    exact ⟨inner, rfl⟩

theorem spans_wrapped {before inner after : List Char} (hbefore : '{' ∉ before)
    (hafter : '}' ∉ after) :
    Spans (before ++ '{' :: (inner ++ ['}']) ++ after) ('{' :: (inner ++ ['}'])) :=
  ⟨before, inner, after, by simp, rfl, hbefore, hafter⟩

theorem parse_wrapped (m : String) {before object after : String} (hbefore : '{' ∉ before.toList)
    (hafter : '}' ∉ after.toList) (hopen : object.toList.head? = some '{')
    (hclose : object.toList.getLast? = some '}') :
    parse m (before ++ object ++ after) = parse m object := by
  obtain ⟨inner, hinner⟩ := exists_enclosed hopen hclose
  have hwrapped : Spans (before ++ object ++ after).toList ('{' :: (inner ++ ['}'])) := by
    rw [String.toList_append, String.toList_append, hinner]
    exact spans_wrapped hbefore hafter
  have hbare : Spans object.toList ('{' :: (inner ++ ['}'])) :=
    ⟨[], inner, [], hinner, rfl, List.not_mem_nil, List.not_mem_nil⟩
  cases hv : Json.parseFree (String.ofList ('{' :: (inner ++ ['}']))) with
  | none => rw [parse_of_unread m hwrapped hv, parse_of_unread m hbare hv]
  | some v => rw [parse_of_read m hwrapped hv, parse_of_read m hbare hv]

theorem object_of_spans {answer span : List Char} {t : Tree} (h : Spans answer span)
    (ht : t.Text span) : ∃ ms, t = .object ms := by
  obtain ⟨before, inner, after, -, rfl, -⟩ := h
  exact Json.object_of_text ht

/-! ### What is read of it -/

theorem contains_flags (value : Json) (b : RiskBit) :
    ((flags value).only .model).contains b = true ↔ b.family = .model ∧ flag value b = true := by
  rw [RiskMask.contains_only, Bool.and_eq_true, decide_eq_true_eq, and_comm]
  refine and_congr_right fun hb => ?_
  have hmem := RiskBit.mem_modelBits.mpr hb
  cases b <;> simp [flags, RiskBit.modelBits] at hmem ⊢

theorem flag_iff (value : Json) (b : RiskBit) :
    flag value b = true ↔ ((value.get? b.key).bind Json.asBool?) = some true := by
  rw [flag]
  cases (value.get? b.key).bind Json.asBool? with
  | none => exact iff_of_false Bool.false_ne_true nofun
  | some on => exact (Option.some_inj).symm

/-! ### Answers of a model that flags -/

def flagged (bits : List RiskBit) (reasoning : String) : List (String × Json) :=
  [("external_call_risk", .bool (decide (.externalCallRisk ∈ bits))),
   ("logic_bomb", .bool (decide (.logicBomb ∈ bits))),
   ("obfuscated_tax", .bool (decide (.obfuscatedTax ∈ bits))),
   ("privilege_escalation", .bool (decide (.privilegeEscalation ∈ bits))),
   ("reasoning", .str reasoning)]

theorem flaggingAnswer_eq (bits : List RiskBit) (reasoning : String) :
    flaggingAnswer bits reasoning = (Json.obj (flagged bits reasoning)).render := rfl

theorem parseFree_flaggingAnswer (bits : List RiskBit) (reasoning : String) :
    Json.parseFree (flaggingAnswer bits reasoning) =
      some (Json.obj (flagged bits reasoning)).sorted := by
  have hfits : Json.Fits Json.maxNesting (Json.obj (flagged bits reasoning)) := by
    simp [Json.Fits, Json.FitsMembers, flagged, Json.maxNesting]
  rw [flaggingAnswer_eq, Json.parseFree, Json.parse_render hfits]
  simp only [Json.readable_of_fits _ hfits, if_true]

theorem ofValue_flagged (m : String) (bits : List RiskBit) (reasoning : String) :
    let a := ofValue m (Json.obj (flagged bits reasoning)).sorted
    a.reasoning = reasoning ∧ ∀ b, a.mask.contains b = true ↔ b ∈ bits ∧ b.family = .model := by
  intro a
  have hget : ∀ key, (Json.obj (flagged bits reasoning)).sorted.get? key = _ := Json.get?_sorted _
  constructor
  · change (((Json.obj (flagged bits reasoning)).sorted.get? "reasoning").bind
      Json.asString?).getD "" = _
    rw [hget]
    rfl
  · intro b
    change ((flags _).only .model).contains b = true ↔ _
    rw [contains_flags, flag_iff, and_comm]
    refine and_congr_left fun hb => ?_
    have hbit : (Json.obj (flagged bits reasoning)).get? b.key = some (.bool (decide (b ∈ bits))) := by
      have hmem := RiskBit.mem_modelBits.mpr hb
      simp only [RiskBit.modelBits, List.mem_cons, List.not_mem_nil, or_false] at hmem
      rcases hmem with rfl | rfl | rfl | rfl
      · rfl
      · rfl
      · rfl
      · rfl
    rw [hget, hbit]
    simp [Json.sorted, Json.asBool?]

theorem parse_flaggingAnswer (m : String) (bits : List RiskBit) (reasoning : String)
    {before after : String} (hbefore : '{' ∉ before.toList) (hafter : '}' ∉ after.toList) :
    parse m (before ++ flaggingAnswer bits reasoning ++ after) =
      .ok (ofValue m (Json.obj (flagged bits reasoning)).sorted) := by
  have htext : (flaggingAnswer bits reasoning).toList =
      '{' :: (Json.renderMembers (flagged bits reasoning) ++ ['}']) := by
    rw [flaggingAnswer_eq, Json.render, String.toList_ofList]
    rfl
  have hspans : Spans (before ++ flaggingAnswer bits reasoning ++ after).toList
      (flaggingAnswer bits reasoning).toList := by
    rw [String.toList_append, String.toList_append, htext]
    exact spans_wrapped hbefore hafter
  apply parse_of_read m hspans
  rw [String.ofList_toList, parseFree_flaggingAnswer]

/-! ### Any answer -/

theorem parse_of_text (m : String) {answer : String} {span : List Char}
    {ms : List (List Json.Piece × Tree)} (hspans : Spans answer.toList span)
    (ht : (Tree.object ms).Text span) (hwithin : (Tree.object ms).Within Json.maxNesting) :
    ∃ a, parse m answer = .ok a ∧ a.model = m ∧
      (∀ b, a.mask.contains b = true ↔ b.family = .model ∧ lastUnder ms b.key = some (.bool true)) ∧
      a.reasoning = ((lastUnder ms "reasoning").bind Tree.text?).getD "" := by
  have hparse : Json.parseFree (String.ofList span) =
      some ((Tree.object ms).denote Json.maxNesting).sorted :=
    Json.parseFree_iff.mpr ⟨_, by rwa [String.toList_ofList], hwithin, rfl⟩
  refine ⟨ofValue m ((Tree.object ms).denote Json.maxNesting).sorted, ?_, rfl, fun b => ?_, ?_⟩
  · exact parse_of_read m hspans hparse
  · change ((flags _).only .model).contains b = true ↔ _
    rw [contains_flags, flag_iff, Json.get?_denote hwithin]
    cases lastUnder ms b.key with
    | none => simp
    | some t =>
      rw [Option.map_some, Option.bind_some, Json.asBool?_denote, Option.some_inj]
  · change (((((Tree.object ms).denote Json.maxNesting).sorted.get? "reasoning").bind
      Json.asString?).getD "" = _)
    rw [Json.get?_denote hwithin]
    cases lastUnder ms "reasoning" with
    | none => rfl
    | some t => rw [Option.map_some, Option.bind_some, Option.bind_some, Json.asString?_denote]

theorem exists_parseFree {m answer : String} {a : Assessment} {span : List Char}
    (h : parse m answer = .ok a) (hspans : Spans answer.toList span) :
    ∃ v, Json.parseFree (String.ofList span) = some v := by
  cases hv : Json.parseFree (String.ofList span) with
  | none =>
    rw [parse_of_unread m hspans hv] at h
    cases h
  | some v => exact ⟨v, rfl⟩

theorem parse_error_iff (m answer : String) :
    (∃ e, parse m answer = .error e) ↔
      (∀ before inner after, answer.toList ≠ before ++ '{' :: (inner ++ '}' :: after)) ∨
      ∃ span, Spans answer.toList span ∧ ¬∃ t : Tree, t.Text span ∧ t.Within Json.maxNesting := by
  rw [← objectSpan?_eq_none_iff]
  constructor
  · rintro ⟨e, he⟩
    cases hspan : objectSpan? answer.toList with
    | none => exact .inl rfl
    | some span =>
      have hspans := spans_of_objectSpan? hspan
      refine .inr ⟨span, hspans, ?_⟩
      rintro ⟨t, ht, hwithin⟩
      obtain ⟨ms, rfl⟩ := object_of_spans hspans ht
      obtain ⟨a, ha, -⟩ := parse_of_text m hspans ht hwithin
      rw [ha] at he
      cases he
  · rintro (hnone | ⟨span, hspans, hno⟩)
    · have hrefused : parse m answer = .error (.pipeline s!"{m}: answer has no JSON object") := by
        rw [parse, hnone]
      exact ⟨_, hrefused⟩
    · cases hv : Json.parseFree (String.ofList span) with
      | none => exact ⟨_, parse_of_unread m hspans hv⟩
      | some v =>
        obtain ⟨t, ht, hwithin, -⟩ := Json.parseFree_iff.mp hv
        rw [String.toList_ofList] at ht
        exact absurd ⟨t, ht, hwithin⟩ hno

theorem reads_of_parse {m answer : String} {a : Assessment} (h : parse m answer = .ok a) :
    a.model = m ∧ (∀ b, a.mask.contains b = true → b.family = .model) ∧
    ∃ span, Spans answer.toList span ∧ (∃ ms, (Tree.object ms).Text span) ∧
      ∀ ms, (Tree.object ms).Text span →
        (∀ b, b.family = .model →
          (a.mask.contains b = true ↔ lastUnder ms b.key = some (.bool true))) ∧
        a.reasoning = ((lastUnder ms "reasoning").bind Tree.text?).getD "" := by
  have hsome : objectSpan? answer.toList ≠ none := by
    intro hnone
    rw [parse, hnone] at h
    cases h
  obtain ⟨span, hspan⟩ := Option.ne_none_iff_exists'.mp hsome
  have hspans := spans_of_objectSpan? hspan
  obtain ⟨v, hv⟩ := exists_parseFree h hspans
  have hsays : ∀ ms, (Tree.object ms).Text span → a.model = m ∧
      (∀ b, a.mask.contains b = true ↔ b.family = .model ∧ lastUnder ms b.key = some (.bool true)) ∧
      a.reasoning = ((lastUnder ms "reasoning").bind Tree.text?).getD "" := by
    intro ms ht
    have htext : (Tree.object ms).Text (String.ofList span).toList := by rwa [String.toList_ofList]
    obtain ⟨a', ha', hread⟩ := parse_of_text m hspans ht (Json.parseFree_of_text htext hv).1
    rw [h] at ha'
    cases ha'
    exact hread
  obtain ⟨t, ht, -⟩ := Json.parseFree_iff.mp hv
  rw [String.toList_ofList] at ht
  obtain ⟨ms, rfl⟩ := object_of_spans hspans ht
  obtain ⟨hmodel, hmask, -⟩ := hsays ms ht
  refine ⟨hmodel, fun b hb => ((hmask b).mp hb).1, span, hspans, ⟨ms, ht⟩, fun ms' ht' => ?_⟩
  obtain ⟨-, hmask', hreasoning⟩ := hsays ms' ht'
  refine ⟨fun b hb => ?_, hreasoning⟩
  rw [hmask' b, and_iff_right hb]

/-- What stands around the object of an answer changes nothing, and an answer of flags reads back as
those flags and their reasoning. Of any answer only bits of the models are set: those whose key has the
literal true last. It is refused exactly if it has no object that is well formed and within the limits. -/
theorem answers_read_faithfully (m : String) :
    (∀ before object after : String, '{' ∉ before.toList → '}' ∉ after.toList →
      object.toList.head? = some '{' → object.toList.getLast? = some '}' →
      parse m (before ++ object ++ after) = parse m object) ∧
    (∀ (bits : List RiskBit) (reasoning before after : String), '{' ∉ before.toList →
      '}' ∉ after.toList → ∃ a, parse m (before ++ flaggingAnswer bits reasoning ++ after) = .ok a ∧
        a.model = m ∧ a.reasoning = reasoning ∧
        ∀ b, a.mask.contains b = true ↔ b ∈ bits ∧ b.family = .model) ∧
    (∀ (answer : String) (a : Assessment), parse m answer = .ok a → a.model = m ∧
      (∀ b, a.mask.contains b = true → b.family = .model) ∧
      ∃ span, Spans answer.toList span ∧ (∃ ms, (Tree.object ms).Text span) ∧
        ∀ ms, (Tree.object ms).Text span →
          (∀ b, b.family = .model →
            (a.mask.contains b = true ↔ lastUnder ms b.key = some (.bool true))) ∧
          a.reasoning = ((lastUnder ms "reasoning").bind Tree.text?).getD "") ∧
    ∀ answer : String, (∃ e, parse m answer = .error e) ↔
      (∀ before inner after, answer.toList ≠ before ++ '{' :: (inner ++ '}' :: after)) ∨
      ∃ span, Spans answer.toList span ∧ ¬∃ t : Tree, t.Text span ∧ t.Within Json.maxNesting := by
  refine ⟨fun before object after => parse_wrapped m, ?_, fun answer a => reads_of_parse,
    parse_error_iff m⟩
  intro bits reasoning before after hbefore hafter
  obtain ⟨hreasoning, hmask⟩ := ofValue_flagged m bits reasoning
  exact ⟨_, parse_flaggingAnswer m bits reasoning hbefore hafter, rfl, hreasoning, hmask⟩

theorem quoting_answer_reads_faithfully :
    let before := "Sure, here it is: "
    let after := " (\x7bunsure"
    let reasoning := "says \"\x7d\" \x7b and \\"
    '{' ∉ before.toList ∧ '}' ∉ after.toList ∧
      ∃ a, parse "m" (before ++ flaggingAnswer [.logicBomb] reasoning ++ after) = .ok a ∧
        a.reasoning = reasoning ∧ ∀ b, a.mask.contains b = true ↔ b = .logicBomb := by
  intro before after reasoning
  have hbefore : '{' ∉ before.toList := by decide
  have hafter : '}' ∉ after.toList := by decide
  obtain ⟨-, hflagging, -, -⟩ := answers_read_faithfully "m"
  obtain ⟨a, ha, -, hreasoning, hmask⟩ :=
    hflagging [.logicBomb] reasoning before after hbefore hafter
  refine ⟨hbefore, hafter, a, ha, hreasoning, fun b => ?_⟩
  rw [hmask b, List.mem_singleton, and_iff_left_iff_imp]
  rintro rfl
  rfl

def deepObject (n : Nat) : Tree := .object [([.char 'a'], Json.nested n)]

def deepAnswer (n : Nat) : String :=
  String.ofList ('{' :: (('"' :: 'a' :: '"' :: ':' ::
    (List.replicate (n + 1) '[' ++ List.replicate (n + 1) ']')) ++ ['}']))

theorem text_deepAnswer (n : Nat) : (deepObject n).Text (deepAnswer n).toList := by
  have hblank : Json.Blank [] := List.forall_mem_nil _
  have hkey : Json.SpellsPieces [.char 'a'] ['a'] :=
    .cons (.plain (by decide) (by decide) (by decide)) .nil
  have hmember := Json.Spells.member hblank hkey hblank (.element hblank (Json.spells_nested n) hblank)
  have htext := Json.Spells.element hblank (.object (.lastMember hmember)) hblank
  rw [deepAnswer, String.toList_ofList]
  simpa [Tree.Text, deepObject] using htext

theorem spans_deepAnswer (n : Nat) : Spans (deepAnswer n).toList (deepAnswer n).toList := by
  rw [deepAnswer, String.toList_ofList]
  exact ⟨[], _, [], rfl, rfl, List.not_mem_nil, List.not_mem_nil⟩

theorem within_deepObject (n : Nat) : (deepObject n).Within Json.maxNesting ↔ n < 126 := by
  have hkey : Json.Paired [.char 'a'] := .char .nil
  rw [deepObject, Tree.Within, Json.WithinMembers, Json.WithinMembers, Json.within_nested]
  simp [hkey, Json.maxNesting]

theorem deep_answer_is_refused :
    (deepObject 126).Text (deepAnswer 126).toList ∧
    Spans (deepAnswer 126).toList (deepAnswer 126).toList ∧
    parse "m" (deepAnswer 126) = .error (.pipeline "m: invalid JSON answer: <json>") := by
  have hspans := spans_deepAnswer 126
  refine ⟨text_deepAnswer 126, hspans, ?_⟩
  have hnone : Json.parseFree (deepAnswer 126) = none := by
    cases hv : Json.parseFree (deepAnswer 126) with
    | none => rfl
    | some v =>
      have hwithin := (Json.parseFree_of_text (text_deepAnswer 126) hv).1
      exact absurd ((within_deepObject 126).mp hwithin) (Nat.lt_irrefl 126)
  apply parse_of_unread "m" hspans
  rw [String.ofList_toList, hnone]

end TokenAudit.Assessment
