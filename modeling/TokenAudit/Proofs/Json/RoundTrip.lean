import TokenAudit.Proofs.Json.Text
import TokenAudit.Proofs.Numeral.Figures

/-! Values and their compact texts: a value of texts, flags, whole numbers of 64 bits, lists and records
reads back from the text that is written of it. -/

namespace TokenAudit.Json

inductive Closes : List Char → Prop
  | nil : Closes []
  | comma (s : List Char) : Closes (',' :: s)
  | bracket (s : List Char) : Closes (']' :: s)
  | brace (s : List Char) : Closes ('}' :: s)

theorem skipSpace_cons {c : Char} (h : isSpace c = false) (s : List Char) :
    skipSpace (c :: s) = c :: s := by
  rw [skipSpace, List.dropWhile_cons_of_neg (by rw [h]; decide)]

/-! ### Numbers -/

theorem spanFigures_decimal (n : Nat) {rest : List Char} (h : Closes rest) :
    Double.spanFigures (Numeral.decimal n ++ rest) = (Numeral.decimal n, rest) := by
  have hfigures := fun c => Numeral.isFigure_of_mem_decimal (n := n) (c := c)
  have htake : rest.takeWhile Numeral.isFigure = [] := by cases h <;> rfl
  have hdrop : rest.dropWhile Numeral.isFigure = rest := by cases h <;> rfl
  rw [Double.spanFigures, List.takeWhile_append_of_pos hfigures,
    List.dropWhile_append_of_pos hfigures, htake, hdrop, List.append_nil]

def splitSign : List Char → Bool × List Char
  | '-' :: s => (true, s)
  | s => (false, s)

def readMagnitude (negative : Bool) (s : List Char) : Option (Literal × List Char) :=
  let (whole, s) := Double.spanFigures s
  if whole = [] ∨ (whole.head? = some '0' ∧ whole.length ≠ 1) then none
  else
    match s with
    | '.' :: t =>
      let (fraction, t) := Double.spanFigures t
      if fraction = [] then none
      else (readExponentPart t).map fun (e, r) => (⟨negative, whole, some fraction, e⟩, r)
    | t => (readExponentPart t).map fun (e, r) => (⟨negative, whole, none, e⟩, r)

theorem readLiteral_eq (s : List Char) :
    readLiteral s = readMagnitude (splitSign s).1 (splitSign s).2 := rfl

theorem splitSign_of_ne {c : Char} (h : c ≠ '-') (s : List Char) :
    splitSign (c :: s) = (false, c :: s) := by
  rw [splitSign]
  exact fun _ hs => h (List.cons.inj hs).1

theorem readMagnitude_decimal (negative : Bool) (n : Nat) {rest : List Char} (h : Closes rest) :
    readMagnitude negative (Numeral.decimal n ++ rest) =
      some (⟨negative, Numeral.decimal n, none, none⟩, rest) := by
  have hleading : ¬(Numeral.decimal n = [] ∨
      (Numeral.decimal n).head? = some '0' ∧ (Numeral.decimal n).length ≠ 1) := by
    rintro (hnil | ⟨hzero, hlong⟩)
    · exact Numeral.decimal_ne_nil n hnil
    · rcases Nat.eq_zero_or_pos n with rfl | hn
      · exact hlong Numeral.length_decimal_zero
      · exact Numeral.head?_decimal hn hzero
  simp only [readMagnitude, spanFigures_decimal n h, if_neg hleading]
  cases h <;> rfl

def signed (negative : Bool) (n : Nat) : List Char :=
  if negative then '-' :: Numeral.decimal n else Numeral.decimal n

theorem readLiteral_signed (negative : Bool) (n : Nat) {rest : List Char} (h : Closes rest) :
    readLiteral (signed negative n ++ rest) =
      some (⟨negative, Numeral.decimal n, none, none⟩, rest) := by
  have hmagnitude := readMagnitude_decimal negative n h
  rw [readLiteral_eq]
  cases negative with
  | true => exact hmagnitude
  | false =>
    obtain ⟨c, cs, hcs, hfigure⟩ := Numeral.exists_decimal n
    have hne : c ≠ '-' := by
      rintro rfl
      exact absurd hfigure (by decide)
    have hsplit : splitSign (signed false n ++ rest) = (false, Numeral.decimal n ++ rest) := by
      rw [signed, if_neg Bool.false_ne_true, hcs, List.cons_append, splitSign_of_ne hne]
    rw [hsplit]
    exact hmagnitude

theorem number?_signed (negative : Bool) {n : Nat}
    (h : if negative then 0 < n ∧ n ≤ Numeral.int64Bound else n < UInt64.size) :
    Literal.number? ⟨negative, Numeral.decimal n, none, none⟩ =
      some (.int (if negative then -Int.ofNat n else Int.ofNat n)) := by
  unfold Literal.number?
  rw [Numeral.figuresValue_decimal]
  cases negative with
  | true =>
    have hbounds : 0 < n ∧ n ≤ Numeral.int64Bound := h
    simp [hbounds]
  | false =>
    have hbound : n < UInt64.size := h
    simp [hbound]

theorem render_int (n : Int) : Number.render (.int n) = signed (decide (n < 0)) n.natAbs := by
  cases n with
  | ofNat m =>
    have htext : Numeral.intText (Int.ofNat m) = String.ofList (Numeral.decimal m) :=
      Nat.toString_eq_ofList_toDigits
    rw [Number.render, htext, String.toList_ofList]
    rfl
  | negSucc m =>
    have htext : Numeral.intText (Int.negSucc m) = "-" ++ String.ofList (Numeral.decimal (m + 1)) :=
      congrArg ("-" ++ ·) Nat.toString_eq_ofList_toDigits
    rw [Number.render, htext, String.toList_append, String.toList_ofList, String.toList_ofList,
      decide_eq_true (Int.negSucc_lt_zero m)]
    rfl

def Exact (n : Int) : Prop := -(Numeral.int64Bound : Int) ≤ n ∧ n < (UInt64.size : Int)

theorem readNumber_int {n : Int} (hn : Exact n) {rest : List Char} (h : Closes rest) :
    readNumber (Number.render (.int n) ++ rest) = some (.num (.int n), rest) := by
  have hliteral := readLiteral_signed (decide (n < 0)) n.natAbs h
  have hnumber : Literal.number? ⟨decide (n < 0), Numeral.decimal n.natAbs, none, none⟩ =
      some (.int n) := by
    obtain ⟨hlow, hhigh⟩ := hn
    by_cases hneg : n < 0
    · have hbounds : 0 < n.natAbs ∧ n.natAbs ≤ Numeral.int64Bound := by omega
      have hvalue : -Int.ofNat n.natAbs = n := by
        rw [Int.ofNat_eq_natCast]
        omega
      rw [decide_eq_true hneg, number?_signed true hbounds, if_pos rfl, hvalue]
    · have hbound : n.natAbs < UInt64.size := by omega
      have hvalue : Int.ofNat n.natAbs = n := by
        rw [Int.ofNat_eq_natCast]
        omega
      rw [decide_eq_false hneg, number?_signed false hbound, if_neg Bool.false_ne_true, hvalue]
  rw [readNumber, render_int, hliteral, Option.map_some]
  simp only [hnumber]

/-! ### How values begin -/

def startsNumber (c : Char) : Bool := c = '-' || Numeral.isFigure c

theorem exists_start_int (n : Int) :
    ∃ c s, Number.render (.int n) = c :: s ∧ startsNumber c = true := by
  rw [render_int]
  by_cases hneg : n < 0
  · rw [decide_eq_true hneg]
    exact ⟨'-', _, rfl, rfl⟩
  · obtain ⟨c, s, hcs, hfigure⟩ := Numeral.exists_decimal n.natAbs
    refine ⟨c, s, ?_, ?_⟩
    · rw [decide_eq_false hneg, signed, if_neg Bool.false_ne_true, hcs]
    · rw [startsNumber, hfigure, Bool.or_true]

theorem isSpace_of_startsNumber {c : Char} (h : startsNumber c = true) : isSpace c = false := by
  refine Bool.eq_false_iff.mpr fun hspace => ?_
  simp only [isSpace, Bool.or_eq_true, decide_eq_true_eq] at hspace
  rcases hspace with ((rfl | rfl) | rfl) | rfl
  all_goals exact absurd h (by decide)

theorem readValue_number {c : Char} (h : startsNumber c = true) (fuel room : Nat) (s : List Char) :
    readValue (fuel + 1) room (c :: s) = readNumber (c :: s) := by
  rw [readValue, skipSpace_cons (isSpace_of_startsNumber h)]
  split
  all_goals first
    | rfl
    | rename_i heq
      cases heq
      exact absurd h (by decide)

/-! ### Values -/

mutual
/-- A value that is kept by its text: it has no numbers but exact ones, and no deeper nesting than
there is room for. -/
def Fits : Nat → Json → Prop
  | _, null => True
  | _, bool _ => True
  | _, num (.int n) => Exact n
  | _, num (.float _) => False
  | _, str _ => True
  | room, arr items => 0 < room ∧ FitsItems (room - 1) items
  | room, obj members => 0 < room ∧ FitsMembers (room - 1) members
  | _, unreadable => False

def FitsItems : Nat → List Json → Prop
  | _, [] => True
  | room, j :: js => Fits room j ∧ FitsItems room js

def FitsMembers : Nat → List (String × Json) → Prop
  | _, [] => True
  | room, (_, j) :: ms => Fits room j ∧ FitsMembers room ms
end

theorem container_of_pos {room : Nat} (h : 0 < room) (j : Json) : container room j = j :=
  if_neg (Nat.ne_of_gt h)

theorem exists_start : ∀ {room : Nat} {j : Json}, Fits room j →
    ∃ c s, renderChars j = c :: s ∧ isSpace c = false ∧ c ≠ ']'
  | _, .null, _ | _, .bool true, _ | _, .bool false, _ | _, .str _, _ | _, .arr _, _
  | _, .obj _, _ => ⟨_, _, rfl, by decide, by decide⟩
  | _, .num (.int n), _ => by
    obtain ⟨c, s, hcs, hstart⟩ := exists_start_int n
    refine ⟨c, s, hcs, isSpace_of_startsNumber hstart, ?_⟩
    rintro rfl
    exact absurd hstart (by decide)

theorem exists_renderItems (j : Json) (js : List Json) :
    ∃ s, renderItems (j :: js) = renderChars j ++ s := by
  cases js with
  | nil => exact ⟨[], (List.append_nil _).symm⟩
  | cons k ks => exact ⟨_, rfl⟩

theorem exists_renderMembers (m : String × Json) (ms : List (String × Json)) :
    ∃ s, renderMembers (m :: ms) = '"' :: s := by
  cases ms with
  | nil => exact ⟨_, rfl⟩
  | cons m' ms => exact ⟨_, rfl⟩

theorem allKeys_given (members : List (String × Json)) :
    allKeys (members.map fun m => (some m.1, m.2)) = some members := by
  induction members with
  | nil => rfl
  | cons m ms ih =>
    rw [List.map_cons, allKeys, ih]
    rfl

theorem readValue_str (fuel room : Nat) (s : String) (rest : List Char) :
    readValue (fuel + 1) room (renderChars (.str s) ++ rest) = some (.str s, rest) := by
  have hquoted : renderChars (.str s) ++ rest = '"' :: (s.toList.flatMap escape ++ '"' :: rest) :=
    quoted_append s rest
  rw [hquoted, readValue, skipSpace_cons (by decide)]
  simp only [readString_quoted, Option.map_some]

theorem readValue_bracket {c : Char} (hspace : isSpace c = false) (hne : c ≠ ']')
    (fuel room : Nat) (s : List Char) :
    readValue (fuel + 1) room ('[' :: c :: s) = (readItems fuel (room - 1) (c :: s)).map
      fun (js, r) => (container room (.arr js), r) := by
  rw [readValue, skipSpace_cons (by decide)]
  simp only [skipSpace_cons hspace]
  split
  · rename_i heq
    exact absurd (List.cons.inj heq).1 hne
  · rfl

section

variable {fuel room : Nat} {j : Json} {r s : List Char} (k : String)

theorem readMembers_last (h : readValue fuel room s = some (j, '}' :: r)) :
    readMembers (fuel + 1) room (quoted k ++ ':' :: s) = some ([(some k, j)], r) := by
  rw [quoted_append, readMembers, skipSpace_cons (by decide)]
  simp only [readString_quoted, skipSpace_cons (show isSpace ':' = false by decide), h]
  rfl

theorem readMembers_more (h : readValue fuel room s = some (j, ',' :: r))
    {ms : List (Option String × Json)} {rest : List Char}
    (hmore : readMembers fuel room r = some (ms, rest)) :
    readMembers (fuel + 1) room (quoted k ++ ':' :: s) = some ((some k, j) :: ms, rest) := by
  rw [quoted_append, readMembers, skipSpace_cons (by decide)]
  simp only [readString_quoted, skipSpace_cons (show isSpace ':' = false by decide),
    skipSpace_cons (show isSpace ',' = false by decide), h, hmore, Option.map_some]

end

theorem readValue_brace (fuel room : Nat) (s : List Char) :
    readValue (fuel + 1) room ('{' :: '"' :: s) = (readMembers fuel (room - 1) ('"' :: s)).map
      fun (ms, r) => match allKeys ms with
        | some ms => (container room (.obj ms), r)
        | none => (.unreadable, r) := rfl

/-! ### Reading what is written -/

mutual
theorem readValue_render : ∀ (j : Json) (room fuel : Nat) (rest : List Char), Fits room j →
    (renderChars j).length < fuel → Closes rest →
    readValue fuel room (renderChars j ++ rest) = some (j, rest)
  | _, _, 0, _, _, hfuel, _ => absurd hfuel (Nat.not_lt_zero _)
  | .null, _, fuel + 1, rest, _, _, _ => rfl
  | .bool true, _, fuel + 1, rest, _, _, _ => rfl
  | .bool false, _, fuel + 1, rest, _, _, _ => rfl
  | .str s, room, fuel + 1, rest, _, _, _ => readValue_str fuel room s rest
  | .num (.int n), room, fuel + 1, rest, hfits, _, hrest => by
    obtain ⟨c, s, hcs, hstart⟩ := exists_start_int n
    have hnumber := readNumber_int hfits hrest
    rw [renderChars]
    rw [hcs] at hnumber ⊢
    rw [List.cons_append, readValue_number hstart]
    exact hnumber
  | .num (.float _), _, _, _, hfits, _, _ => hfits.elim
  | .unreadable, _, _, _, hfits, _, _ => hfits.elim
  | .arr [], room, fuel + 1, rest, hfits, _, _ => by
    have hread : readValue (fuel + 1) room ('[' :: ']' :: rest) =
        some (container room (.arr []), rest) := rfl
    rw [container_of_pos hfits.1] at hread
    exact hread
  | .arr (j :: js), room, fuel + 1, rest, hfits, hfuel, _ => by
    obtain ⟨hroom, hitems⟩ := hfits
    obtain ⟨c, s, hcs, hspace, hne⟩ := exists_start hitems.1
    obtain ⟨t, ht⟩ := exists_renderItems j js
    have hshorter : (renderItems (j :: js)).length + 1 < fuel := by
      simp only [renderChars, List.length_append, List.length_cons, List.length_nil] at hfuel
      omega
    have hread := readItems_render (j :: js) (room - 1) fuel rest (List.cons_ne_nil _ _) hitems hshorter
    have htext : renderChars (.arr (j :: js)) ++ rest = '[' :: (renderItems (j :: js) ++ ']' :: rest) := by
      rw [renderChars, List.append_assoc, List.cons_append, List.singleton_append]
    rw [ht, hcs] at htext hread
    rw [htext, List.cons_append, List.cons_append, readValue_bracket hspace hne]
    rw [List.cons_append, List.cons_append] at hread
    simp only [hread, Option.map_some, container_of_pos hroom]
  | .obj [], room, fuel + 1, rest, hfits, _, _ => by
    have hread : readValue (fuel + 1) room ('{' :: '}' :: rest) =
        some (container room (.obj []), rest) := rfl
    rw [container_of_pos hfits.1] at hread
    exact hread
  | .obj (m :: ms), room, fuel + 1, rest, hfits, hfuel, _ => by
    obtain ⟨hroom, hmembers⟩ := hfits
    obtain ⟨t, ht⟩ := exists_renderMembers m ms
    have hshorter : (renderMembers (m :: ms)).length + 1 < fuel := by
      simp only [renderChars, List.length_append, List.length_cons, List.length_nil] at hfuel
      omega
    have hread := readMembers_render (m :: ms) (room - 1) fuel rest (List.cons_ne_nil _ _) hmembers
      hshorter
    have htext : renderChars (.obj (m :: ms)) ++ rest =
        '{' :: (renderMembers (m :: ms) ++ '}' :: rest) := by
      rw [renderChars, List.append_assoc, List.cons_append, List.singleton_append]
    rw [ht, List.cons_append] at htext hread
    rw [htext, readValue_brace]
    simp only [hread, Option.map_some, allKeys_given, container_of_pos hroom]

theorem readItems_render : ∀ (js : List Json) (room fuel : Nat) (rest : List Char), js ≠ [] →
    FitsItems room js → (renderItems js).length + 1 < fuel →
    readItems fuel room (renderItems js ++ ']' :: rest) = some (js, rest)
  | _, _, 0, _, _, _, hfuel => absurd hfuel (Nat.not_lt_zero _)
  | [], _, _, _, hne, _, _ => absurd rfl hne
  | [j], room, fuel + 1, rest, _, hfits, hfuel => by
    have hread := readValue_render j room fuel (']' :: rest) hfits.1 (Nat.lt_of_succ_lt_succ hfuel)
      (.bracket rest)
    rw [renderItems, readItems, hread]
    rfl
  | j :: k :: js, room, fuel + 1, rest, _, hfits, hfuel => by
    have htext : renderItems (j :: k :: js) = renderChars j ++ ',' :: renderItems (k :: js) := rfl
    rw [htext, List.length_append, List.length_cons] at hfuel
    have hread := readValue_render j room fuel (',' :: (renderItems (k :: js) ++ ']' :: rest)) hfits.1
      (by omega) (.comma _)
    have hmore := readItems_render (k :: js) room fuel rest (List.cons_ne_nil _ _) hfits.2 (by omega)
    rw [htext, List.append_assoc, List.cons_append, readItems, hread]
    simp only [skipSpace_cons (show isSpace ',' = false by decide), hmore, Option.map_some]

theorem readMembers_render : ∀ (ms : List (String × Json)) (room fuel : Nat) (rest : List Char),
    ms ≠ [] → FitsMembers room ms → (renderMembers ms).length + 1 < fuel →
    readMembers fuel room (renderMembers ms ++ '}' :: rest) =
      some (ms.map fun m => (some m.1, m.2), rest)
  | _, _, 0, _, _, _, hfuel => absurd hfuel (Nat.not_lt_zero _)
  | [], _, _, _, hne, _, _ => absurd rfl hne
  | [(k, j)], room, fuel + 1, rest, _, hfits, hfuel => by
    have htext : renderMembers [(k, j)] = quoted k ++ ':' :: renderChars j := rfl
    rw [htext, List.length_append, List.length_cons] at hfuel
    have hread := readValue_render j room fuel ('}' :: rest) hfits.1 (by omega) (.brace rest)
    rw [htext, List.append_assoc, List.cons_append]
    exact readMembers_last k hread
  | (k, j) :: m :: ms, room, fuel + 1, rest, _, hfits, hfuel => by
    have htext : renderMembers ((k, j) :: m :: ms) =
        quoted k ++ ':' :: renderChars j ++ ',' :: renderMembers (m :: ms) := rfl
    simp only [htext, List.length_append, List.length_cons] at hfuel
    have hread := readValue_render j room fuel (',' :: (renderMembers (m :: ms) ++ '}' :: rest))
      hfits.1 (by omega) (.comma _)
    have hmore := readMembers_render (m :: ms) room fuel rest (List.cons_ne_nil _ _) hfits.2
      (by omega)
    rw [htext, List.append_assoc, List.append_assoc, List.cons_append, List.cons_append]
    exact readMembers_more k hread hmore
end

/-! ### Whole texts -/

theorem parse_render {j : Json} (h : Fits maxNesting j) : parse j.render = some j := by
  have hread := readValue_render j maxNesting (2 * (renderChars j).length + 2) [] h (by omega) .nil
  rw [List.append_nil] at hread
  rw [parse, render, String.toList_ofList, parseChars, hread]
  rfl

def Printable (s : List Char) : Prop := ∀ c ∈ s, 32 ≤ c.toNat

theorem printable_of_all {s : List Char} (h : s.all (fun c => 32 ≤ c.toNat) = true) : Printable s :=
  fun c hc => of_decide_eq_true (List.all_eq_true.mp h c hc)

theorem Printable.append {s t : List Char} (hs : Printable s) (ht : Printable t) :
    Printable (s ++ t) := fun c hc => (List.mem_append.mp hc).elim (hs c) (ht c)

theorem Printable.cons {c : Char} {s : List Char} (hc : 32 ≤ c.toNat) (hs : Printable s) :
    Printable (c :: s) := List.forall_mem_cons.mpr ⟨hc, hs⟩

theorem Printable.nil : Printable [] := List.forall_mem_nil _

theorem printable_quoted (s : String) : Printable (quoted s) := fun _ hc => le_of_mem_quoted hc

theorem printable_int (n : Int) : Printable (Number.render (.int n)) := by
  have hfigures : Printable (Numeral.decimal n.natAbs) := by
    intro c hc
    have hfigure := Numeral.isFigure_iff.mp (Numeral.isFigure_of_mem_decimal hc)
    exact Nat.le_trans (by decide) hfigure.1
  rw [render_int, signed]
  split
  · exact .cons (by decide) hfigures
  · exact hfigures

mutual
theorem printable_render : ∀ {room : Nat} (j : Json), Fits room j → Printable (renderChars j)
  | _, .null, _ | _, .bool true, _ | _, .bool false, _ => printable_of_all rfl
  | _, .str s, _ => printable_quoted s
  | _, .num (.int n), _ => printable_int n
  | _, .arr items, hfits =>
    ((printable_items items hfits.2).cons (by decide)).append (.cons (by decide) .nil)
  | _, .obj members, hfits =>
    ((printable_members members hfits.2).cons (by decide)).append (.cons (by decide) .nil)

theorem printable_items : ∀ {room : Nat} (js : List Json), FitsItems room js →
    Printable (renderItems js)
  | _, [], _ => .nil
  | _, [j], hfits => printable_render j hfits.1
  | _, j :: k :: js, hfits =>
    (printable_render j hfits.1).append ((printable_items (k :: js) hfits.2).cons (by decide))

theorem printable_members : ∀ {room : Nat} (ms : List (String × Json)), FitsMembers room ms →
    Printable (renderMembers ms)
  | _, [], _ => .nil
  | _, [(k, j)], hfits =>
    (printable_quoted k).append ((printable_render j hfits.1).cons (by decide))
  | _, (k, j) :: m :: ms, hfits =>
    ((printable_quoted k).append ((printable_render j hfits.1).cons (by decide))).append
      ((printable_members (m :: ms) hfits.2).cons (by decide))
end

mutual
theorem readable_of_fits : ∀ {room : Nat} (j : Json), Fits room j → j.readable = true
  | _, .null, _ | _, .bool _, _ | _, .str _, _ | _, .num (.int _), _ => rfl
  | _, .arr items, hfits => readableItems_of_fits items hfits.2
  | _, .obj members, hfits => readableMembers_of_fits members hfits.2

theorem readableItems_of_fits : ∀ {room : Nat} (js : List Json), FitsItems room js →
    readableItems js = true
  | _, [], _ => rfl
  | _, j :: js, hfits => by
    rw [readableItems, readable_of_fits j hfits.1, readableItems_of_fits js hfits.2, Bool.and_true]

theorem readableMembers_of_fits : ∀ {room : Nat} (ms : List (String × Json)), FitsMembers room ms →
    readableMembers ms = true
  | _, [], _ => rfl
  | _, (_, j) :: ms, hfits => by
    rw [readableMembers, readable_of_fits j hfits.1, readableMembers_of_fits ms hfits.2, Bool.and_true]
end

end TokenAudit.Json
