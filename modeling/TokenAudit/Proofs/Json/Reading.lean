import Mathlib.Data.List.DropRight
import TokenAudit.Proofs.Json.Grammar

/-! The reader and the grammar agree: a text reads as what its tree denotes, if it has one, and as
nothing otherwise. A free value needs moreover that all parts of the tree lie within the limits. -/

namespace TokenAudit.Json

def spelled? (ps : List Piece) : Option String := (joinPieces ps).map String.ofList

def Literal.value (l : Literal) : Json :=
  match l.number? with
  | some n => .num n
  | none => .unreadable

def textValue : Option String → Json
  | some s => .str s
  | none => .unreadable

def objectValue (room : Nat) (js : List (Option String × Json)) : Json :=
  match allKeys js with
  | some js => container room (.obj js)
  | none => .unreadable

mutual
/-- The value of a tree, where there is room for so many nestings. -/
def Tree.denote : Nat → Tree → Json
  | _, .null => .null
  | _, .bool b => .bool b
  | _, .number l => l.value
  | _, .string ps => textValue (spelled? ps)
  | room, .array ts => container room (.arr (denoteItems (room - 1) ts))
  | room, .object ms => objectValue room (denoteMembers (room - 1) ms)

def denoteItems : Nat → List Tree → List Json
  | _, [] => []
  | room, t :: ts => t.denote room :: denoteItems room ts

def denoteMembers : Nat → List (List Piece × Tree) → List (Option String × Json)
  | _, [] => []
  | room, (key, t) :: ms => (spelled? key, t.denote room) :: denoteMembers room ms
end

/-! ### What is read is spelled -/

def ReadsValues (fuel : Nat) : Prop := ∀ room s j r, readValue fuel room s = some (j, r) →
  ∃ t a u, Blank a ∧ s = a ++ (u ++ r) ∧ Spells (.value t) u ∧ j = t.denote room

def ReadsItems (fuel : Nat) : Prop := ∀ room s js r, readItems fuel room s = some (js, r) →
  ∃ ts u, s = u ++ ']' :: r ∧ Spells (.items ts) u ∧ js = denoteItems room ts

def ReadsMembers (fuel : Nat) : Prop := ∀ room s js r, readMembers fuel room s = some (js, r) →
  ∃ ms u, s = u ++ '}' :: r ∧ Spells (.members ms) u ∧ js = denoteMembers room ms

theorem readNumber_eq (s : List Char) :
    readNumber s = (readLiteral s).map fun (l, r) => (l.value, r) := by
  unfold readNumber
  apply congrArg (Option.map · (readLiteral s))
  funext ⟨l, r⟩
  dsimp only [Literal.value]
  cases l.number? <;> rfl

theorem readString_sound {s r : List Char} {t : Option String} (h : readString s = some (t, r)) :
    ∃ ps u, s = u ++ '"' :: r ∧ SpellsPieces ps u ∧ t = spelled? ps := by
  obtain ⟨⟨ps, r'⟩, hread, hpieces⟩ := Option.map_eq_some_iff.mp h
  cases hpieces
  obtain ⟨u, hs, hu⟩ := readPieces_sound hread
  exact ⟨ps, u, hs, hu, rfl⟩

theorem skipSpace_skipSpace (s : List Char) : skipSpace (skipSpace s) = skipSpace s :=
  List.dropWhile_idempotent isSpace s

theorem readValue_skipSpace (fuel room : Nat) (s : List Char) :
    readValue fuel room (skipSpace s) = readValue fuel room s := by
  cases fuel with
  | zero => rfl
  | succ fuel => rw [readValue, readValue, skipSpace_skipSpace]

theorem readItems_skipSpace (fuel room : Nat) (s : List Char) :
    readItems fuel room (skipSpace s) = readItems fuel room s := by
  cases fuel with
  | zero => rfl
  | succ fuel => rw [readItems, readItems, readValue_skipSpace]

theorem readMembers_skipSpace (fuel room : Nat) (s : List Char) :
    readMembers fuel room (skipSpace s) = readMembers fuel room s := by
  cases fuel with
  | zero => rfl
  | succ fuel => rw [readMembers, readMembers, skipSpace_skipSpace]

theorem enclosed_append (c d : Char) (u r : List Char) :
    c :: (u ++ [d]) ++ r = c :: (u ++ d :: r) := by
  rw [List.cons_append, List.append_assoc, List.singleton_append]

theorem readsValues_succ {fuel : Nat} (hi : ReadsItems fuel) (hm : ReadsMembers fuel) :
    ReadsValues (fuel + 1) := by
  intro room s j r h
  obtain ⟨a, ha, hs⟩ := exists_blank s
  -- The blanks before a value are passed over; from here on its first character decides.
  suffices hvalue : ∃ t u, skipSpace s = u ++ r ∧ Spells (.value t) u ∧ j = t.denote room by
    obtain ⟨t, u, hu, hspells, hj⟩ := hvalue
    exact ⟨t, a, u, ha, by rw [← hu, ← hs], hspells, hj⟩
  rw [readValue] at h
  generalize skipSpace s = v at h
  split at h
  · cases h
    exact ⟨.null, _, rfl, .null, rfl⟩
  · cases h
    exact ⟨.bool true, _, rfl, .boolTrue, rfl⟩
  · cases h
    exact ⟨.bool false, _, rfl, .boolFalse, rfl⟩
  · obtain ⟨⟨t, r'⟩, hread, hj⟩ := Option.map_eq_some_iff.mp h
    obtain ⟨ps, u, rfl, hu, rfl⟩ := readString_sound hread
    have hpair : (textValue (spelled? ps), r') = (j, r) := by
      rw [← hj]
      cases spelled? ps <;> rfl
    cases hpair
    exact ⟨.string ps, '"' :: (u ++ ['"']), (enclosed_append ..).symm, .string hu, rfl⟩
  · rename_i w
    obtain ⟨a, ha, hw⟩ := exists_blank w
    split at h
    · rename_i hclose
      cases h
      rw [hclose] at hw
      exact ⟨.array [], '[' :: (a ++ [']']), by rw [enclosed_append, hw], .emptyArray ha, rfl⟩
    · obtain ⟨⟨js, r'⟩, hread, hj⟩ := Option.map_eq_some_iff.mp h
      cases hj
      rw [readItems_skipSpace] at hread
      obtain ⟨ts, u, rfl, hu, rfl⟩ := hi _ _ _ _ hread
      exact ⟨.array ts, '[' :: (u ++ [']']), (enclosed_append ..).symm, .array hu, rfl⟩
  · rename_i w
    obtain ⟨a, ha, hw⟩ := exists_blank w
    split at h
    · rename_i hclose
      cases h
      rw [hclose] at hw
      exact ⟨.object [], '{' :: (a ++ ['}']), by rw [enclosed_append, hw], .emptyObject ha, rfl⟩
    · obtain ⟨⟨js, r'⟩, hread, hj⟩ := Option.map_eq_some_iff.mp h
      rw [readMembers_skipSpace] at hread
      obtain ⟨ms, u, rfl, hu, rfl⟩ := hm _ _ _ _ hread
      have hpair : (objectValue room (denoteMembers (room - 1) ms), r') = (j, r) := by
        rw [← hj, objectValue]
        dsimp only
        cases allKeys (denoteMembers (room - 1) ms) <;> rfl
      cases hpair
      exact ⟨.object ms, '{' :: (u ++ ['}']), (enclosed_append ..).symm, .object hu, rfl⟩
  · rw [readNumber_eq] at h
    obtain ⟨⟨l, r'⟩, hread, hj⟩ := Option.map_eq_some_iff.mp h
    cases hj
    obtain ⟨u, rfl, hu⟩ := readLiteral_sound hread
    exact ⟨.number l, u, rfl, .number hu, rfl⟩

theorem readsItems_succ {fuel : Nat} (hv : ReadsValues fuel) (hi : ReadsItems fuel) :
    ReadsItems (fuel + 1) := by
  intro room s js r h
  rw [readItems] at h
  split at h
  · cases h
  · rename_i j t hread
    obtain ⟨tree, a, u, ha, rfl, hu, rfl⟩ := hv _ _ _ _ hread
    obtain ⟨b, hb, ht⟩ := exists_blank t
    have helement : Spells (.element tree) (a ++ (u ++ b)) := .element ha hu hb
    split at h
    · rename_i w hcomma
      obtain ⟨⟨ks, r'⟩, hmore, hks⟩ := Option.map_eq_some_iff.mp h
      cases hks
      obtain ⟨ts, v, rfl, hts, rfl⟩ := hi _ _ _ _ hmore
      rw [hcomma] at ht
      refine ⟨tree :: ts, _, ?_, .item helement hts, rfl⟩
      rw [ht]
      simp only [List.append_assoc, List.cons_append]
    · rename_i w hclose
      cases h
      rw [hclose] at ht
      refine ⟨[tree], _, ?_, .lastItem helement, rfl⟩
      rw [ht]
      simp only [List.append_assoc]
    · cases h

theorem readsMembers_succ {fuel : Nat} (hv : ReadsValues fuel) (hm : ReadsMembers fuel) :
    ReadsMembers (fuel + 1) := by
  intro room s js r h
  obtain ⟨a, ha, hs⟩ := exists_blank s
  rw [readMembers] at h
  split at h
  · rename_i w hquote
    rw [hquote] at hs
    split at h
    · cases h
    · rename_i key t hkey
      obtain ⟨ps, k, rfl, hk, rfl⟩ := readString_sound hkey
      obtain ⟨b, hb, ht⟩ := exists_blank t
      split at h
      · rename_i v hcolon
        rw [hcolon] at ht
        split at h
        · cases h
        · rename_i j x hread
          obtain ⟨tree, c, u, hc, rfl, hu, rfl⟩ := hv _ _ _ _ hread
          obtain ⟨d, hd, hx⟩ := exists_blank x
          have hmember := Spells.member ha hk hb (.element hc hu hd)
          split at h
          · rename_i y hcomma
            obtain ⟨⟨ks, r'⟩, hmore, hks⟩ := Option.map_eq_some_iff.mp h
            cases hks
            obtain ⟨ms, z, rfl, hms, rfl⟩ := hm _ _ _ _ hmore
            rw [hcomma] at hx
            refine ⟨(ps, tree) :: ms, _, ?_, .moreMembers hmember hms, rfl⟩
            rw [hs, ht, hx]
            simp only [List.append_assoc, List.cons_append]
          · rename_i y hclose
            cases h
            rw [hclose] at hx
            refine ⟨[(ps, tree)], _, ?_, .lastMember hmember, rfl⟩
            rw [hs, ht, hx]
            simp only [List.append_assoc, List.cons_append]
          · cases h
      · cases h
  · cases h

theorem reads (fuel : Nat) : ReadsValues fuel ∧ ReadsItems fuel ∧ ReadsMembers fuel := by
  induction fuel with
  | zero =>
    refine ⟨?_, ?_, ?_⟩
    · intro room s j r h
      cases h
    · intro room s js r h
      cases h
    · intro room s js r h
      cases h
  | succ fuel ih =>
    obtain ⟨hv, hi, hm⟩ := ih
    exact ⟨readsValues_succ hi hm, readsItems_succ hv hi, readsMembers_succ hv hm⟩

/-! ### What is spelled is read -/

def Part.Read : Part → List Char → Prop
  | .value t, s => ∀ room fuel a rest, s.length < fuel → Blank a → Follows rest →
    readValue fuel room (a ++ (s ++ rest)) = some (t.denote room, rest)
  | .element t, s => ∀ room fuel rest, s.length < fuel → Follows rest →
    ∃ b, Blank b ∧ readValue fuel room (s ++ rest) = some (t.denote room, b ++ rest)
  | .items ts, s => ∀ room fuel rest, s.length + 1 < fuel →
    readItems fuel room (s ++ ']' :: rest) = some (denoteItems room ts, rest)
  | .member key t, s => ∀ room fuel rest, s.length < fuel →
    readMembers (fuel + 1) room (s ++ '}' :: rest) = some ([(spelled? key, t.denote room)], rest) ∧
    readMembers (fuel + 1) room (s ++ ',' :: rest) =
      (readMembers fuel room rest).map fun (js, r) => ((spelled? key, t.denote room) :: js, r)
  | .members ms, s => ∀ room fuel rest, s.length + 1 < fuel →
    readMembers fuel room (s ++ '}' :: rest) = some (denoteMembers room ms, rest)

theorem Spells.value_cons {t : Tree} {s : List Char} (h : Spells (.value t) s) :
    ∃ c u, s = c :: u ∧ isSpace c = false ∧ c ≠ ']' := by
  cases h with
  | null | boolTrue | boolFalse | string | emptyArray | array | emptyObject | object =>
    exact ⟨_, _, rfl, by decide, by decide⟩
  | number h =>
    obtain ⟨c, u, rfl, hstart⟩ := h.exists_cons
    refine ⟨c, u, rfl, isSpace_of_startsNumber hstart, ?_⟩
    rintro rfl
    cases hstart

theorem skipSpace_blank_cons {a : List Char} (ha : Blank a) {c : Char} (hc : isSpace c = false)
    (s : List Char) : skipSpace (a ++ c :: s) = c :: s := by
  rw [skipSpace_append ha, skipSpace_cons hc]

theorem Spells.items_cons {ts : List Tree} {s : List Char} (h : Spells (.items ts) s) :
    ∃ c u, (∀ rest, skipSpace (s ++ rest) = c :: (u ++ rest)) ∧ c ≠ ']' := by
  have helement : ∀ {t : Tree} {s : List Char}, Spells (.element t) s →
      ∃ c u, (∀ rest, skipSpace (s ++ rest) = c :: (u ++ rest)) ∧ c ≠ ']' := by
    intro t s h
    cases h with
    | element ha h hb =>
      rename_i a v b
      obtain ⟨c, u, rfl, hspace, hne⟩ := h.value_cons
      refine ⟨c, u ++ b, fun rest => ?_, hne⟩
      have htext : a ++ (c :: u ++ b) ++ rest = a ++ c :: (u ++ b ++ rest) := by simp
      rw [htext, skipSpace_blank_cons ha hspace]
  cases h with
  | lastItem h => exact helement h
  | item h _ =>
    rename_i s v _
    obtain ⟨c, u, hskip, hne⟩ := helement h
    refine ⟨c, u ++ ',' :: v, fun rest => ?_, hne⟩
    rw [List.append_assoc, hskip, List.append_assoc]

theorem Spells.members_cons {ms : List (List Piece × Tree)} {s : List Char}
    (h : Spells (.members ms) s) : ∃ u, ∀ rest, skipSpace (s ++ rest) = '"' :: (u ++ rest) := by
  have hmember : ∀ {key : List Piece} {t : Tree} {s : List Char}, Spells (.member key t) s →
      ∃ u, ∀ rest, skipSpace (s ++ rest) = '"' :: (u ++ rest) := by
    intro key t s h
    cases h with
    | member ha hk hb h =>
      rename_i a k b v
      refine ⟨k ++ '"' :: (b ++ ':' :: v), fun rest => ?_⟩
      rw [List.append_assoc, List.cons_append, skipSpace_blank_cons ha (by decide)]
  cases h with
  | lastMember h => exact hmember h
  | moreMembers h _ =>
    rename_i s v _
    obtain ⟨u, hskip⟩ := hmember h
    refine ⟨u ++ ',' :: v, fun rest => ?_⟩
    rw [List.append_assoc, hskip, List.append_assoc]

theorem readString_complete {ps : List Piece} {s : List Char} (h : SpellsPieces ps s)
    (rest : List Char) : readString (s ++ '"' :: rest) = some (spelled? ps, rest) := by
  rw [readString, readPieces_complete h]
  rfl

theorem readValue_blank (fuel room : Nat) {a : List Char} (ha : Blank a) (s : List Char) :
    readValue fuel room (a ++ s) = readValue fuel room s := by
  rw [← readValue_skipSpace, skipSpace_append ha, readValue_skipSpace]

theorem readValue_string (fuel room : Nat) {ps : List Piece} {s : List Char}
    (h : SpellsPieces ps s) (rest : List Char) :
    readValue (fuel + 1) room ('"' :: (s ++ '"' :: rest)) = some (textValue (spelled? ps), rest) := by
  rw [readValue, skipSpace_cons (by decide)]
  simp only [readString_complete h, Option.map_some]
  cases spelled? ps <;> rfl

theorem readValue_items (fuel room : Nat) {ts : List Tree} {s : List Char}
    (h : Spells (.items ts) s) (rest : List Char) :
    readValue (fuel + 1) room ('[' :: (s ++ rest)) = (readItems fuel (room - 1) (s ++ rest)).map
      fun (js, r) => (container room (.arr js), r) := by
  obtain ⟨c, u, hskip, hne⟩ := h.items_cons
  rw [readValue, skipSpace_cons (by decide)]
  simp only [hskip]
  split
  · rename_i hclose
    exact absurd (List.cons.inj hclose).1 hne
  · rw [← hskip, readItems_skipSpace]

theorem readValue_members (fuel room : Nat) {ms : List (List Piece × Tree)} {s : List Char}
    (h : Spells (.members ms) s) (rest : List Char) :
    readValue (fuel + 1) room ('{' :: (s ++ rest)) = (readMembers fuel (room - 1) (s ++ rest)).map
      fun (js, r) => (objectValue room js, r) := by
  obtain ⟨u, hskip⟩ := h.members_cons
  rw [readValue, skipSpace_cons (by decide)]
  simp only [hskip]
  split
  · rename_i hclose
    exact absurd (List.cons.inj hclose).1 (by decide)
  · rw [← hskip, readMembers_skipSpace]
    apply congrArg (Option.map · (readMembers fuel (room - 1) (s ++ rest)))
    funext ⟨js, r⟩
    dsimp only [objectValue]
    cases allKeys js <;> rfl

theorem readValue_emptyArray (fuel room : Nat) {a : List Char} (ha : Blank a) (rest : List Char) :
    readValue (fuel + 1) room ('[' :: (a ++ ']' :: rest)) = some (container room (.arr []), rest) := by
  rw [readValue, skipSpace_cons (by decide)]
  simp only [skipSpace_blank_cons ha (show isSpace ']' = false by decide)]

theorem readValue_emptyObject (fuel room : Nat) {a : List Char} (ha : Blank a) (rest : List Char) :
    readValue (fuel + 1) room ('{' :: (a ++ '}' :: rest)) = some (container room (.obj []), rest) := by
  rw [readValue, skipSpace_cons (by decide)]
  simp only [skipSpace_blank_cons ha (show isSpace '}' = false by decide)]

section

variable {fuel room : Nat} {key : List Piece} {a k b s c : List Char} {j : Json} (r : List Char)
variable (ha : Blank a) (hk : SpellsPieces key k) (hb : Blank b) (hc : Blank c)

include ha hk hb hc

theorem readMembers_close (h : readValue fuel room s = some (j, c ++ '}' :: r)) :
    readMembers (fuel + 1) room (a ++ '"' :: (k ++ '"' :: (b ++ ':' :: s))) =
      some ([(spelled? key, j)], r) := by
  rw [readMembers, skipSpace_blank_cons ha (by decide)]
  simp only [readString_complete hk, skipSpace_blank_cons hb (show isSpace ':' = false by decide), h,
    skipSpace_blank_cons hc (show isSpace '}' = false by decide)]

theorem readMembers_comma (h : readValue fuel room s = some (j, c ++ ',' :: r)) :
    readMembers (fuel + 1) room (a ++ '"' :: (k ++ '"' :: (b ++ ':' :: s))) =
      (readMembers fuel room r).map fun (js, r) => ((spelled? key, j) :: js, r) := by
  rw [readMembers, skipSpace_blank_cons ha (by decide)]
  simp only [readString_complete hk, skipSpace_blank_cons hb (show isSpace ':' = false by decide), h,
    skipSpace_blank_cons hc (show isSpace ',' = false by decide)]

end

theorem Spells.read {p : Part} {s : List Char} (h : Spells p s) : p.Read s := by
  have hvalue : ∀ {t : Tree} {s : List Char}, (∀ room fuel rest, s.length < fuel + 1 → Follows rest →
      readValue (fuel + 1) room (s ++ rest) = some (t.denote room, rest)) → (Part.value t).Read s := by
    intro t s hread room fuel a rest hfuel ha hrest
    obtain ⟨fuel, rfl⟩ := Nat.exists_eq_succ_of_ne_zero (Nat.ne_of_gt (Nat.zero_lt_of_lt hfuel))
    rw [readValue_blank _ _ ha]
    exact hread room fuel rest hfuel hrest
  -- Each part is read with any rest behind it that may follow the part.
  induction h with
  | null => exact hvalue fun _ _ _ _ _ => rfl
  | boolTrue => exact hvalue fun _ _ _ _ _ => rfl
  | boolFalse => exact hvalue fun _ _ _ _ _ => rfl
  | number h =>
    apply hvalue
    intro room fuel rest _ hrest
    obtain ⟨c, u, rfl, hstart⟩ := h.exists_cons
    have hread := readLiteral_complete h hrest
    rw [List.cons_append] at hread ⊢
    rw [readValue_number hstart, readNumber_eq, hread]
    rfl
  | string h =>
    apply hvalue
    intro room fuel rest _ _
    rw [enclosed_append, readValue_string _ _ h]
    rfl
  | emptyArray ha =>
    apply hvalue
    intro room fuel rest _ _
    rw [enclosed_append, readValue_emptyArray _ _ ha]
    rfl
  | array h ih =>
    apply hvalue
    intro room fuel rest hfuel _
    simp only [List.length_cons, List.length_append, List.length_nil] at hfuel
    rw [enclosed_append, readValue_items _ _ h, ih (room - 1) fuel rest (by omega)]
    rfl
  | emptyObject ha =>
    apply hvalue
    intro room fuel rest _ _
    rw [enclosed_append, readValue_emptyObject _ _ ha]
    rfl
  | object h ih =>
    apply hvalue
    intro room fuel rest hfuel _
    simp only [List.length_cons, List.length_append, List.length_nil] at hfuel
    rw [enclosed_append, readValue_members _ _ h, ih (room - 1) fuel rest (by omega)]
    rfl
  | element ha h hb ih =>
    rename_i a s b
    intro room fuel rest hfuel hrest
    simp only [List.length_append] at hfuel
    refine ⟨b, hb, ?_⟩
    rw [List.append_assoc, List.append_assoc]
    exact ih room fuel a (b ++ rest) (by omega) ha (hrest.append hb)
  | lastItem h ih =>
    intro room fuel rest hfuel
    obtain ⟨fuel, rfl⟩ := Nat.exists_eq_succ_of_ne_zero (Nat.ne_of_gt (Nat.zero_lt_of_lt hfuel))
    obtain ⟨b, hb, hread⟩ := ih room fuel (']' :: rest) (by omega) (follows_cons (by decide) rest)
    rw [readItems, hread]
    simp only [skipSpace_blank_cons hb (show isSpace ']' = false by decide)]
    rfl
  | item h hs ih ihs =>
    rename_i s u
    intro room fuel rest hfuel
    obtain ⟨fuel, rfl⟩ := Nat.exists_eq_succ_of_ne_zero (Nat.ne_of_gt (Nat.zero_lt_of_lt hfuel))
    simp only [List.length_append, List.length_cons] at hfuel
    obtain ⟨b, hb, hread⟩ := ih room fuel (',' :: (u ++ ']' :: rest)) (by omega)
      (follows_cons (by decide) _)
    rw [List.append_assoc, List.cons_append, readItems, hread]
    simp only [skipSpace_blank_cons hb (show isSpace ',' = false by decide),
      ihs room fuel rest (by omega)]
    rfl
  | member ha hk hb h ih =>
    rename_i a k b s
    intro room fuel rest hfuel
    simp only [List.length_append, List.length_cons] at hfuel
    have hread : ∀ {d : Char}, d ∈ [',', ']', '}'] → ∃ c, Blank c ∧
        readValue fuel room (s ++ d :: rest) = some (_, c ++ d :: rest) :=
      fun hd => ih room fuel _ (by omega) (follows_cons hd rest)
    have htext : ∀ d : Char, a ++ '"' :: (k ++ '"' :: (b ++ ':' :: s)) ++ d :: rest =
        a ++ '"' :: (k ++ '"' :: (b ++ ':' :: (s ++ d :: rest))) := by
      intro d
      simp only [List.append_assoc, List.cons_append]
    constructor
    · obtain ⟨c, hc, hclose⟩ := hread (d := '}') (by decide)
      rw [htext, readMembers_close rest ha hk hb hc hclose]
    · obtain ⟨c, hc, hcomma⟩ := hread (d := ',') (by decide)
      rw [htext, readMembers_comma rest ha hk hb hc hcomma]
  | lastMember h ih =>
    intro room fuel rest hfuel
    obtain ⟨fuel, rfl⟩ := Nat.exists_eq_succ_of_ne_zero (Nat.ne_of_gt (Nat.zero_lt_of_lt hfuel))
    exact (ih room fuel rest (by omega)).1
  | moreMembers h hs ih ihs =>
    intro room fuel rest hfuel
    obtain ⟨fuel, rfl⟩ := Nat.exists_eq_succ_of_ne_zero (Nat.ne_of_gt (Nat.zero_lt_of_lt hfuel))
    simp only [List.length_append, List.length_cons] at hfuel
    rw [List.append_assoc, List.cons_append, (ih room fuel _ (by omega)).2,
      ihs room fuel rest (by omega)]
    rfl

/-! ### Whole texts -/

theorem parseChars_iff {s : List Char} {j : Json} :
    parseChars s = some j ↔ ∃ t : Tree, t.Text s ∧ j = t.denote maxNesting := by
  constructor
  · intro h
    unfold parseChars at h
    split at h
    · rename_i j' r hread
      obtain ⟨hv, -, -⟩ := reads (2 * s.length + 2)
      obtain ⟨t, a, u, ha, hs, hu, rfl⟩ := hv _ _ _ _ hread
      split at h
      · rename_i hend
        cases h
        have hr : Blank r := blank_of_skipSpace (List.isEmpty_iff.mp hend)
        exact ⟨t, hs ▸ .element ha hu hr, rfl⟩
      · cases h
    · cases h
  · rintro ⟨t, ht, rfl⟩
    have hread := ht.read maxNesting (2 * s.length + 2) [] (by omega) follows_nil
    obtain ⟨b, hb, hread⟩ := hread
    rw [List.append_nil, List.append_nil] at hread
    have hend : skipSpace b = [] := List.dropWhile_eq_nil_iff.mpr hb
    rw [parseChars, hread]
    simp only [hend, List.isEmpty_nil, if_true]

end TokenAudit.Json
