import Mathlib.Data.String.Basic
import TokenAudit.Proofs.Json.Numbers
import TokenAudit.Proofs.Json.Reading

/-! Free values: which trees lie within the limits of the reader, and what a sorted record has under a
key that its text may have several times. -/

namespace TokenAudit.Json

/-! ### Limits -/

/-- Code units that are halves of surrogates stand in pairs. -/
inductive Paired : List Piece → Prop where
  | nil : Paired []
  | char {c ps} (h : Paired ps) : Paired (.char c :: ps)
  | unit {n ps} (hhigh : isHigh n = false) (hlow : isLow n = false) (h : Paired ps) : Paired (.unit n :: ps)
  | pair {n m ps} (hhigh : isHigh n = true) (hlow : isLow m = true) (h : Paired ps) :
    Paired (.unit n :: .unit m :: ps)

theorem spelled?_ne_none_iff (ps : List Piece) : spelled? ps ≠ none ↔ Paired ps := by
  rw [spelled?, ne_eq, Option.map_eq_none_iff]
  fun_induction joinPieces ps with
  | case1 => exact iff_of_true (Option.some_ne_none _) .nil
  | case2 c ps ih =>
    rw [Option.map_eq_none_iff, ih]
    refine ⟨.char, ?_⟩
    rintro ⟨⟩
    assumption
  | case3 n m ps hpair ih =>
    rw [Bool.and_eq_true] at hpair
    rw [Option.map_eq_none_iff, ih]
    refine ⟨.pair hpair.1 hpair.2, fun h => ?_⟩
    cases h with
    | unit hhigh => rw [hpair.1] at hhigh; cases hhigh
    | pair _ _ h => exact h
  | case4 n m ps hpair hhalf =>
    refine iff_of_false (fun h => h rfl) fun h => ?_
    cases h with
    | unit hhigh hlow => simp [hhigh, hlow] at hhalf
    | pair hhigh hlow => simp [hhigh, hlow] at hpair
  | case5 n m ps hpair hwhole ih =>
    rw [Bool.not_eq_true, Bool.or_eq_false_iff] at hwhole
    rw [Option.map_eq_none_iff, ih]
    refine ⟨.unit hwhole.1 hwhole.2, fun h => ?_⟩
    cases h with
    | unit _ _ h => exact h
    | pair hhigh hlow => simp [hhigh, hlow] at hpair
  | case6 n ps hlast hhalf =>
    refine iff_of_false (fun h => h rfl) fun h => ?_
    cases h with
    | unit hhigh hlow => simp [hhigh, hlow] at hhalf
    | pair => exact hlast _ _ rfl
  | case7 n ps hlast hwhole ih =>
    rw [Bool.not_eq_true, Bool.or_eq_false_iff] at hwhole
    rw [Option.map_eq_none_iff, ih]
    refine ⟨.unit hwhole.1 hwhole.2, fun h => ?_⟩
    cases h with
    | unit _ _ h => exact h
    | pair => exact (hlast _ _ rfl).elim

mutual
/-- No part of a tree is beyond what is taken: there are no more nestings than there is room for, the
numbers stay within the doubles as they are scaled, and surrogates come in pairs. -/
def Tree.Within : Nat → Tree → Prop
  | _, .null => True
  | _, .bool _ => True
  | _, .number l => l.InRange
  | _, .string ps => Paired ps
  | room, .array ts => 0 < room ∧ WithinItems (room - 1) ts
  | room, .object ms => 0 < room ∧ WithinMembers (room - 1) ms

def WithinItems : Nat → List Tree → Prop
  | _, [] => True
  | room, t :: ts => t.Within room ∧ WithinItems room ts

def WithinMembers : Nat → List (List Piece × Tree) → Prop
  | _, [] => True
  | room, (key, t) :: ms => Paired key ∧ t.Within room ∧ WithinMembers room ms
end

theorem readable_value (l : Literal) : l.value.readable = true ↔ l.InRange := by
  rw [← l.number?_ne_none_iff, Literal.value]
  cases l.number? with
  | none => exact iff_of_false Bool.false_ne_true (fun h => h rfl)
  | some n => exact iff_of_true rfl nofun

theorem readable_textValue (t : Option String) : (textValue t).readable = true ↔ t ≠ none := by
  cases t with
  | none => exact iff_of_false Bool.false_ne_true (fun h => h rfl)
  | some s => exact iff_of_true rfl nofun

theorem readable_container (room : Nat) (j : Json) :
    (container room j).readable = true ↔ 0 < room ∧ j.readable = true := by
  rcases Nat.eq_zero_or_pos room with rfl | hroom
  · exact iff_of_false Bool.false_ne_true fun h => Nat.lt_irrefl 0 h.1
  · rw [container_of_pos hroom, and_iff_right hroom]

theorem readable_objectValue (room : Nat) (js : List (Option String × Json)) :
    (objectValue room js).readable = true ↔
      0 < room ∧ ∃ ms, allKeys js = some ms ∧ readableMembers ms = true := by
  rw [objectValue]
  cases allKeys js with
  | none =>
    refine iff_of_false Bool.false_ne_true ?_
    rintro ⟨-, ms, hms, -⟩
    cases hms
  | some ms =>
    simp only [readable_container, Option.some.injEq, exists_eq_left']
    rfl

theorem allKeys_cons_some (k : String) (j : Json) (js : List (Option String × Json)) :
    allKeys ((some k, j) :: js) = (allKeys js).map ((k, j) :: ·) := rfl

mutual
theorem readable_denote : ∀ (room : Nat) (t : Tree), (t.denote room).readable = true ↔ t.Within room
  | _, .null => iff_of_true rfl trivial
  | _, .bool _ => iff_of_true rfl trivial
  | _, .number l => readable_value l
  | _, .string ps => (readable_textValue (spelled? ps)).trans (spelled?_ne_none_iff ps)
  | room, .array ts => by
    rw [Tree.denote, readable_container, Tree.Within, ← readable_items]
    rfl
  | room, .object ms => by
    rw [Tree.denote, readable_objectValue, Tree.Within, ← readable_members]

theorem readable_items : ∀ (room : Nat) (ts : List Tree),
    readableItems (denoteItems room ts) = true ↔ WithinItems room ts
  | _, [] => iff_of_true rfl trivial
  | room, t :: ts => by
    rw [denoteItems, readableItems, Bool.and_eq_true, readable_denote, readable_items, WithinItems]

theorem readable_members : ∀ (room : Nat) (ms : List (List Piece × Tree)),
    (∃ js, allKeys (denoteMembers room ms) = some js ∧ readableMembers js = true) ↔
      WithinMembers room ms
  | _, [] => iff_of_true ⟨[], rfl, rfl⟩ trivial
  | room, (key, t) :: ms => by
    rw [denoteMembers, WithinMembers, ← readable_members room ms, ← readable_denote room t,
      ← spelled?_ne_none_iff]
    cases spelled? key with
    | none =>
      refine iff_of_false ?_ fun h => h.1 rfl
      rintro ⟨js, hjs, -⟩
      cases hjs
    | some k =>
      rw [allKeys_cons_some]
      constructor
      · rintro ⟨js, hjs, hreadable⟩
        obtain ⟨ks, hks, rfl⟩ := Option.map_eq_some_iff.mp hjs
        rw [readableMembers, Bool.and_eq_true] at hreadable
        exact ⟨nofun, hreadable.1, ks, hks, hreadable.2⟩
      · rintro ⟨-, ht, ks, hks, hreadable⟩
        refine ⟨(k, t.denote room) :: ks, ?_, ?_⟩
        · rw [hks]
          rfl
        · rw [readableMembers, ht, hreadable]
          rfl
end

def nested : Nat → Tree
  | 0 => .array []
  | n + 1 => .array [nested n]

theorem spells_nested (n : Nat) :
    Spells (.value (nested n)) (List.replicate (n + 1) '[' ++ List.replicate (n + 1) ']') := by
  have hblank : Blank [] := List.forall_mem_nil _
  induction n with
  | zero => exact .emptyArray hblank
  | succ n ih =>
    have hspelled := Spells.array (.lastItem (.element hblank ih hblank))
    rw [List.nil_append, List.append_nil] at hspelled
    rw [List.replicate_succ, List.replicate_succ' (n := n + 1), List.cons_append, ← List.append_assoc]
    exact hspelled

theorem within_nested (n room : Nat) : (nested n).Within room ↔ n < room := by
  induction n generalizing room with
  | zero => exact and_iff_left trivial
  | succ n ih =>
    rw [nested, Tree.Within, WithinItems, ih]
    simp only [WithinItems, and_true]
    omega

/-! ### Members of a sorted record -/

def Ordered (ms : List (String × Json)) : Prop := ms.Pairwise fun m n => m.1 < n.1

theorem get?_cons (k : String) (j : Json) (ms : List (String × Json)) (key : String) :
    (obj ((k, j) :: ms)).get? key =
      ((obj ms).get? key).or (if k = key then some j else none) := by
  rw [get?, get?, List.reverse_cons, List.find?_append]
  cases ms.reverse.find? fun m => m.1 = key with
  | some m => rfl
  | none =>
    by_cases h : k = key
    · simp [h]
    · simp [h]

theorem get?_eq_none {ms : List (String × Json)} {key : String} (h : ∀ m ∈ ms, m.1 ≠ key) :
    (obj ms).get? key = none := by
  rw [get?, Option.map_eq_none_iff, List.find?_eq_none]
  intro m hm
  simpa using h m (List.mem_reverse.mp hm)

theorem mem_insertMember {k : String} {v : Json} {ms : List (String × Json)} {m : String × Json}
    (h : m ∈ insertMember k v ms) : m = (k, v) ∨ m ∈ ms := by
  induction ms with
  | nil => exact .inl (List.mem_singleton.mp h)
  | cons n ms ih =>
    unfold insertMember at h
    split at h
    · exact List.mem_cons.mp h
    · split at h
      · rcases List.mem_cons.mp h with hm | hm
        · exact .inl hm
        · exact .inr (List.mem_cons_of_mem _ hm)
      · rcases List.mem_cons.mp h with hm | hm
        · exact .inr (hm ▸ List.mem_cons_self ..)
        · rcases ih hm with hsame | hlater
          · exact .inl hsame
          · exact .inr (List.mem_cons_of_mem _ hlater)

theorem ordered_insertMember (k : String) (v : Json) {ms : List (String × Json)} (h : Ordered ms) :
    Ordered (insertMember k v ms) := by
  induction ms with
  | nil => exact List.pairwise_singleton ..
  | cons n ms ih =>
    obtain ⟨hn, hms⟩ := List.pairwise_cons.mp h
    unfold insertMember
    split
    · rename_i hlt
      refine List.pairwise_cons.mpr ⟨fun m hm => ?_, h⟩
      rcases List.mem_cons.mp hm with rfl | hlater
      · exact hlt
      · exact String.lt_trans hlt (hn m hlater)
    · rename_i hge
      split
      · rename_i hsame
        exact List.pairwise_cons.mpr ⟨fun m hm => hsame ▸ hn m hm, hms⟩
      · rename_i hne
        have hlt : n.1 < k := lt_of_le_of_ne (String.not_lt.mp hge) (Ne.symm hne)
        refine List.pairwise_cons.mpr ⟨fun m hm => ?_, ih hms⟩
        rcases mem_insertMember hm with rfl | hlater
        · exact hlt
        · exact hn m hlater

theorem get?_insertMember (k : String) (v : Json) {ms : List (String × Json)} (h : Ordered ms)
    (key : String) :
    (obj (insertMember k v ms)).get? key = if k = key then some v else (obj ms).get? key := by
  induction ms with
  | nil =>
    rw [insertMember, get?_cons]
    rfl
  | cons n ms ih =>
    obtain ⟨hn, hms⟩ := List.pairwise_cons.mp h
    obtain ⟨k', v'⟩ := n
    unfold insertMember
    split
    · rename_i hlt
      rw [get?_cons]
      by_cases hkey : k = key
      · have habove : ∀ m ∈ (k', v') :: ms, m.1 ≠ key := by
          rintro m hm rfl
          rcases List.mem_cons.mp hm with rfl | hlater
          · exact String.lt_irrefl _ (hkey ▸ hlt)
          · exact String.lt_irrefl _ (String.lt_trans (hkey ▸ hlt) (hn m hlater))
        rw [get?_eq_none habove, if_pos hkey, Option.none_or]
      · rw [if_neg hkey, if_neg hkey, Option.or_none]
    · split
      · rename_i hsame
        subst hsame
        rw [get?_cons, get?_cons]
        by_cases hkey : k = key
        · have habove : ∀ m ∈ ms, m.1 ≠ key := by
            rintro m hm rfl
            exact String.lt_irrefl _ (hkey ▸ hn m hm)
          rw [get?_eq_none habove, if_pos hkey, if_pos hkey, Option.none_or]
        · rw [if_neg hkey, if_neg hkey, if_neg hkey]
      · rename_i hne
        rw [get?_cons, get?_cons, ih hms]
        by_cases hkey : k = key
        · rw [if_pos hkey, if_pos hkey, Option.some_or]
        · rw [if_neg hkey, if_neg hkey]

theorem get?_sortedMembers (ms : List (String × Json)) {done : List (String × Json)}
    (h : Ordered done) (key : String) :
    (obj (sortedMembers ms done)).get? key =
      (((obj ms).get? key).map sorted).or ((obj done).get? key) := by
  induction ms generalizing done with
  | nil => rfl
  | cons m ms ih =>
    obtain ⟨k, j⟩ := m
    rw [sortedMembers, ih (ordered_insertMember k _ h), get?_insertMember k _ h, get?_cons]
    cases (obj ms).get? key with
    | some later => rfl
    | none =>
      by_cases hkey : k = key
      · simp [hkey]
      · simp [hkey]

theorem get?_sorted (ms : List (String × Json)) (key : String) :
    (obj ms).sorted.get? key = ((obj ms).get? key).map sorted := by
  rw [sorted, get?_sortedMembers ms List.Pairwise.nil]
  exact Option.or_none

/-- What stands last under a key. -/
def lastUnder (ms : List (List Piece × Tree)) (key : String) : Option Tree :=
  (ms.reverse.find? fun m => spelled? m.1 = some key).map Prod.snd

theorem lastUnder_cons (k : List Piece) (t : Tree) (ms : List (List Piece × Tree)) (key : String) :
    lastUnder ((k, t) :: ms) key =
      (lastUnder ms key).or (if spelled? k = some key then some t else none) := by
  rw [lastUnder, lastUnder, List.reverse_cons, List.find?_append]
  cases ms.reverse.find? fun m => spelled? m.1 = some key with
  | some m => rfl
  | none =>
    by_cases h : spelled? k = some key
    · simp [h]
    · simp [h]

theorem get?_members {room : Nat} {ms : List (List Piece × Tree)} {js : List (String × Json)}
    (h : allKeys (denoteMembers room ms) = some js) (key : String) :
    (obj js).get? key = (lastUnder ms key).map (Tree.denote room) := by
  induction ms generalizing js with
  | nil =>
    cases h
    rfl
  | cons m ms ih =>
    obtain ⟨k, t⟩ := m
    rw [denoteMembers] at h
    rw [lastUnder_cons]
    cases hk : spelled? k with
    | none =>
      rw [hk] at h
      cases h
    | some name =>
      rw [hk, allKeys_cons_some] at h
      obtain ⟨ks, hks, rfl⟩ := Option.map_eq_some_iff.mp h
      rw [get?_cons, ih hks]
      cases lastUnder ms key with
      | some later => rfl
      | none =>
        by_cases hname : name = key
        · simp [hname]
        · simp [hname]

theorem get?_denote {room : Nat} {ms : List (List Piece × Tree)}
    (h : (Tree.object ms).Within room) (key : String) :
    ((Tree.object ms).denote room).sorted.get? key =
      (lastUnder ms key).map fun t => (t.denote (room - 1)).sorted := by
  obtain ⟨hroom, hms⟩ := h
  obtain ⟨js, hjs, -⟩ := (readable_members (room - 1) ms).mpr hms
  have hdenote : (Tree.object ms).denote room = obj js := by
    rw [Tree.denote, objectValue, hjs]
    exact container_of_pos hroom _
  rw [hdenote, get?_sorted, get?_members hjs, Option.map_map]
  rfl

def Tree.text? : Tree → Option String
  | .string ps => spelled? ps
  | _ => none

theorem asString?_denote (room : Nat) (t : Tree) : (t.denote room).sorted.asString? = t.text? := by
  cases t with
  | null | bool => rfl
  | number l =>
    rw [Tree.denote, Literal.value]
    cases l.number? <;> rfl
  | string ps =>
    rw [Tree.denote, Tree.text?]
    cases spelled? ps <;> rfl
  | array ts =>
    rw [Tree.denote, container]
    split <;> rfl
  | object ms =>
    rw [Tree.denote, objectValue]
    cases allKeys (denoteMembers (room - 1) ms) with
    | none => rfl
    | some js =>
      dsimp only [container]
      split <;> rfl

theorem asBool?_denote (room : Nat) (t : Tree) :
    (t.denote room).sorted.asBool? = some true ↔ t = .bool true := by
  cases t with
  | null => simp [Tree.denote, sorted, asBool?]
  | bool b => simp [Tree.denote, sorted, asBool?]
  | number l =>
    rw [Tree.denote, Literal.value]
    cases l.number? <;> simp [sorted, asBool?]
  | string ps =>
    rw [Tree.denote]
    cases spelled? ps <;> simp [textValue, sorted, asBool?]
  | array ts =>
    rw [Tree.denote, container]
    split <;> simp [sorted, asBool?]
  | object ms =>
    rw [Tree.denote, objectValue]
    cases allKeys (denoteMembers (room - 1) ms) with
    | none => simp [sorted, asBool?]
    | some js =>
      dsimp only [container]
      split <;> simp [sorted, asBool?]

/-! ### Texts -/

/-- A text is a free value exactly if it is well formed and lies within the limits. -/
theorem parseFree_iff {s : String} {v : Json} :
    parseFree s = some v ↔ ∃ t : Tree, t.Text s.toList ∧ t.Within maxNesting ∧
      v = (t.denote maxNesting).sorted := by
  rw [parseFree, parse]
  constructor
  · intro h
    split at h
    · rename_i j hj
      obtain ⟨t, ht, rfl⟩ := parseChars_iff.mp hj
      split at h
      · rename_i hreadable
        cases h
        exact ⟨t, ht, (readable_denote _ _).mp hreadable, rfl⟩
      · cases h
    · cases h
  · rintro ⟨t, ht, hwithin, rfl⟩
    have hj : parseChars s.toList = some (t.denote maxNesting) := parseChars_iff.mpr ⟨t, ht, rfl⟩
    have hreadable := (readable_denote _ _).mpr hwithin
    simp only [hj, hreadable, if_true]

theorem parseFree_of_text {s : String} {v : Json} {t : Tree} (ht : t.Text s.toList)
    (h : parseFree s = some v) : t.Within maxNesting ∧ v = (t.denote maxNesting).sorted := by
  obtain ⟨u, hu, hwithin, rfl⟩ := parseFree_iff.mp h
  have hsame : t.denote maxNesting = u.denote maxNesting := by
    have hread := parseChars_iff.mpr ⟨t, ht, rfl⟩
    rw [parseChars_iff.mpr ⟨u, hu, rfl⟩] at hread
    exact (Option.some.inj hread).symm
  have hreadable := (readable_denote _ _).mpr hwithin
  rw [← hsame] at hreadable ⊢
  exact ⟨(readable_denote _ _).mp hreadable, rfl⟩

theorem object_of_text {t : Tree} {s : List Char} (h : t.Text ('{' :: s)) : ∃ ms, t = .object ms := by
  generalize hu : '{' :: s = u at h
  cases h with
  | element ha h hb =>
    rename_i a v b
    have hfirst : (a ++ (v ++ b)).head? = some '{' := hu ▸ rfl
    cases a with
    | cons c a =>
      cases hfirst
      have hspace := ha '{' (List.mem_cons_self ..)
      cases hspace
    | nil =>
      cases h with
      | null | boolTrue | boolFalse | string | emptyArray | array => cases hfirst
      | number h =>
        obtain ⟨c, w, rfl, hstart⟩ := h.exists_cons
        cases hfirst
        cases hstart
      | emptyObject | object => exact ⟨_, rfl⟩

end TokenAudit.Json
