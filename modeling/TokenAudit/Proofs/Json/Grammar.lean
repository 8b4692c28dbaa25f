import Mathlib.Data.List.TakeWhile
import TokenAudit.Proofs.Json.RoundTrip

/-! The grammar of JSON texts, and the reading of their numbers and literals of text by it: each reader
takes what the grammar spells, and nothing else. -/

namespace TokenAudit.Json

/-! ### The grammar -/

/-- What a well-formed text says: its literals as they are spelled, and how they are nested. -/
inductive Tree where
  | null
  | bool (b : Bool)
  | number (l : Literal)
  | string (ps : List Piece)
  | array (items : List Tree)
  | object (members : List (List Piece × Tree))

def Blank (s : List Char) : Prop := ∀ c ∈ s, isSpace c = true

def Figures (s : List Char) : Prop := s ≠ [] ∧ ∀ c ∈ s, Numeral.isFigure c = true

def Whole (s : List Char) : Prop := Figures s ∧ (s.head? = some '0' → s = ['0'])

inductive SpellsFraction : Option (List Char) → List Char → Prop
  | none : SpellsFraction none []
  | some {ds : List Char} (h : Figures ds) : SpellsFraction (some ds) ('.' :: ds)

inductive SpellsExponent : Option (Bool × List Char) → List Char → Prop
  | none : SpellsExponent none []
  | bare {e : Char} {ds : List Char} (he : e = 'e' ∨ e = 'E') (h : Figures ds) :
    SpellsExponent (some (false, ds)) (e :: ds)
  | plus {e : Char} {ds : List Char} (he : e = 'e' ∨ e = 'E') (h : Figures ds) :
    SpellsExponent (some (false, ds)) (e :: '+' :: ds)
  | minus {e : Char} {ds : List Char} (he : e = 'e' ∨ e = 'E') (h : Figures ds) :
    SpellsExponent (some (true, ds)) (e :: '-' :: ds)

structure SpellsMagnitude (l : Literal) (s : List Char) : Prop where
  whole : Whole l.whole
  parts : ∃ f e, SpellsFraction l.fraction f ∧ SpellsExponent l.exponent e ∧ s = l.whole ++ f ++ e

inductive SpellsNumber (l : Literal) : List Char → Prop
  | plain {s : List Char} (hn : l.negative = false) (h : SpellsMagnitude l s) : SpellsNumber l s
  | minus {s : List Char} (hn : l.negative = true) (h : SpellsMagnitude l s) :
    SpellsNumber l ('-' :: s)

inductive SpellsPiece : Piece → List Char → Prop
  | plain {c : Char} (hquote : c ≠ '"') (hslash : c ≠ '\\') (h : 32 ≤ c.toNat) :
    SpellsPiece (.char c) [c]
  | letter {c e : Char} (h : shortEscape? e = some c) : SpellsPiece (.char c) ['\\', e]
  | unit {n : Nat} {a b c d : Char} (h : codeUnit? a b c d = some n) :
    SpellsPiece (.unit n) ['\\', 'u', a, b, c, d]

inductive SpellsPieces : List Piece → List Char → Prop
  | nil : SpellsPieces [] []
  | cons {p : Piece} {ps : List Piece} {s t : List Char} (h : SpellsPiece p s)
    (hs : SpellsPieces ps t) : SpellsPieces (p :: ps) (s ++ t)

/-- The parts of a text. An element is a value with the blanks around it. -/
inductive Part where
  | value (t : Tree)
  | element (t : Tree)
  | items (ts : List Tree)
  | member (key : List Piece) (t : Tree)
  | members (ms : List (List Piece × Tree))

inductive Spells : Part → List Char → Prop
  | null : Spells (.value .null) "null".toList
  | boolTrue : Spells (.value (.bool true)) "true".toList
  | boolFalse : Spells (.value (.bool false)) "false".toList
  | number {l : Literal} {s : List Char} (h : SpellsNumber l s) : Spells (.value (.number l)) s
  | string {ps : List Piece} {s : List Char} (h : SpellsPieces ps s) :
    Spells (.value (.string ps)) ('"' :: (s ++ ['"']))
  | emptyArray {a : List Char} (h : Blank a) : Spells (.value (.array [])) ('[' :: (a ++ [']']))
  | array {ts : List Tree} {s : List Char} (h : Spells (.items ts) s) :
    Spells (.value (.array ts)) ('[' :: (s ++ [']']))
  | emptyObject {a : List Char} (h : Blank a) :
    Spells (.value (.object [])) ('{' :: (a ++ ['}']))
  | object {ms : List (List Piece × Tree)} {s : List Char} (h : Spells (.members ms) s) :
    Spells (.value (.object ms)) ('{' :: (s ++ ['}']))
  | element {t : Tree} {a s b : List Char} (ha : Blank a) (h : Spells (.value t) s) (hb : Blank b) :
    Spells (.element t) (a ++ (s ++ b))
  | lastItem {t : Tree} {s : List Char} (h : Spells (.element t) s) : Spells (.items [t]) s
  | item {t : Tree} {ts : List Tree} {s u : List Char} (h : Spells (.element t) s)
    (hs : Spells (.items ts) u) : Spells (.items (t :: ts)) (s ++ ',' :: u)
  | member {key : List Piece} {t : Tree} {a k b s : List Char} (ha : Blank a)
    (hk : SpellsPieces key k) (hb : Blank b) (h : Spells (.element t) s) :
    Spells (.member key t) (a ++ '"' :: (k ++ '"' :: (b ++ ':' :: s)))
  | lastMember {key : List Piece} {t : Tree} {s : List Char} (h : Spells (.member key t) s) :
    Spells (.members [(key, t)]) s
  | moreMembers {key : List Piece} {t : Tree} {ms : List (List Piece × Tree)} {s u : List Char}
    (h : Spells (.member key t) s) (hs : Spells (.members ms) u) :
    Spells (.members ((key, t) :: ms)) (s ++ ',' :: u)

/-- The text of a tree: one value with the blanks around it, and nothing else. -/
def Tree.Text (t : Tree) (s : List Char) : Prop := Spells (.element t) s

/-! ### Blanks -/

theorem blank_takeWhile (s : List Char) : Blank (s.takeWhile isSpace) :=
  fun _ hc => List.mem_takeWhile_imp hc

theorem exists_blank (s : List Char) : ∃ a, Blank a ∧ s = a ++ skipSpace s :=
  ⟨s.takeWhile isSpace, blank_takeWhile s, List.takeWhile_append_dropWhile.symm⟩

theorem skipSpace_append {a : List Char} (h : Blank a) (s : List Char) :
    skipSpace (a ++ s) = skipSpace s := List.dropWhile_append_of_pos h

theorem blank_of_skipSpace {s : List Char} (h : skipSpace s = []) : Blank s :=
  List.dropWhile_eq_nil_iff.mp h

def Follows (s : List Char) : Prop := ∀ c ∈ s.head?, isSpace c = true ∨ c ∈ [',', ']', '}']

theorem follows_nil : Follows [] := nofun

theorem follows_cons {c : Char} (h : c ∈ [',', ']', '}']) (s : List Char) : Follows (c :: s) := by
  rintro d ⟨⟩
  exact .inr h

theorem Follows.append {a s : List Char} (ha : Blank a) (hs : Follows s) : Follows (a ++ s) := by
  cases a with
  | nil => exact hs
  | cons c a =>
    rintro d ⟨⟩
    exact .inl (ha c (List.mem_cons_self ..))

/-! ### Numbers -/

def NoFigure (s : List Char) : Prop := ∀ c ∈ s.head?, Numeral.isFigure c = false

theorem Follows.ne {s : List Char} (h : Follows s) {c : Char} (hc : c ∈ s.head?) :
    Numeral.isFigure c = false ∧ c ≠ '.' ∧ ¬(c = 'e' ∨ c = 'E') := by
  have hspace : isSpace c = true → c ∈ [' ', '\n', '\t', '\r'] := by
    simp [isSpace, or_assoc]
  have hall : ([' ', '\n', '\t', '\r'] ++ [',', ']', '}']).all (fun d =>
      Numeral.isFigure d = false ∧ d ≠ '.' ∧ ¬(d = 'e' ∨ d = 'E')) = true := by decide
  apply of_decide_eq_true
  apply List.all_eq_true.mp hall c
  rcases h c hc with hblank | hend
  · exact List.mem_append_left _ (hspace hblank)
  · exact List.mem_append_right _ hend

theorem Follows.noFigure {s : List Char} (h : Follows s) : NoFigure s := fun _ hc => (h.ne hc).1

theorem spanFigures_append {ds rest : List Char} (h : ∀ c ∈ ds, Numeral.isFigure c = true)
    (hrest : NoFigure rest) : Double.spanFigures (ds ++ rest) = (ds, rest) := by
  have hstop : rest.takeWhile Numeral.isFigure = [] ∧ rest.dropWhile Numeral.isFigure = rest := by
    cases rest with
    | nil => exact ⟨rfl, rfl⟩
    | cons c rest =>
      have hc : ¬Numeral.isFigure c = true := Bool.eq_false_iff.mp (hrest c rfl)
      exact ⟨List.takeWhile_cons_of_neg hc, List.dropWhile_cons_of_neg hc⟩
  rw [Double.spanFigures, List.takeWhile_append_of_pos h, List.dropWhile_append_of_pos h, hstop.1,
    hstop.2, List.append_nil]

theorem spanFigures_sound {s ds r : List Char} (h : Double.spanFigures s = (ds, r)) :
    s = ds ++ r ∧ ∀ c ∈ ds, Numeral.isFigure c = true := by
  cases h
  exact ⟨List.takeWhile_append_dropWhile.symm, fun _ hc => List.mem_takeWhile_imp hc⟩

theorem Figures.exists_cons {ds : List Char} (h : Figures ds) :
    ∃ c s, ds = c :: s ∧ Numeral.isFigure c = true := by
  obtain ⟨c, s, rfl⟩ := List.exists_cons_of_ne_nil h.1
  exact ⟨c, s, rfl, h.2 c (List.mem_cons_self ..)⟩

theorem ne_of_isFigure {c d : Char} (h : Numeral.isFigure c = true)
    (hd : Numeral.isFigure d = false) : c ≠ d := by
  rintro rfl
  rw [h] at hd
  cases hd

def splitExponentSign : List Char → Bool × List Char
  | '-' :: s => (true, s)
  | '+' :: s => (false, s)
  | s => (false, s)

theorem splitExponentSign_figures {ds : List Char} (h : Figures ds) (rest : List Char) :
    splitExponentSign (ds ++ rest) = (false, ds ++ rest) := by
  obtain ⟨c, s, rfl, hc⟩ := h.exists_cons
  have hminus : c ≠ '-' := ne_of_isFigure hc (by decide)
  have hplus : c ≠ '+' := ne_of_isFigure hc (by decide)
  rw [List.cons_append, splitExponentSign]
  · exact fun _ hs => hminus (List.cons.inj hs).1
  · exact fun _ hs => hplus (List.cons.inj hs).1

theorem readExponentPart_cons (e : Char) (s : List Char) :
    readExponentPart (e :: s) =
      if e = 'e' ∨ e = 'E' then
        if (Double.spanFigures (splitExponentSign s).2).1 = [] then none
        else some (some ((splitExponentSign s).1, (Double.spanFigures (splitExponentSign s).2).1),
          (Double.spanFigures (splitExponentSign s).2).2)
      else some (none, e :: s) := rfl

theorem readExponentPart_complete {exponent : Option (Bool × List Char)} {s rest : List Char}
    (h : SpellsExponent exponent s) (hrest : Follows rest) :
    readExponentPart (s ++ rest) = some (exponent, rest) := by
  have hsigned : ∀ {e : Char} {ds t : List Char} {negative : Bool}, e = 'e' ∨ e = 'E' → Figures ds →
      splitExponentSign t = (negative, ds ++ rest) →
      readExponentPart (e :: t) = some (some (negative, ds), rest) := by
    intro e ds t negative he hds ht
    rw [readExponentPart_cons, if_pos he, ht]
    simp only [spanFigures_append hds.2 hrest.noFigure, if_neg hds.1]
  cases h with
  | none =>
    cases rest with
    | nil => rfl
    | cons c rest =>
      have hc : ¬(c = 'e' ∨ c = 'E') := (hrest.ne rfl).2.2
      rw [List.nil_append, readExponentPart_cons, if_neg hc]
  | bare he hds => exact hsigned he hds (splitExponentSign_figures hds rest)
  | plus he hds => exact hsigned he hds rfl
  | minus he hds => exact hsigned he hds rfl

theorem readExponentPart_sound {exponent : Option (Bool × List Char)} {s r : List Char}
    (h : readExponentPart s = some (exponent, r)) : ∃ u, s = u ++ r ∧ SpellsExponent exponent u := by
  cases s with
  | nil =>
    cases h
    exact ⟨[], rfl, .none⟩
  | cons e s =>
    rw [readExponentPart_cons] at h
    by_cases he : e = 'e' ∨ e = 'E'
    · rw [if_pos he] at h
      rcases hsign : splitExponentSign s with ⟨negative, t⟩
      rcases hspan : Double.spanFigures t with ⟨ds, u⟩
      obtain ⟨rfl, hfigures⟩ := spanFigures_sound hspan
      simp only [hsign, hspan] at h
      split at h
      · cases h
      · rename_i hne
        cases h
        have hds : Figures ds := ⟨hne, hfigures⟩
        unfold splitExponentSign at hsign
        split at hsign
        · cases hsign
          exact ⟨e :: '-' :: ds, rfl, .minus he hds⟩
        · cases hsign
          exact ⟨e :: '+' :: ds, rfl, .plus he hds⟩
        · cases hsign
          exact ⟨e :: ds, rfl, .bare he hds⟩
    · rw [if_neg he] at h
      cases h
      exact ⟨[], rfl, .none⟩

theorem SpellsExponent.ne {exponent : Option (Bool × List Char)} {s rest : List Char}
    (h : SpellsExponent exponent s) (hrest : Follows rest) {c : Char} (hc : c ∈ (s ++ rest).head?) :
    Numeral.isFigure c = false ∧ c ≠ '.' := by
  have hletter : ∀ e : Char, e = 'e' ∨ e = 'E' → Numeral.isFigure e = false ∧ e ≠ '.' := by
    rintro e (rfl | rfl)
    · decide
    · decide
  cases h with
  | none => exact ⟨(hrest.ne hc).1, (hrest.ne hc).2.1⟩
  | bare he | plus he | minus he =>
    cases hc
    exact hletter _ he

def readFraction : List Char → Option (Option (List Char) × List Char)
  | '.' :: t =>
    if (Double.spanFigures t).1 = [] then none
    else some (some (Double.spanFigures t).1, (Double.spanFigures t).2)
  | t => some (none, t)

theorem readFraction_of_ne {s : List Char} (h : ∀ t, s ≠ '.' :: t) :
    readFraction s = some (none, s) := by
  rw [readFraction]
  exact h

theorem readMagnitude_eq (negative : Bool) (s : List Char) :
    readMagnitude negative s =
      if (Double.spanFigures s).1 = [] ∨
          ((Double.spanFigures s).1.head? = some '0' ∧ (Double.spanFigures s).1.length ≠ 1) then none
      else (readFraction (Double.spanFigures s).2).bind fun (fraction, t) =>
        (readExponentPart t).map fun (exponent, r) =>
          (⟨negative, (Double.spanFigures s).1, fraction, exponent⟩, r) := by
  unfold readMagnitude
  rcases Double.spanFigures s with ⟨whole, t⟩
  by_cases hwhole : whole = [] ∨ whole.head? = some '0' ∧ whole.length ≠ 1
  · simp only [if_pos hwhole]
  · simp only [if_neg hwhole]
    split
    · rename_i u
      rw [readFraction]
      rcases Double.spanFigures u with ⟨ds, r⟩
      by_cases hds : ds = []
      · simp only [if_pos hds, Option.bind_none]
      · simp only [if_neg hds, Option.bind_some]
    · rename_i hpoint
      rw [readFraction_of_ne hpoint, Option.bind_some]

theorem readFraction_complete {fraction : Option (List Char)} {s rest : List Char}
    (h : SpellsFraction fraction s) (hrest : NoFigure rest) (hpoint : '.' ∉ rest.head?) :
    readFraction (s ++ rest) = some (fraction, rest) := by
  cases h with
  | none =>
    apply readFraction_of_ne
    rintro t rfl
    exact hpoint rfl
  | some hds =>
    rw [List.cons_append, readFraction, spanFigures_append hds.2 hrest, if_neg hds.1]

theorem readFraction_sound {fraction : Option (List Char)} {s r : List Char}
    (h : readFraction s = some (fraction, r)) : ∃ u, s = u ++ r ∧ SpellsFraction fraction u := by
  unfold readFraction at h
  split at h
  · rename_i t
    rcases hspan : Double.spanFigures t with ⟨ds, u⟩
    obtain ⟨rfl, hfigures⟩ := spanFigures_sound hspan
    rw [hspan] at h
    split at h
    · cases h
    · rename_i hne
      cases h
      exact ⟨'.' :: ds, rfl, .some ⟨hne, hfigures⟩⟩
  · cases h
    exact ⟨[], rfl, .none⟩

theorem whole_iff {s : List Char} (h : ∀ c ∈ s, Numeral.isFigure c = true) :
    Whole s ↔ ¬(s = [] ∨ s.head? = some '0' ∧ s.length ≠ 1) := by
  rw [not_or, not_and, not_not]
  constructor
  · rintro ⟨⟨hne, -⟩, hzero⟩
    refine ⟨hne, fun hhead => ?_⟩
    rw [hzero hhead]
    rfl
  · rintro ⟨hne, hlength⟩
    refine ⟨⟨hne, h⟩, fun hhead => ?_⟩
    obtain ⟨c, rfl⟩ := List.length_eq_one_iff.mp (hlength hhead)
    cases hhead
    rfl

theorem SpellsFraction.noFigure {fraction : Option (List Char)} {s rest : List Char}
    (h : SpellsFraction fraction s) (hrest : NoFigure rest) : NoFigure (s ++ rest) := by
  cases h with
  | none => exact hrest
  | some hds =>
    rintro c ⟨⟩
    decide

theorem readMagnitude_complete {l : Literal} {s rest : List Char} (h : SpellsMagnitude l s)
    (hrest : Follows rest) : readMagnitude l.negative (s ++ rest) = some (l, rest) := by
  obtain ⟨hwhole, f, e, hf, he, rfl⟩ := h
  have hexponent : NoFigure (e ++ rest) := fun c hc => (he.ne hrest hc).1
  have hpoint : '.' ∉ (e ++ rest).head? := fun hc => (he.ne hrest hc).2 rfl
  have hspan : Double.spanFigures (l.whole ++ (f ++ (e ++ rest))) = (l.whole, f ++ (e ++ rest)) :=
    spanFigures_append hwhole.1.2 (hf.noFigure hexponent)
  have hallowed := (whole_iff hwhole.1.2).mp hwhole
  rw [List.append_assoc, List.append_assoc, readMagnitude_eq, hspan, if_neg hallowed,
    readFraction_complete hf hexponent hpoint, Option.bind_some]
  simp only [readExponentPart_complete he hrest, Option.map_some]

theorem readMagnitude_sound {negative : Bool} {l : Literal} {s r : List Char}
    (h : readMagnitude negative s = some (l, r)) :
    l.negative = negative ∧ ∃ u, s = u ++ r ∧ SpellsMagnitude l u := by
  rw [readMagnitude_eq] at h
  rcases hspan : Double.spanFigures s with ⟨whole, t⟩
  obtain ⟨rfl, hfigures⟩ := spanFigures_sound hspan
  rw [hspan] at h
  split at h
  · cases h
  · rename_i hallowed
    obtain ⟨⟨fraction, t'⟩, hf, hrest⟩ := Option.bind_eq_some_iff.mp h
    obtain ⟨⟨exponent, r'⟩, he, hl⟩ := Option.map_eq_some_iff.mp hrest
    cases hl
    obtain ⟨f, rfl, hfraction⟩ := readFraction_sound hf
    obtain ⟨e, rfl, hexponent⟩ := readExponentPart_sound he
    have hwhole : Whole whole := (whole_iff hfigures).mpr hallowed
    refine ⟨rfl, whole ++ f ++ e, ?_, hwhole, f, e, hfraction, hexponent, rfl⟩
    rw [List.append_assoc, List.append_assoc]

theorem SpellsMagnitude.exists_cons {l : Literal} {s : List Char} (h : SpellsMagnitude l s) :
    ∃ c t, s = c :: t ∧ Numeral.isFigure c = true := by
  obtain ⟨hwhole, f, e, -, -, rfl⟩ := h
  obtain ⟨c, t, ht, hc⟩ := hwhole.1.exists_cons
  rw [ht]
  exact ⟨c, t ++ f ++ e, rfl, hc⟩

theorem readLiteral_complete {l : Literal} {s rest : List Char} (h : SpellsNumber l s)
    (hrest : Follows rest) : readLiteral (s ++ rest) = some (l, rest) := by
  rw [readLiteral_eq]
  cases h with
  | plain hn h =>
    have hread := readMagnitude_complete h hrest
    obtain ⟨c, t, rfl, hc⟩ := h.exists_cons
    have hne : c ≠ '-' := ne_of_isFigure hc (by decide)
    rw [hn] at hread
    rw [List.cons_append, splitSign_of_ne hne]
    exact hread
  | minus hn h =>
    have hread := readMagnitude_complete h hrest
    rw [hn] at hread
    exact hread

theorem readLiteral_sound {l : Literal} {s r : List Char} (h : readLiteral s = some (l, r)) :
    ∃ u, s = u ++ r ∧ SpellsNumber l u := by
  rw [readLiteral_eq] at h
  obtain ⟨hnegative, u, hs, hu⟩ := readMagnitude_sound h
  rcases hsign : splitSign s with ⟨negative, t⟩
  rw [hsign] at hnegative hs
  unfold splitSign at hsign
  split at hsign
  · cases hsign
    exact ⟨'-' :: u, congrArg ('-' :: ·) hs, .minus hnegative hu⟩
  · cases hsign
    exact ⟨u, hs, .plain hnegative hu⟩

theorem SpellsNumber.exists_cons {l : Literal} {s : List Char} (h : SpellsNumber l s) :
    ∃ c t, s = c :: t ∧ startsNumber c = true := by
  cases h with
  | plain _ h =>
    obtain ⟨c, t, rfl, hc⟩ := h.exists_cons
    exact ⟨c, t, rfl, by rw [startsNumber, hc, Bool.or_true]⟩
  | minus _ h => exact ⟨'-', _, rfl, rfl⟩

/-! ### Literals of text -/

theorem readPieces_unit {n : Nat} {a b c d : Char} (h : codeUnit? a b c d = some n) (s : List Char) :
    readPieces ('\\' :: 'u' :: a :: b :: c :: d :: s) =
      (readPieces s).map fun (ps, r) => (.unit n :: ps, r) := by
  rw [readPieces, h]
  cases readPieces s <;> rfl

theorem readPieces_complete {ps : List Piece} {s : List Char} (h : SpellsPieces ps s)
    (rest : List Char) : readPieces (s ++ '"' :: rest) = some (ps, rest) := by
  induction h with
  | nil => rfl
  | cons h _ ih =>
    rw [List.append_assoc]
    cases h with
    | plain hquote hslash hle =>
      rw [List.cons_append, List.nil_append, readPieces_plain hquote hslash hle, ih]
      rfl
    | letter he =>
      rename_i e
      have hu : e ≠ 'u' := by
        rintro rfl
        cases he
      rw [List.cons_append, List.cons_append, List.nil_append, readPieces_letter hu he, ih]
      rfl
    | unit hn =>
      simp only [List.cons_append, List.nil_append]
      rw [readPieces_unit hn, ih]
      rfl

theorem readPieces_sound {s r : List Char} {ps : List Piece} (h : readPieces s = some (ps, r)) :
    ∃ u, s = u ++ '"' :: r ∧ SpellsPieces ps u := by
  fun_induction readPieces s generalizing ps r with
  | case1 => cases h
  | case2 s =>
    cases h
    exact ⟨[], rfl, .nil⟩
  | case3 a b c d s n qs t hread hunit ih =>
    cases h
    obtain ⟨u, rfl, hu⟩ := ih hread
    exact ⟨_, rfl, .cons (.unit hunit) hu⟩
  | case4 => cases h
  | case5 e s _ c qs t hread he ih =>
    cases h
    obtain ⟨u, rfl, hu⟩ := ih hread
    exact ⟨_, rfl, .cons (.letter he) hu⟩
  | case6 => cases h
  | case7 => cases h
  | case8 c s hquote _ _ hallowed qs t hread ih =>
    cases h
    obtain ⟨u, rfl, hu⟩ := ih hread
    obtain ⟨hle, hslash⟩ := not_or.mp hallowed
    exact ⟨_, rfl, .cons (.plain hquote hslash (Nat.le_of_not_lt hle)) hu⟩
  | case9 => cases h

end TokenAudit.Json
