import Mathlib.Data.List.Induction
import TokenAudit.Proofs.Numeral.Figures

/-! Texts that a number is read from. The documented ones are decimal digits, or hexadecimal digits
behind a head. The reader takes these, and besides them digits behind other heads, separators among the
digits, and texts that have no digit at all. Plain numbers, which have no head, are read as they stand. -/

namespace TokenAudit.Numeral

/-! ### Digits -/

/-- A digit of a radix, which is a figure or a letter in either case, stands for a number below it. -/
def Stands (radix : Nat) (c : Char) (d : Nat) : Prop :=
  d < radix ∧ (c = d.digitChar ∨ c = d.digitChar.toUpper)

inductive Denotes (radix : Nat) : List Char → Nat → Prop where
  | digit {c d} (h : Stands radix c d) : Denotes radix [c] d
  | snoc {s n c d} (hs : Denotes radix s n) (h : Stands radix c d) :
    Denotes radix (s ++ [c]) (radix * n + d)

variable {radix bound n m : Nat} {c : Char} {s head digits : List Char}

theorem digitBelow?_eq_some {d : Nat} :
    digitBelow? radix c = some d ↔ digitValue? c = some d ∧ d < radix := by
  rw [digitBelow?, Option.filter_eq_some_iff, decide_eq_true_eq]

theorem digitValue?_digitChar {d : Nat} (hd : d < 16)
    (h : c = d.digitChar ∨ c = d.digitChar.toUpper) : digitValue? c = some d := by
  have hall : ∀ d < 16, digitValue? d.digitChar = some d ∧ digitValue? d.digitChar.toUpper = some d := by
    decide
  rcases h with rfl | rfl
  · exact (hall d hd).1
  · exact (hall d hd).2

theorem toNat_lt_of_digitValue? {d : Nat} (h : digitValue? c = some d) : c.toNat < 123 := by
  simp only [digitValue?, Char.le_def, UInt32.le_iff_toNat_le] at h
  split at h
  · rename_i hrange
    exact Nat.lt_of_le_of_lt hrange.2 (by decide)
  split at h
  · rename_i hrange
    exact Nat.lt_of_le_of_lt hrange.2 (by decide)
  split at h
  · rename_i hrange
    exact Nat.lt_of_le_of_lt hrange.2 (by decide)
  · cases h

theorem digitChar_of_digitValue? {d : Nat} (hd : d < 16) (h : digitValue? c = some d) :
    c = d.digitChar ∨ c = d.digitChar.toUpper := by
  -- Characters with a value stand below 123: a check of these is one of all.
  have hall : ∀ k < 123, ∀ d < 16, digitValue? (Char.ofNat k) = some d →
      Char.ofNat k = d.digitChar ∨ Char.ofNat k = d.digitChar.toUpper := by decide +kernel
  have hchar := hall c.toNat (toNat_lt_of_digitValue? h) d hd
  rw [Char.ofNat_toNat] at hchar
  exact hchar h

theorem stands_iff (hr : radix ≤ 16) {d : Nat} : Stands radix c d ↔ digitBelow? radix c = some d := by
  rw [digitBelow?_eq_some, Stands, and_comm]
  refine and_congr_left fun hd => ?_
  have hsmall : d < 16 := Nat.lt_of_lt_of_le hd hr
  exact ⟨digitValue?_digitChar hsmall, digitChar_of_digitValue? hsmall⟩

theorem Stands.ne_separator (hr : radix ≤ 16) {d : Nat} (h : Stands radix c d) : c ≠ '_' := by
  rintro rfl
  have hnone : digitValue? '_' = none := by decide
  rw [stands_iff hr, digitBelow?_eq_some, hnone] at h
  cases h.1

namespace Denotes

theorem ne_nil (h : Denotes radix s n) : s ≠ [] := by
  cases h <;> simp

theorem stands (h : Denotes radix s n) : ∀ c ∈ s, ∃ d, Stands radix c d := by
  induction h with
  | digit hd => simpa using ⟨_, hd⟩
  | snoc _ hd ih =>
    intro c hc
    rcases List.mem_append.mp hc with hfront | hlast
    · exact ih c hfront
    · rw [List.mem_singleton.mp hlast]
      exact ⟨_, hd⟩

theorem not_mem_separator (hr : radix ≤ 16) (h : Denotes radix s n) : '_' ∉ s := by
  intro hmem
  obtain ⟨d, hd⟩ := h.stands '_' hmem
  exact hd.ne_separator hr rfl

theorem zero (hr : 0 < radix) (h : Denotes radix s n) : Denotes radix ('0' :: s) n := by
  have hzero : Denotes radix ['0'] 0 := .digit ⟨hr, .inl rfl⟩
  induction h with
  | digit hd => simpa using hzero.snoc hd
  | snoc _ hd ih => simpa using ih.snoc hd

theorem zeros (hr : 0 < radix) (h : Denotes radix s n) (k : Nat) :
    Denotes radix (List.replicate k '0' ++ s) n := by
  induction k with
  | zero => exact h
  | succ k ih => exact ih.zero hr

end Denotes

theorem denotes_toDigits (hr : 1 < radix) (n : Nat) : Denotes radix (Nat.toDigits radix n) n := by
  -- The last digit is the remainder, and the others are the digits of the quotient.
  induction n using Nat.strongRecOn with
  | ind n ih =>
    rw [Nat.toDigits_eq_if hr]
    by_cases h : n < radix
    · rw [if_pos h]
      exact .digit ⟨h, .inl rfl⟩
    · have hless : n / radix < n := Nat.div_lt_self (by omega) hr
      have hsnoc := (ih (n / radix) hless).snoc ⟨Nat.mod_lt n (by omega), .inl rfl⟩
      rw [Nat.div_add_mod] at hsnoc
      rw [if_neg h]
      exact hsnoc

/-! ### Reading digits -/

def unseparated (s : List Char) : List Char := s.filter (· ≠ '_')

theorem not_mem_unseparated (s : List Char) : '_' ∉ unseparated s := by
  simp [unseparated]

theorem unseparated_of_not_mem (h : '_' ∉ s) : unseparated s = s := by
  apply List.filter_eq_self.mpr
  intro c hc
  simpa using fun heq : c = '_' => h (heq ▸ hc)

theorem unseparated_eq_nil_iff : unseparated s = [] ↔ ∀ c ∈ s, c = '_' := by
  simp [unseparated]

theorem readDigits_unseparated (radix n : Nat) (s : List Char) :
    readDigits radix n (unseparated s) = readDigits radix n s := by
  induction s generalizing n with
  | nil => rfl
  | cons c s ih =>
    by_cases hc : c = '_'
    · have hskip : unseparated (c :: s) = unseparated s := by simp [unseparated, hc]
      rw [hskip, readDigits, if_pos hc, ih]
    · have hkeep : unseparated (c :: s) = c :: unseparated s := by simp [unseparated, hc]
      rw [hkeep, readDigits, readDigits, if_neg hc, if_neg hc]
      simp only [ih]

theorem readDigits_digit {d : Nat} (hr : radix ≤ 16) (h : Stands radix c d) (n : Nat) :
    readDigits radix n [c] = some (radix * n + d) := by
  rw [readDigits, if_neg (h.ne_separator hr), (stands_iff hr).mp h]
  rfl

theorem Denotes.readDigits (hr : radix ≤ 16) (h : Denotes radix s n) :
    readDigits radix 0 s = some n := by
  induction h with
  | digit hd => rw [readDigits_digit hr hd, Nat.mul_zero, Nat.zero_add]
  | snoc _ hd ih => rw [readDigits_append, ih, Option.bind_some, readDigits_digit hr hd]

theorem denotes_of_readDigits (hr : radix ≤ 16) (hne : s ≠ []) (hsep : '_' ∉ s)
    (h : readDigits radix 0 s = some n) : Denotes radix s n := by
  induction s using List.reverseRecOn generalizing n with
  | nil => exact absurd rfl hne
  | append_singleton s c ih =>
    rw [readDigits_append, Option.bind_eq_some_iff] at h
    obtain ⟨m, hm, hlast⟩ := h
    have hc : c ≠ '_' := fun heq => hsep (by simp [heq])
    rw [readDigits, if_neg hc, Option.bind_eq_some_iff] at hlast
    obtain ⟨d, hd, hn⟩ := hlast
    have hstands := (stands_iff hr).mpr hd
    obtain rfl : radix * m + d = n := Option.some.inj hn
    cases s with
    | nil =>
      obtain rfl : 0 = m := Option.some.inj hm
      simpa using Denotes.digit hstands
    | cons b s =>
      have hfront : '_' ∉ b :: s := fun hmem => hsep (List.mem_append_left [c] hmem)
      exact (ih (List.cons_ne_nil b s) hfront hm).snoc hstands

theorem readDigits_eq_some_iff (hr : radix ≤ 16) : readDigits radix 0 s = some n ↔
    (unseparated s = [] ∧ n = 0) ∨ Denotes radix (unseparated s) n := by
  rw [← readDigits_unseparated]
  constructor
  · intro h
    by_cases hnil : unseparated s = []
    · rw [hnil] at h
      exact .inl ⟨hnil, (Option.some.inj h).symm⟩
    · exact .inr (denotes_of_readDigits hr hnil (not_mem_unseparated s) h)
  · rintro (⟨hnil, rfl⟩ | hdigits)
    · rw [hnil]
      rfl
    · exact hdigits.readDigits hr

/-! ### Heads -/

inductive Head : List Char → Nat → Prop where
  | decimal : Head [] 10
  | hexadecimal {x : Char} (hx : x = 'x' ∨ x = 'X') : Head ['0', x] 16

inductive ForeignHead : List Char → Nat → Prop where
  | octal {o : Char} (ho : o = 'o' ∨ o = 'O') : ForeignHead ['0', o] 8
  | binary {b : Char} (hb : b = 'b' ∨ b = 'B') : ForeignHead ['0', b] 2

/-- The texts that numbers are documented to have. -/
def Documented (s : List Char) (n : Nat) : Prop :=
  ∃ head radix digits, Head head radix ∧ s = head ++ digits ∧ Denotes radix digits n

/-- The texts that are read beyond the documented ones: other heads, separators among the digits, and no
digit at all. -/
inductive Tolerated : List Char → Nat → Prop where
  | foreign {head digits : List Char} {radix n : Nat} (hhead : ForeignHead head radix)
    (h : Denotes radix (unseparated digits) n) : Tolerated (head ++ digits) n
  | separated {head digits : List Char} {radix n : Nat} (hhead : Head head radix)
    (hsep : '_' ∈ digits) (h : Denotes radix (unseparated digits) n) : Tolerated (head ++ digits) n
  | digitless {head digits : List Char} {radix : Nat}
    (hhead : Head head radix ∨ ForeignHead head radix) (hne : head ++ digits ≠ [])
    (h : ∀ c ∈ digits, c = '_') : Tolerated (head ++ digits) 0

theorem radix_le_of_head (h : Head head radix ∨ ForeignHead head radix) : radix ≤ 16 := by
  rcases h with h | h <;> cases h <;> decide

theorem exists_head (s : List Char) : ∃ head, s = head ++ (radixAndDigits s).2 ∧
    (Head head (radixAndDigits s).1 ∨ ForeignHead head (radixAndDigits s).1) := by
  fun_cases radixAndDigits s with
  | case1 s => exact ⟨['0', 'x'], rfl, .inl (.hexadecimal (.inl rfl))⟩
  | case2 s => exact ⟨['0', 'X'], rfl, .inl (.hexadecimal (.inr rfl))⟩
  | case3 s => exact ⟨['0', 'o'], rfl, .inr (.octal (.inl rfl))⟩
  | case4 s => exact ⟨['0', 'O'], rfl, .inr (.octal (.inr rfl))⟩
  | case5 s => exact ⟨['0', 'b'], rfl, .inr (.binary (.inl rfl))⟩
  | case6 s => exact ⟨['0', 'B'], rfl, .inr (.binary (.inr rfl))⟩
  | case7 s => exact ⟨[], rfl, .inl .decimal⟩

theorem radixAndDigits_of_decimal (h : ∀ c ∈ s, c = '_' ∨ ∃ d, Stands 10 c d) :
    radixAndDigits s = (10, s) := by
  -- A head has a letter behind its zero.
  have hletter : ∀ x ∈ ['x', 'X', 'o', 'O', 'b', 'B'], x ∉ s := by
    intro x hx hmem
    have hnone : ['x', 'X', 'o', 'O', 'b', 'B'].all fun x => digitBelow? 10 x == none && x != '_' := by
      decide
    obtain ⟨hdigit, hne⟩ : digitBelow? 10 x = none ∧ x ≠ '_' := by
      simpa using List.all_eq_true.mp hnone x hx
    rcases h x hmem with hsep | ⟨d, hd⟩
    · exact hne hsep
    · rw [stands_iff (by decide), hdigit] at hd
      cases hd
  fun_cases radixAndDigits s with
  | case7 s => rfl
  | case1 s | case2 s | case3 s | case4 s | case5 s | case6 s =>
    exact absurd (List.mem_cons_of_mem _ List.mem_cons_self) (hletter _ (by simp))

theorem radixAndDigits_append (hhead : Head head radix ∨ ForeignHead head radix)
    (h : ∀ c ∈ digits, c = '_' ∨ ∃ d, Stands radix c d) :
    radixAndDigits (head ++ digits) = (radix, digits) := by
  rcases hhead with (_ | hx) | (ho | hb)
  · exact radixAndDigits_of_decimal h
  · rcases hx with rfl | rfl <;> rfl
  · rcases ho with rfl | rfl <;> rfl
  · rcases hb with rfl | rfl <;> rfl

/-! ### Reading numbers -/

theorem readUnsigned_append (hhead : Head head radix ∨ ForeignHead head radix)
    (h : ∀ c ∈ digits, c = '_' ∨ ∃ d, Stands radix c d) :
    readUnsigned bound (head ++ digits) = some n ↔ n < bound ∧
      ((unseparated digits = [] ∧ n = 0) ∨ Denotes radix (unseparated digits) n) := by
  rw [readUnsigned, radixAndDigits_append hhead h]
  simp only [Option.filter_eq_some_iff, decide_eq_true_eq,
    readDigits_eq_some_iff (radix_le_of_head hhead), and_comm]

theorem Denotes.digit_or_separator (h : Denotes radix (unseparated s) n) :
    ∀ c ∈ s, c = '_' ∨ ∃ d, Stands radix c d := by
  intro c hc
  by_cases hsep : c = '_'
  · exact .inl hsep
  · exact .inr (h.stands c (List.mem_filter.mpr ⟨hc, by simpa using hsep⟩))

theorem Denotes.unseparated (hr : radix ≤ 16) (h : Denotes radix s n) :
    Denotes radix (unseparated s) n := by
  rwa [unseparated_of_not_mem (h.not_mem_separator hr)]

theorem Documented.cut (h : Documented s n) :
    ((radixAndDigits s).1 = 10 ∨ (radixAndDigits s).1 = 16) ∧
      '_' ∉ (radixAndDigits s).2 ∧ (radixAndDigits s).2 ≠ [] := by
  obtain ⟨head, radix, digits, hhead, rfl, hdigits⟩ := h
  rw [radixAndDigits_append (.inl hhead) fun c hc => .inr (hdigits.stands c hc)]
  refine ⟨?_, hdigits.not_mem_separator (radix_le_of_head (.inl hhead)), hdigits.ne_nil⟩
  cases hhead
  · exact .inl rfl
  · exact .inr rfl

theorem Documented.not_tolerated (h : Documented s n) : ¬Tolerated s m := by
  obtain ⟨hradix, hsep, hne⟩ := h.cut
  intro ht
  cases ht with
  | foreign hhead hdigits =>
    rw [radixAndDigits_append (.inr hhead) hdigits.digit_or_separator] at hradix
    cases hhead <;> simp at hradix
  | separated hhead hmem hdigits =>
    rw [radixAndDigits_append (.inl hhead) hdigits.digit_or_separator] at hsep
    exact hsep hmem
  | digitless hhead _ hall =>
    rw [radixAndDigits_append hhead fun c hc => .inl (hall c hc)] at hsep hne
    obtain ⟨c, hc⟩ := List.exists_mem_of_ne_nil _ hne
    exact hsep (hall c hc ▸ hc)

theorem readUnsigned_eq_some_iff (hne : s ≠ []) :
    readUnsigned bound s = some n ↔ n < bound ∧ (Documented s n ∨ Tolerated s n) := by
  constructor
  · intro h
    obtain ⟨head, hs, hhead⟩ := exists_head s
    have hr := radix_le_of_head hhead
    simp only [readUnsigned, Option.filter_eq_some_iff, decide_eq_true_eq,
      readDigits_eq_some_iff hr] at h
    obtain ⟨hread, hbound⟩ := h
    refine ⟨hbound, ?_⟩
    generalize radixAndDigits s = cut at hs hhead hr hread
    obtain ⟨radix, digits⟩ := cut
    subst hs
    rcases hread with ⟨hnone, rfl⟩ | hdigits
    · exact .inr (.digitless hhead hne (unseparated_eq_nil_iff.mp hnone))
    rcases hhead with hhead | hhead
    · by_cases hsep : '_' ∈ digits
      · exact .inr (.separated hhead hsep hdigits)
      · rw [unseparated_of_not_mem hsep] at hdigits
        exact .inl ⟨head, radix, digits, hhead, rfl, hdigits⟩
    · exact .inr (.foreign hhead hdigits)
  · rintro ⟨hbound, ⟨head, radix, digits, hhead, rfl, hdigits⟩ | ht⟩
    · have hread := hdigits.unseparated (radix_le_of_head (.inl hhead))
      exact (readUnsigned_append (.inl hhead) hread.digit_or_separator).mpr ⟨hbound, .inr hread⟩
    · cases ht with
      | foreign hhead hdigits =>
        exact (readUnsigned_append (.inr hhead) hdigits.digit_or_separator).mpr ⟨hbound, .inr hdigits⟩
      | separated hhead _ hdigits =>
        exact (readUnsigned_append (.inl hhead) hdigits.digit_or_separator).mpr ⟨hbound, .inr hdigits⟩
      | digitless hhead _ hall =>
        exact (readUnsigned_append hhead fun c hc => .inl (hall c hc)).mpr
          ⟨hbound, .inl ⟨unseparated_eq_nil_iff.mpr hall, rfl⟩⟩

/-! ### Plain numbers -/

def Plain (s : List Char) (n : Nat) : Prop :=
  ∃ digits, (s = digits ∨ s = '+' :: digits) ∧ Denotes 10 digits n

theorem stands_ten_iff {d : Nat} : Stands 10 c d ↔ isFigure c = true ∧ c.toNat - 48 = d := by
  rw [stands_iff (by decide), digitBelow?_eq_some, digitValue?]
  by_cases hfigure : '0' ≤ c ∧ c ≤ '9'
  · have hc : isFigure c = true := by simpa [isFigure] using hfigure
    have hle := (isFigure_iff.mp hc).2
    rw [if_pos hfigure, Option.some_inj, and_iff_right hc]
    exact ⟨fun h => h.1, fun h => ⟨h, by omega⟩⟩
  · have hc : ¬isFigure c = true := by simpa [isFigure] using hfigure
    -- The letters that stand for a value stand for ten or more.
    refine iff_of_false ?_ fun h => hc h.1
    rw [if_neg hfigure]
    rintro ⟨hvalue, hlt⟩
    split at hvalue
    · cases hvalue
      omega
    · split at hvalue
      · cases hvalue
        omega
      · cases hvalue

theorem denotes_ten_iff :
    Denotes 10 s n ↔ s ≠ [] ∧ (∀ c ∈ s, isFigure c = true) ∧ Double.figuresValue s = n := by
  constructor
  · intro h
    refine ⟨h.ne_nil, fun c hc => ?_, ?_⟩
    · obtain ⟨d, hd⟩ := h.stands c hc
      exact (stands_ten_iff.mp hd).1
    · induction h with
      | digit hd => exact (Nat.zero_add _).trans (stands_ten_iff.mp hd).2
      | snoc _ hd ih => rw [figuresValue_snoc, ih, (stands_ten_iff.mp hd).2]
  · rintro ⟨hne, hall, hvalue⟩
    induction s using List.reverseRecOn generalizing n with
    | nil => exact absurd rfl hne
    | append_singleton s c ih =>
      have hc : Stands 10 c (c.toNat - 48) := stands_ten_iff.mpr ⟨hall c (by simp), rfl⟩
      rw [figuresValue_snoc] at hvalue
      subst hvalue
      cases s with
      | nil => exact (Nat.zero_add (c.toNat - 48)).symm ▸ .digit hc
      | cons b s =>
        have hfront : ∀ c ∈ b :: s, isFigure c = true := fun c hc => hall c (List.mem_append_left _ hc)
        exact (ih (List.cons_ne_nil b s) hfront rfl).snoc hc

theorem readFigures_eq_some_iff : readFigures s = some n ↔ Denotes 10 s n := by
  rw [denotes_ten_iff, readFigures, ← List.all_eq_true]
  split
  · next h =>
    rw [Option.some_inj, and_iff_right h.1, and_iff_right h.2]
    rfl
  · next h =>
    refine iff_of_false (Option.some_ne_none n).symm ?_
    rintro ⟨hne, hall, -⟩
    exact h ⟨hne, hall⟩

theorem not_denotes_plus : ¬Denotes 10 ('+' :: s) n := by
  intro h
  have hplus := (denotes_ten_iff.mp h).2.1 '+' List.mem_cons_self
  exact absurd hplus (by decide)

theorem readNat_eq_some_iff : readNat bound s = some n ↔ n < bound ∧ Plain s n := by
  fun_cases readNat bound s with
  | case1 s =>
    rw [Option.filter_eq_some_iff, decide_eq_true_eq, readFigures_eq_some_iff, and_comm]
    refine and_congr_right fun _ => ⟨fun h => ⟨s, .inr rfl, h⟩, ?_⟩
    rintro ⟨digits, rfl | ⟨⟨⟩⟩, h⟩
    · exact absurd h not_denotes_plus
    · exact h
  | case2 s hplus =>
    rw [Option.filter_eq_some_iff, decide_eq_true_eq, readFigures_eq_some_iff, and_comm]
    refine and_congr_right fun _ => ⟨fun h => ⟨s, .inl rfl, h⟩, ?_⟩
    rintro ⟨digits, rfl | rfl, h⟩
    · exact h
    · exact absurd rfl (hplus digits)

end TokenAudit.Numeral
