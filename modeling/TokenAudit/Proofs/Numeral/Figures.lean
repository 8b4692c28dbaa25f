import TokenAudit.Double

/-! Whole numbers and the figures that they are written with: what is read back from the decimal
figures of a number, and from its hexadecimal quantity, is the number. -/

namespace TokenAudit

namespace Numeral

/-! ### Decimal figures -/

theorem isFigure_iff {c : Char} : isFigure c = true ↔ 48 ≤ c.toNat ∧ c.toNat ≤ 57 := by
  simp only [isFigure, Bool.and_eq_true, decide_eq_true_eq, Char.le_def, UInt32.le_iff_toNat_le]
  rfl

theorem isFigure_of_mem_decimal {n : Nat} {c : Char} (h : c ∈ decimal n) : isFigure c = true :=
  Nat.isDigit_of_mem_toDigits (by decide) (by decide) h

theorem decimal_ne_nil (n : Nat) : decimal n ≠ [] := Nat.toDigits_ne_nil

theorem exists_decimal (n : Nat) : ∃ c s, decimal n = c :: s ∧ isFigure c = true := by
  obtain ⟨c, s, hcs⟩ := List.exists_cons_of_ne_nil (decimal_ne_nil n)
  have hmem : c ∈ decimal n := hcs ▸ List.mem_cons_self
  exact ⟨c, s, hcs, isFigure_of_mem_decimal hmem⟩

theorem figuresValue_eq (s : List Char) : Double.figuresValue s = Nat.ofDigitChars 10 s 0 :=
  Nat.ofDigitChars_eq_foldl.symm

theorem figuresValue_decimal (n : Nat) : Double.figuresValue (decimal n) = n := by
  rw [figuresValue_eq, decimal, Nat.ofDigitChars_ten_toDigits]

theorem figuresValue_snoc (s : List Char) (c : Char) :
    Double.figuresValue (s ++ [c]) = 10 * Double.figuresValue s + (c.toNat - 48) := by
  rw [Double.figuresValue, List.foldl_append]
  rfl

theorem readFigures_of_figures {s : List Char} (hne : s ≠ []) (h : ∀ c ∈ s, isFigure c = true) :
    readFigures s = some (Double.figuresValue s) := by
  rw [readFigures, if_pos ⟨hne, List.all_eq_true.mpr h⟩]
  rfl

theorem head?_decimal {n : Nat} (hn : 0 < n) : (decimal n).head? ≠ some '0' := by
  induction n using Nat.strongRecOn with
  | ind n ih =>
    have hdigits : decimal n = if n < 10 then [n.digitChar] else decimal (n / 10) ++ [(n % 10).digitChar] :=
      Nat.toDigits_eq_if (by decide)
    rw [hdigits]
    by_cases h : n < 10
    · have hsmall : ∀ m < 10, 0 < m → [m.digitChar].head? ≠ some '0' := by decide
      rw [if_pos h]
      exact hsmall n h hn
    · have hrest : 0 < n / 10 := Nat.div_pos (Nat.le_of_not_lt h) (by decide)
      have hhead := ih (n / 10) (Nat.div_lt_self hn (by decide)) hrest
      obtain ⟨c, cs, hcs⟩ := List.exists_cons_of_ne_nil (decimal_ne_nil (n / 10))
      rw [hcs] at hhead
      rw [if_neg h, hcs]
      exact hhead

theorem length_decimal_zero : (decimal 0).length = 1 := rfl

/-! ### Hexadecimal quantities -/

theorem readDigits_append (radix n : Nat) (s t : List Char) :
    readDigits radix n (s ++ t) = (readDigits radix n s).bind fun m => readDigits radix m t := by
  induction s generalizing n with
  | nil => rfl
  | cons c s ih =>
    rw [List.cons_append, readDigits, readDigits]
    by_cases hc : c = '_'
    · rw [if_pos hc, if_pos hc, ih]
    · rw [if_neg hc, if_neg hc]
      cases digitBelow? radix c with
      | none => rfl
      | some d => exact ih _

theorem readDigits_digitChar {d : Nat} (h : d < 16) (n : Nat) :
    readDigits 16 n [d.digitChar] = some (16 * n + d) := by
  have hdigit : ∀ d < 16, d.digitChar ≠ '_' ∧ digitBelow? 16 d.digitChar = some d := by decide
  obtain ⟨hseparator, hvalue⟩ := hdigit d h
  rw [readDigits, if_neg hseparator, hvalue]
  rfl

theorem readDigits_hex (n : Nat) : readDigits 16 0 (hex n) = some n := by
  induction n using Nat.strongRecOn with
  | ind n ih =>
    have hdigits : hex n = if n < 16 then [n.digitChar] else hex (n / 16) ++ [(n % 16).digitChar] :=
      Nat.toDigits_eq_if (by decide)
    rw [hdigits]
    by_cases h : n < 16
    · rw [if_pos h, readDigits_digitChar h, Nat.mul_zero, Nat.zero_add]
    · have hless : n / 16 < n := by omega
      rw [if_neg h, readDigits_append, ih (n / 16) hless, Option.bind_some,
        readDigits_digitChar (Nat.mod_lt n (by decide)), Nat.div_add_mod]

theorem readUnsigned_quantity {n bound : Nat} (h : n < bound) :
    readUnsigned bound (quantity n) = some n := by
  have hradix : radixAndDigits (quantity n) = (16, hex n) := rfl
  rw [readUnsigned, hradix]
  simp only [readDigits_hex, Option.filter_some, h, decide_true, if_true]

end Numeral

end TokenAudit
