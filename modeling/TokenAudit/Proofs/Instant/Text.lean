import Mathlib.Algebra.Group.Nat.Defs
import Mathlib.Data.List.TakeWhile
import TokenAudit.Instant
import TokenAudit.Proofs.Numeral.Figures

/-! Instants and their texts: every instant of the years from 0 to 9999 reads back from its text, to the
nanosecond and leap seconds among them. -/

namespace TokenAudit.Instant

/-! ### Padded figures -/

theorem isFigure_of_mem_padded {width n : Nat} {c : Char} (h : c ∈ padded width n) :
    Numeral.isFigure c = true := by
  rcases List.mem_append.mp h with hzero | hfigure
  · rw [List.eq_of_mem_replicate hzero]
    decide
  · exact Numeral.isFigure_of_mem_decimal hfigure

theorem padded_ne_nil (width n : Nat) : padded width n ≠ [] :=
  List.append_ne_nil_of_right_ne_nil _ (Numeral.decimal_ne_nil n)

theorem length_padded {width n : Nat} (hw : 0 < width) (h : n < 10 ^ width) :
    (padded width n).length = width := by
  have hshort : (Numeral.decimal n).length ≤ width :=
    (Nat.length_toDigits_le_iff (by decide) hw).mpr h
  rw [padded, List.length_append, List.length_replicate, Nat.sub_add_cancel hshort]

theorem readFigures_padded (width n : Nat) : Numeral.readFigures (padded width n) = some n := by
  have hvalue : Double.figuresValue (padded width n) = n := by
    rw [Numeral.figuresValue_eq, padded, Nat.ofDigitChars_append, Nat.ofDigitChars_replicate_zero,
      Nat.mul_zero, ← Numeral.figuresValue_eq, Numeral.figuresValue_decimal]
  rw [Numeral.readFigures_of_figures (padded_ne_nil width n) fun _ hc => isFigure_of_mem_padded hc,
    hvalue]

theorem takeNumber_padded (width : Nat) {n : Nat} (hw : 0 < width) (h : n < 10 ^ width)
    (rest : List Char) :
    takeNumber width (padded width n ++ rest) = some (n, rest) := by
  have hlength := length_padded hw h
  have hfigures : (padded width n).takeWhile Numeral.isFigure = padded width n :=
    List.takeWhile_eq_self_iff.mpr fun _ hc => isFigure_of_mem_padded hc
  have htake : (padded width n ++ rest).take width = padded width n := List.take_left' hlength
  have hdrop : (padded width n ++ rest).drop width = rest := List.drop_left' hlength
  rw [takeNumber, htake, hfigures, readFigures_padded, hlength, hdrop, Option.map_some]

/-! ### The parts of a text -/

theorem skipBlank_of_not_blank {c : Char} (h : isBlank c = false) (s : List Char) :
    skipBlank (c :: s) = c :: s := by
  rw [skipBlank, List.dropWhile_cons_of_neg (by rw [h]; decide)]

theorem exists_padded (width n : Nat) : ∃ c s, padded width n = c :: s ∧ Numeral.isFigure c = true := by
  obtain ⟨c, s, hcs⟩ := List.exists_cons_of_ne_nil (padded_ne_nil width n)
  have hmem : c ∈ padded width n := hcs ▸ List.mem_cons_self
  exact ⟨c, s, hcs, isFigure_of_mem_padded hmem⟩

theorem isBlank_of_isFigure {c : Char} (h : Numeral.isFigure c = true) : isBlank c = false := by
  obtain ⟨hlow, hhigh⟩ := Numeral.isFigure_iff.mp h
  simp [isBlank]
  omega

theorem skipBlank_padded (width n : Nat) (rest : List Char) :
    skipBlank (padded width n ++ rest) = padded width n ++ rest := by
  obtain ⟨c, s, hcs, hfigure⟩ := exists_padded width n
  rw [hcs, List.cons_append, skipBlank_of_not_blank (isBlank_of_isFigure hfigure)]

theorem takeYear_padded {n : Nat} (h : n < 10000) (rest : List Char) :
    takeYear (padded 4 n ++ rest) = some (Int.ofNat n, rest) := by
  have hnumber := takeNumber_padded 4 (by decide) h rest
  obtain ⟨c, s, hcs, hfigure⟩ := exists_padded 4 n
  rw [hcs, List.cons_append] at hnumber ⊢
  rw [takeYear, hnumber, Option.map_some]
  all_goals
    intro t heq
    rw [(List.cons.inj heq).1] at hfigure
    exact absurd hfigure (by decide)

theorem takePart_padded {c : Char} (hc : isBlank c = false) {n : Nat} (h : n < 100)
    (rest : List Char) : takePart c (c :: (padded 2 n ++ rest)) = some (n, rest) := by
  have hmark : takeMark c (c :: (padded 2 n ++ rest)) = some (padded 2 n ++ rest) := by
    rw [takeMark, skipBlank_of_not_blank hc]
    exact if_pos rfl
  have hnumber := takeNumber_padded 2 (by decide) h rest
  simp only [takePart, hmark, Option.bind_eq_bind, Option.bind_some, skipBlank_padded, hnumber]

theorem takeFraction_padded (places : Nat) {nano : Nat} (hp : 0 < places) (hle : places ≤ 9)
    (h : nano < 10 ^ 9) (hleft : nano % 10 ^ (9 - places) = 0) :
    takeFraction ('.' :: (padded places (nano / 10 ^ (9 - places)) ++ ['Z'])) = some (nano, ['Z']) := by
  have hshort : nano / 10 ^ (9 - places) < 10 ^ places := by
    rw [Nat.div_lt_iff_lt_mul (Nat.pow_pos (by decide)), ← Nat.pow_add, Nat.add_sub_cancel' hle]
    exact h
  have hvalue : nano / 10 ^ (9 - places) * 10 ^ (9 - places) = nano :=
    Nat.div_mul_cancel (Nat.dvd_of_mod_eq_zero hleft)
  have hlength := length_padded hp hshort
  have hfigures := fun c (hc : c ∈ padded places (nano / 10 ^ (9 - places))) => isFigure_of_mem_padded hc
  have hstop : ∀ k, (['Z'].take k).takeWhile Numeral.isFigure = [] := by
    rintro (_ | k)
    · rfl
    · rfl
  have htake : ((padded places (nano / 10 ^ (9 - places)) ++ ['Z']).take 9).takeWhile Numeral.isFigure =
      padded places (nano / 10 ^ (9 - places)) := by
    rw [List.take_append, List.take_of_length_le (Nat.le_trans (Nat.le_of_eq hlength) hle),
      List.takeWhile_append_of_pos hfigures, hstop, List.append_nil]
  have hdrop : (padded places (nano / 10 ^ (9 - places)) ++ ['Z']).dropWhile Numeral.isFigure = ['Z'] := by
    rw [List.dropWhile_append_of_pos hfigures]
    rfl
  simp only [takeFraction, htake, hdrop, readFigures_padded, hlength, Option.bind_eq_bind,
    Option.bind_some, Option.pure_def]
  exact congrArg (fun n => some (n, ['Z'])) hvalue

theorem takeFraction_fractionText {nano : Nat} (h : nano < 1000000000) :
    takeFraction (fractionText nano ++ ['Z']) = some (nano, ['Z']) := by
  unfold fractionText
  split
  · rename_i hzero
    rw [hzero]
    rfl
  split
  · rename_i hmillis
    exact takeFraction_padded 3 (by decide) (by decide) h hmillis
  split
  · rename_i hmicros
    exact takeFraction_padded 6 (by decide) (by decide) h hmicros
  · have hnanos := takeFraction_padded 9 (by decide) (by decide) h (Nat.mod_one nano)
    rw [Nat.sub_self, Nat.pow_zero, Nat.div_one] at hnanos
    exact hnanos

/-! ### Whole texts -/

/-- An instant of the years that four figures write. Only the last second of a minute may be a leap. -/
structure Civil (i : Instant) : Prop where
  year_nonneg : 0 ≤ i.year
  year_le : i.year ≤ 9999
  date : validDate i.year i.month i.day = true
  second_lt : i.second < secondsOfDay
  nano_lt : i.nano < 1000000000 ∨ i.second % 60 = 59 ∧ i.nano < 2000000000

def shownSecond (i : Instant) : Nat := i.second % 60 + i.nano / 1000000000

section

variable {i : Instant} (h : i.Civil)

include h

theorem Civil.month_lt : i.month < 100 := by
  have hdate := h.date
  simp only [validDate, Bool.and_eq_true, decide_eq_true_eq] at hdate
  omega

theorem Civil.day_lt : i.day < 100 := by
  have hdate := h.date
  have hmonth : daysIn i.year i.month ≤ 31 := by
    unfold daysIn
    split
    · split <;> decide
    all_goals decide
  simp only [validDate, Bool.and_eq_true, decide_eq_true_eq] at hdate
  omega

theorem Civil.shownSecond_le : i.shownSecond ≤ 60 := by
  have hnano := h.nano_lt
  rw [shownSecond]
  omega

theorem Civil.yearText : yearText i.year = padded 4 i.year.toNat :=
  if_pos ⟨h.year_nonneg, h.year_le⟩

theorem Civil.render : i.render =
    padded 4 i.year.toNat ++ '-' :: (padded 2 i.month ++ '-' :: (padded 2 i.day ++ 'T' ::
      (padded 2 (i.second / 3600) ++ ':' :: (padded 2 (i.second / 60 % 60) ++ ':' ::
        (padded 2 i.shownSecond ++ (fractionText (i.nano % 1000000000) ++ ['Z'])))))) := by
  rw [Instant.render, h.yearText, shownSecond]
  simp only [List.append_assoc, List.cons_append]

theorem Civil.reread :
    (if i.shownSecond = 60 then
      (⟨i.year, i.month, i.day, i.second / 3600 * 3600 + i.second / 60 % 60 * 60 + 59,
        1000000000 + i.nano % 1000000000⟩ : Instant)
    else ⟨i.year, i.month, i.day, i.second / 3600 * 3600 + i.second / 60 % 60 * 60 + i.shownSecond,
      i.nano % 1000000000⟩) = i := by
  -- The last second of a minute and a leap second share their second of the day.
  have hnano := h.nano_lt
  unfold shownSecond
  split
  · have hsecond : i.second / 3600 * 3600 + i.second / 60 % 60 * 60 + 59 = i.second := by omega
    have hleap : 1000000000 + i.nano % 1000000000 = i.nano := by omega
    rw [hsecond, hleap]
  · have hsecond : i.second / 3600 * 3600 + i.second / 60 % 60 * 60 +
        (i.second % 60 + i.nano / 1000000000) = i.second := by omega
    have hshort : i.nano % 1000000000 = i.nano := by omega
    rw [hsecond, hshort]

theorem Civil.shiftBack_zero : i.shiftBack 0 = i := by
  have hlow : ¬(i.second : Int) < 0 := Int.not_lt.mpr (Int.natCast_nonneg _)
  have hhigh : ¬(secondsOfDay : Int) ≤ i.second := Int.not_le.mpr (Int.ofNat_lt.mpr h.second_lt)
  simp only [shiftBack, Int.sub_zero, Int.ofNat_eq_natCast]
  rw [if_neg hlow, if_neg hhigh, Int.toNat_natCast]

theorem Civil.parse_text : parse i.text = some i := by
  have hyear : i.year.toNat < 10000 := by
    have hle := h.year_le
    omega
  have hhour : i.second / 3600 < 24 := by
    have hsecond : i.second < 86400 := h.second_lt
    omega
  have hminute : i.second / 60 % 60 < 60 := Nat.mod_lt _ (by decide)
  have hvalue : Int.ofNat i.year.toNat = i.year := Int.toNat_of_nonneg h.year_nonneg
  have hvalid : ¬(¬validDate i.year i.month i.day = true ∨ 24 ≤ i.second / 3600 ∨
      60 ≤ i.second / 60 % 60 ∨ 61 ≤ i.shownSecond) := by
    have hshown := h.shownSecond_le
    have hdate := h.date
    rintro (hinvalid | hlate | hlate | hlate)
    · exact hinvalid hdate
    all_goals omega
  have hmark : ¬¬('T' = 't' ∨ True ∨ 'T' = ' ') := by decide
  have hzone : readOffset (Text.trim ['Z']) = some 0 := by decide
  have hdash : isBlank '-' = false := by decide
  have hcolon : isBlank ':' = false := by decide
  rw [parse, text, String.toList_ofList, h.render, parseChars]
  -- The parts one after another, each with what is left of the text.
  simp only [Option.bind_eq_bind, Option.bind_some, Option.map_some, skipBlank_padded,
    takeYear_padded hyear, takePart_padded hdash h.month_lt, takePart_padded hdash h.day_lt,
    List.head?_cons, List.drop_succ_cons, List.drop_zero,
    takeNumber_padded 2 (by decide) (Nat.lt_trans hhour (by decide)),
    takePart_padded hcolon (Nat.lt_trans hminute (by decide)),
    takePart_padded hcolon (Nat.lt_of_le_of_lt h.shownSecond_le (by decide)),
    takeFraction_fractionText (Nat.mod_lt _ (by decide)), hzone]
  rw [if_neg hmark, hvalue, if_neg hvalid, h.reread, h.shiftBack_zero]
  rfl

end

end TokenAudit.Instant
