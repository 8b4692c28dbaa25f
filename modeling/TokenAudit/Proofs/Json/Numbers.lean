import Mathlib.Data.List.Induction
import TokenAudit.Proofs.Double.Rounding
import TokenAudit.Proofs.Numeral.Figures

/-! Which numbers of a JSON text are taken. Figures are taken as long as they fit into 64 bits, the rest of
them count as powers of ten only, and the double that the figures make must stay finite when it is scaled
by the double nearest to the power of ten. -/

namespace TokenAudit.Json

open Double (figuresValue nearest overflow)

/-! ### Figures that fit -/

/-- Of the figures that come after others, as many as fit into 64 bits together with those. -/
structure Longest (before taken rest : List Char) : Prop where
  fits : figuresValue (before ++ taken) < UInt64.size
  most : ∀ c ∈ rest.head?, UInt64.size ≤ figuresValue (before ++ taken ++ [c])

theorem figuresValue_le_append (s t : List Char) : figuresValue s ≤ figuresValue (s ++ t) := by
  induction t using List.reverseRecOn with
  | nil => rw [List.append_nil]
  | append_singleton t c ih =>
    rw [← List.append_assoc, Numeral.figuresValue_snoc]
    omega

theorem exists_longest (before s : List Char) (h : figuresValue before < UInt64.size) :
    ∃ taken rest, s = taken ++ rest ∧ Longest before taken rest := by
  induction s generalizing before with
  | nil =>
    refine ⟨[], [], rfl, ?_, nofun⟩
    rwa [List.append_nil]
  | cons c s ih =>
    rcases Nat.lt_or_ge (figuresValue (before ++ [c])) UInt64.size with hc | hc
    · obtain ⟨taken, rest, hs, hlongest⟩ := ih (before ++ [c]) hc
      obtain ⟨hfits, hmost⟩ := hlongest
      rw [List.append_assoc] at hfits hmost
      exact ⟨c :: taken, rest, congrArg (c :: ·) hs, hfits, hmost⟩
    · refine ⟨[], c :: s, rfl, ?_, ?_⟩
      · rwa [List.append_nil]
      · rintro d ⟨⟩
        rwa [List.append_nil]

theorem Longest.significand {before taken rest : List Char} (h : Longest before taken rest) :
    significand (figuresValue before) (taken ++ rest) =
      (figuresValue (before ++ taken), rest.length) := by
  induction taken generalizing before with
  | nil =>
    rw [List.append_nil, List.nil_append]
    cases rest with
    | nil => rfl
    | cons c rest =>
      have hmost := h.most c rfl
      rw [List.append_nil, Numeral.figuresValue_snoc] at hmost
      exact if_neg (Nat.not_lt_of_le hmost)
  | cons c taken ih =>
    have hc : 10 * figuresValue before + (c.toNat - 48) < UInt64.size := by
      rw [← Numeral.figuresValue_snoc]
      refine Nat.lt_of_le_of_lt (figuresValue_le_append _ taken) ?_
      rw [List.append_assoc]
      exact h.fits
    have hrest : Longest (before ++ [c]) taken rest := by
      obtain ⟨hfits, hmost⟩ := h
      rw [← List.singleton_append, ← List.append_assoc] at hfits hmost
      exact ⟨hfits, hmost⟩
    rw [List.cons_append, Json.significand, if_pos hc, ← Numeral.figuresValue_snoc, ih hrest, List.append_assoc]
    rfl

/-! ### What a literal counts -/

/-- The figures that are taken of a literal make a number, and the power of ten makes up for its point, its
exponent, and the figures before the point that are dropped. -/
def Literal.Counts (l : Literal) (n : Nat) (power : Int) : Prop :=
  ∃ whole dropped fraction left,
    l.whole = whole ++ dropped ∧ Longest [] whole dropped ∧
    l.fraction.getD [] = fraction ++ left ∧ Longest whole fraction left ∧
    n = figuresValue (whole ++ fraction) ∧
    power = (dropped.length : Int) - fraction.length + l.shift

/-- A number that is not zero must not overflow when it is scaled up, in doubles, by its power of ten. -/
def Literal.InRange (l : Literal) : Prop :=
  ∃ n power, l.Counts n power ∧
    (n = 0 ∨ power < 0 ∨ power ≤ 308 ∧ nearest n * nearest (10 ^ power.toNat) < overflow)

theorem Literal.Counts.fits {l : Literal} {n : Nat} {power : Int} (h : l.Counts n power) :
    n < UInt64.size := by
  obtain ⟨whole, dropped, fraction, left, -, -, -, hlongest, rfl, -⟩ := h
  exact hlongest.fits

theorem Literal.exists_counts (l : Literal) : ∃ n power, l.Counts n power := by
  obtain ⟨whole, dropped, hwhole, hlongest⟩ := exists_longest [] l.whole (by decide)
  obtain ⟨fraction, left, hfraction, hlongest'⟩ :=
    exists_longest whole (l.fraction.getD []) hlongest.fits
  exact ⟨_, _, whole, dropped, fraction, left, hwhole, hlongest, hfraction, hlongest', rfl, rfl⟩

theorem Literal.Counts.taken {l : Literal} {n : Nat} {power : Int} (h : l.Counts n power) :
    l.taken = (n, power) := by
  obtain ⟨whole, dropped, fraction, left, hwhole, hlongest, hfraction, hlongest', rfl, rfl⟩ := h
  have hfirst : significand 0 l.whole = (figuresValue whole, dropped.length) := by
    rw [hwhole]
    exact hlongest.significand
  have hsecond : significand (figuresValue whole) (l.fraction.getD []) =
      (figuresValue (whole ++ fraction), left.length) := by
    rw [hfraction]
    exact hlongest'.significand
  have hlength : (l.fraction.getD []).length - left.length = fraction.length := by
    rw [hfraction, List.length_append, Nat.add_sub_cancel]
  simp only [Literal.taken, hfirst, hsecond, hlength]
  rfl

theorem Literal.Counts.inRange_iff {l : Literal} {n : Nat} {power : Int} (h : l.Counts n power) :
    l.InRange ↔
      n = 0 ∨ power < 0 ∨ power ≤ 308 ∧ nearest n * nearest (10 ^ power.toNat) < overflow := by
  constructor
  · rintro ⟨n', power', h', hrange⟩
    have hsame := h.taken.symm.trans h'.taken
    rw [Prod.mk.injEq] at hsame
    rwa [hsame.1, hsame.2]
  · exact fun hrange => ⟨n, power, h, hrange⟩

/-! ### Scaling -/

theorem scaled_of_neg (fuel : Nat) (x : Float) {power : Int} (h : power < 0) :
    scaled fuel x power ≠ none := by
  induction fuel generalizing x power with
  | zero => exact Option.some_ne_none _
  | succ fuel ih =>
    rw [scaled, if_neg (Int.not_le.mpr h), if_neg (Int.not_le.mpr h)]
    split
    · exact Option.some_ne_none _
    split
    · exact Option.some_ne_none _
    · exact ih _ (by omega)

theorem scaled_ne_none_iff {n : Nat} (hn : n ≠ 0) (hfits : n < UInt64.size) (fuel : Nat) (power : Int) :
    scaled (fuel + 1) n.toUInt64.toFloat power ≠ none ↔
      power < 0 ∨ power ≤ 308 ∧ nearest n * nearest (10 ^ power.toNat) < overflow := by
  have hx := Double.holds_toFloat hn hfits
  by_cases hneg : power < 0
  · exact iff_of_true (scaled_of_neg _ _ hneg) (.inl hneg)
  · have hpos : 0 ≤ power := Int.not_lt.mp hneg
    obtain ⟨p, rfl⟩ := Int.eq_ofNat_of_zero_le hpos
    rw [scaled, if_pos hpos, if_pos hpos, or_iff_right hneg]
    by_cases hsmall : p ≤ 308
    · have hinf := Double.mul_isInf_iff hx (Double.holds_powerOfTen hsmall)
      rw [Int.natAbs_natCast, Int.toNat_natCast, if_pos hsmall, ← Nat.not_le, ← hinf]
      dsimp only
      split
      · next h => exact iff_of_false (fun h => h rfl) (fun h' => h'.2 h)
      · next h => exact iff_of_true (Option.some_ne_none _) ⟨Int.ofNat_le.mpr hsmall, h⟩
    · rw [Int.natAbs_natCast, if_neg hsmall, hx.ne_zero]
      refine iff_of_false (fun h => h rfl) fun h => hsmall ?_
      omega

theorem Literal.float?_ne_none_iff (l : Literal) : l.float? ≠ none ↔ l.InRange := by
  obtain ⟨n, power, hcounts⟩ := l.exists_counts
  rw [hcounts.inRange_iff, Literal.float?, hcounts.taken]
  dsimp only
  rw [ne_eq, Option.map_eq_none_iff, ← ne_eq]
  by_cases hzero : n = 0
  · rw [if_pos hzero]
    exact iff_of_true (Option.some_ne_none _) (.inl hzero)
  · rw [if_neg hzero, or_iff_right hzero]
    by_cases htiny : power < -4000
    · rw [if_pos htiny]
      exact iff_of_true (Option.some_ne_none _) (.inl (by omega))
    · rw [if_neg htiny]
      exact scaled_ne_none_iff hzero hcounts.fits 19 power

theorem Literal.inRange_of_whole {l : Literal} (hfraction : l.fraction = none)
    (hexponent : l.exponent = none) (h : figuresValue l.whole < UInt64.size) : l.InRange := by
  have hcounts : l.Counts (figuresValue l.whole) 0 := by
    refine ⟨l.whole, [], [], [], (List.append_nil _).symm, ⟨h, nofun⟩, ?_, ⟨?_, nofun⟩, ?_, ?_⟩
    · rw [hfraction]
      rfl
    · rwa [List.append_nil]
    · rw [List.append_nil]
    · rw [Literal.shift, hexponent]
      rfl
  have hone : nearest (10 ^ (0 : Int).toNat) = 1 := by decide
  refine hcounts.inRange_iff.mpr (.inr (.inr ⟨by decide, ?_⟩))
  rw [hone, Nat.mul_one]
  exact Double.nearest_lt_overflow (Double.le_pow_maxPower h)

theorem Literal.number?_ne_none_iff (l : Literal) : l.number? ≠ none ↔ l.InRange := by
  rw [Literal.number?]
  split
  · next h =>
    obtain ⟨hfraction, hexponent, -, hfits⟩ := h
    rw [Option.isNone_iff_eq_none] at hfraction hexponent
    exact iff_of_true (Option.some_ne_none _) (inRange_of_whole hfraction hexponent hfits)
  split
  · next h =>
    obtain ⟨hfraction, hexponent, -, -, hbound⟩ := h
    rw [Option.isNone_iff_eq_none] at hfraction hexponent
    have hfits := Nat.lt_of_le_of_lt hbound (by decide : Numeral.int64Bound < UInt64.size)
    exact iff_of_true (Option.some_ne_none _) (inRange_of_whole hfraction hexponent hfits)
  · rw [ne_eq, Option.map_eq_none_iff, ← ne_eq, float?_ne_none_iff]

-- A number below the largest double that is refused, and one above it that is taken.
example : ¬(⟨false, "17976931348623157081".toList, none, some (false, "289".toList)⟩ : Literal).InRange := by
  rw [← Literal.number?_ne_none_iff]
  decide +kernel

example : (⟨false, "179769313486231580".toList, none, some (false, "291".toList)⟩ : Literal).InRange := by
  rw [← Literal.number?_ne_none_iff]
  decide +kernel

end TokenAudit.Json
