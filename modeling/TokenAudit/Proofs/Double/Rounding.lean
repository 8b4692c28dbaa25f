import Mathlib
import TokenAudit.Json.Reader

/-! Rounding to doubles in exact arithmetic: the double nearest to a whole number, and the products of
doubles that are finite. -/

namespace TokenAudit.Double

open Float.Model Float.Model.UnpackedFloat

/-- The whole number nearest to a quotient; of two, the even one. -/
def nearestQuotient (n d : Nat) : Nat :=
  if 2 * (n % d) < d ∨ 2 * (n % d) = d ∧ n / d % 2 = 0 then n / d else n / d + 1

/-- What the last of fifty-three binary places of a whole number counts, or one if it has fewer. -/
def place (n : Nat) : Nat := 2 ^ (n.log2 - 52)

/-- A whole number rounded to fifty-three binary places. -/
def nearest (n : Nat) : Nat := nearestQuotient n (place n) * place n

/-- Halfway from the largest double to the next power of two; what lies there or above is infinite. -/
def overflow : Nat := 2 ^ 1024 - 2 ^ 970

/-! ### Quotients -/

theorem le_nearestQuotient (n d : Nat) : n / d ≤ nearestQuotient n d := by
  unfold nearestQuotient
  split
  · exact Nat.le_refl _
  · exact Nat.le_succ _

theorem nearestQuotient_le (n d : Nat) : nearestQuotient n d ≤ n / d + 1 := by
  unfold nearestQuotient
  split
  · exact Nat.le_succ _
  · exact Nat.le_refl _

theorem nearestQuotient_one (n : Nat) : nearestQuotient n 1 = n := by
  unfold nearestQuotient
  rw [Nat.mod_one, Nat.div_one, if_pos (.inl (by decide))]

theorem nearestQuotient_mul_right (n d : Nat) {k : Nat} (hk : 0 < k) :
    nearestQuotient (n * k) (d * k) = nearestQuotient n d := by
  have hlt : 2 * (n % d * k) < d * k ↔ 2 * (n % d) < d := by
    rw [← Nat.mul_assoc]
    exact Nat.mul_lt_mul_right hk
  have heq : 2 * (n % d * k) = d * k ↔ 2 * (n % d) = d := by
    rw [← Nat.mul_assoc]
    exact Nat.mul_left_inj hk.ne'
  simp only [nearestQuotient, Nat.mul_mod_mul_right, Nat.mul_div_mul_right n d hk, hlt, heq]

theorem place_pos (n : Nat) : 0 < place n := Nat.two_pow_pos _

/-! ### Shifting out bits -/

/-- A mantissa and its two residual bits stand for a quotient. -/
structure Stands (em : ExtendedMantissa) (n d : Nat) : Prop where
  mantissa : em.mantissa = n / d
  round : em.roundBit = true ↔ d ≤ 2 * (n % d)
  sticky : em.stickyBit = true ↔ n % d ≠ 0 ∧ 2 * (n % d) ≠ d

theorem Stands.roundedMantissa {em : ExtendedMantissa} {n d : Nat} (h : Stands em n d) (hd : 0 < d) :
    em.roundedMantissa = nearestQuotient n d := by
  obtain ⟨m, round, sticky⟩ := em
  obtain ⟨hmantissa, hround, hsticky⟩ := h
  dsimp only at hmantissa hround hsticky
  subst hmantissa
  unfold nearestQuotient
  cases round with
  | false =>
    have hdown : 2 * (n % d) < d := by simpa using hround
    rw [if_pos (.inl hdown)]
    cases sticky <;> rfl
  | true =>
    have hup : d ≤ 2 * (n % d) := hround.mp rfl
    cases sticky with
    | false =>
      have htie : 2 * (n % d) = d := by
        have hno := mt hsticky.mpr Bool.false_ne_true
        omega
      change n / d + n / d % 2 = _
      split
      · omega
      · omega
    | true =>
      have hno : ¬(2 * (n % d) < d ∨ 2 * (n % d) = d ∧ n / d % 2 = 0) := by
        have hpast := (hsticky.mp rfl).2
        omega
      rw [if_neg hno]
      rfl

theorem stands_exact (n : Nat) : Stands (.ofMantissaAndAccuracy n .exact) n 1 where
  mantissa := (Nat.div_one n).symm
  round := by
    rw [Nat.mod_one]
    exact iff_of_false Bool.false_ne_true (by decide)
  sticky := by
    rw [Nat.mod_one]
    exact iff_of_false Bool.false_ne_true (by decide)

theorem Stands.shiftRightOne {em : ExtendedMantissa} {n d : Nat} (h : Stands em n d) (hd : 0 < d) :
    Stands em.shiftRightOne n (d * 2) := by
  have hmod : n % (d * 2) = n % d + d * (n / d % 2) := Nat.mod_mul
  have hrest : n % d < d := Nat.mod_lt n hd
  obtain ⟨hmantissa, hround, hsticky⟩ := h
  refine ⟨?_, ?_, ?_⟩
  · rw [ExtendedMantissa.shiftRightOne, hmantissa, Nat.div_div_eq_div_mul]
  · rw [ExtendedMantissa.shiftRightOne, hmantissa, bne_iff_ne, hmod]
    rcases Nat.mod_two_eq_zero_or_one (n / d) with hbit | hbit
    · rw [hbit]
      omega
    · rw [hbit]
      omega
  · rw [ExtendedMantissa.shiftRightOne, Bool.or_eq_true, hround, hsticky, hmod]
    rcases Nat.mod_two_eq_zero_or_one (n / d) with hbit | hbit
    · rw [hbit]
      omega
    · rw [hbit]
      omega

theorem stands_shiftRight (n k : Nat) :
    Stands (ExtendedMantissa.ofMantissaAndAccuracy n .exact >>> k) n (2 ^ k) := by
  change Stands (Nat.repeat ExtendedMantissa.shiftRightOne k _) n (2 ^ k)
  induction k with
  | zero => exact stands_exact n
  | succ k ih =>
    rw [Nat.repeat, Nat.pow_succ]
    exact ih.shiftRightOne (Nat.two_pow_pos k)

/-! ### Rounding a whole number of units -/

def carry (q : Nat) : Nat × Nat := if q < 2 ^ 53 then (q, 0) else (2 ^ 52, 1)

def rounded (n : Nat) : Nat × Nat :=
  ((carry (nearestQuotient n (place n))).1,
    n.log2 - 52 + (carry (nearestQuotient n (place n))).2)

theorem carry_bounds {q : Nat} (h : 2 ^ 52 ≤ q) : 2 ^ 52 ≤ (carry q).1 ∧ (carry q).1 < 2 ^ 53 := by
  unfold carry
  split
  · exact ⟨h, by assumption⟩
  · exact ⟨Nat.le_refl _, Nat.pow_lt_pow_succ (by decide)⟩

theorem carry_value {q : Nat} (h : q ≤ 2 ^ 53) : (carry q).1 * 2 ^ (carry q).2 = q := by
  unfold carry
  split
  · exact Nat.mul_one q
  · dsimp only
    omega

theorem quotient_bounds {n : Nat} (h : 52 ≤ n.log2) :
    2 ^ 52 ≤ nearestQuotient n (place n) ∧ nearestQuotient n (place n) ≤ 2 ^ 53 := by
  have hn : n ≠ 0 := by
    rintro rfl
    exact absurd h (by decide)
  have hlog : n.log2 = 52 + (n.log2 - 52) := by omega
  have hlow := Nat.log2_self_le hn
  have hhigh := Nat.lt_log2_self (n := n)
  rw [hlog, Nat.pow_add] at hlow
  rw [hlog, Nat.add_right_comm, Nat.pow_add] at hhigh
  have hdiv : 2 ^ 52 ≤ n / place n := (Nat.le_div_iff_mul_le (place_pos n)).mpr hlow
  have hdiv' : n / place n < 2 ^ 53 := (Nat.div_lt_iff_lt_mul (place_pos n)).mpr hhigh
  exact ⟨Nat.le_trans hdiv (le_nearestQuotient n _), Nat.le_trans (nearestQuotient_le n _) hdiv'⟩

theorem rounded_bounds {n : Nat} (h : 52 ≤ n.log2) :
    2 ^ 52 ≤ (rounded n).1 ∧ (rounded n).1 < 2 ^ 53 := carry_bounds (quotient_bounds h).1

theorem rounded_value {n : Nat} (h : 52 ≤ n.log2) : (rounded n).1 * 2 ^ (rounded n).2 = nearest n := by
  have hcarry := carry_value (quotient_bounds h).2
  rw [rounded, Nat.pow_add, nearest, place, Nat.mul_left_comm]
  rw [place] at hcarry
  rw [hcarry, Nat.mul_comm]

theorem log2_mul_two_pow {n : Nat} (hn : n ≠ 0) (s : Nat) : (n * 2 ^ s).log2 = n.log2 + s := by
  refine (Nat.log2_eq_iff (Nat.mul_ne_zero hn (Nat.two_pow_pos s).ne')).mpr ⟨?_, ?_⟩
  · rw [Nat.pow_add]
    exact Nat.mul_le_mul_right _ (Nat.log2_self_le hn)
  · rw [Nat.add_right_comm, Nat.pow_add]
    exact Nat.mul_lt_mul_of_pos_right Nat.lt_log2_self (Nat.two_pow_pos s)

theorem nearest_mul_two_pow {n : Nat} (hn : n ≠ 0) (s : Nat) :
    nearest (n * 2 ^ s) = nearest n * 2 ^ s := by
  have hlog : (n * 2 ^ s).log2 = n.log2 + s := log2_mul_two_pow hn s
  rcases Nat.le_total 52 n.log2 with h | h
  · have hplace : place (n * 2 ^ s) = place n * 2 ^ s := by
      rw [place, place, hlog, ← Nat.pow_add, Nat.sub_add_comm h]
    rw [nearest, nearest, hplace, nearestQuotient_mul_right n (place n) (Nat.two_pow_pos s), Nat.mul_assoc]
  · have hone : place n = 1 := by rw [place, Nat.sub_eq_zero_of_le h, Nat.pow_zero]
    have hexact : nearest n = n := by rw [nearest, hone, nearestQuotient_one, Nat.mul_one]
    -- The places that are missing come from the power of two, which ends the number.
    obtain ⟨t, ht⟩ : ∃ t, 2 ^ s = 2 ^ t * place (n * 2 ^ s) := by
      refine ⟨s - (n.log2 + s - 52), ?_⟩
      rw [place, hlog, ← Nat.pow_add]
      congr 1
      omega
    have hwhole : n * 2 ^ s = n * 2 ^ t * place (n * 2 ^ s) := by rw [Nat.mul_assoc, ← ht]
    have hquotient := nearestQuotient_mul_right (n * 2 ^ t) 1 (place_pos (n * 2 ^ s))
    rw [← hwhole, Nat.one_mul, nearestQuotient_one] at hquotient
    rw [nearest, hquotient, ← hwhole, hexact]

theorem nearest_le (n : Nat) : nearest n ≤ n + place n := by
  have h := Nat.mul_le_mul_right (place n) (nearestQuotient_le n (place n))
  rw [Nat.add_mul, Nat.one_mul] at h
  exact Nat.le_trans h (Nat.add_le_add_right (Nat.div_mul_le_self n _) _)

def maxPower : Nat := 308

theorem place_le {n t : Nat} (h : n.log2 ≤ t + 52) : place n ≤ 2 ^ t :=
  Nat.pow_le_pow_right (by decide) (by omega)

theorem nearest_lt_overflow {n : Nat} (h : n ≤ 10 ^ maxPower) : nearest n < overflow := by
  have hlog : n.log2 < 1024 := by
    rcases Nat.eq_zero_or_pos n with rfl | hn
    · decide
    · exact (Nat.log2_lt hn.ne').mpr (Nat.lt_of_le_of_lt h (by decide +kernel))
  have hplace : place n ≤ 2 ^ 971 := place_le (by omega)
  calc nearest n ≤ n + place n := nearest_le n
    _ ≤ 10 ^ maxPower + 2 ^ 971 := Nat.add_le_add h hplace
    _ < overflow := by decide +kernel

theorem le_pow_maxPower {n : Nat} (h : n < UInt64.size) : n ≤ 10 ^ maxPower := by
  have hlarge : UInt64.size ≤ 10 ^ maxPower := by decide +kernel
  exact Nat.le_trans (Nat.le_of_lt h) hlarge

theorem le_overflow : 2 ^ 1023 ≤ overflow := by decide +kernel

theorem two_mul_overflow : 2 * overflow = (2 * (2 ^ 53 - 1) + 1) * 2 ^ 971 := by decide +kernel

theorem overflow_lt : overflow < 2 ^ 1024 := by decide +kernel

theorem log2_of_bounds {m : Nat} (hlow : 2 ^ 52 ≤ m) (hhigh : m < 2 ^ 53) : m.log2 = 52 := by
  have hm : m ≠ 0 := by omega
  have hle := (Nat.le_log2 hm).mpr hlow
  have hlt := (Nat.log2_lt hm).mpr hhigh
  omega

/-! ### Rounding in the model of doubles -/

theorem shiftToTargetExponent_eq {n : Nat} {e : Int} (h : 52 ≤ n.log2) (he : -1074 ≤ e) :
    shiftToTargetExponent Format.binary64 n e .exact =
      (ExtendedMantissa.ofMantissaAndAccuracy n .exact >>> (n.log2 - 52), e + (n.log2 - 52 : Nat)) := by
  have htarget : Format.binary64.targetExponent (totalExponent n e) = e + (n.log2 - 52 : Nat) := by
    simp only [Format.targetExponent, totalExponent, Format.mantissaBits, Format.minExponent]
    omega
  have hshift : (e + (n.log2 - 52 : Nat) - e).toNat = n.log2 - 52 := by omega
  simp only [shiftToTargetExponent, htarget, shiftToExponent, hshift]

theorem shiftToTargetExponent_carry {q : Nat} {e : Int} (hlow : 2 ^ 52 ≤ q) (hhigh : q ≤ 2 ^ 53)
    (he : -1074 ≤ e) :
    (shiftToTargetExponent Format.binary64 q e .exact).1.mantissa = (carry q).1 ∧
      (shiftToTargetExponent Format.binary64 q e .exact).2 = e + (carry q).2 := by
  by_cases hq : q < 2 ^ 53
  · have hlog := log2_of_bounds hlow hq
    rw [shiftToTargetExponent_eq (Nat.le_of_eq hlog.symm) he, carry, if_pos hq, hlog]
    exact ⟨(stands_shiftRight q 0).mantissa.trans (Nat.div_one q), rfl⟩
  · have hcarry : q = 2 ^ 53 := Nat.le_antisymm hhigh (Nat.le_of_not_lt hq)
    have hlog : q.log2 = 53 := by rw [hcarry, Nat.log2_two_pow]
    rw [shiftToTargetExponent_eq (by omega) he, carry, if_neg hq, hlog]
    refine ⟨(stands_shiftRight q 1).mantissa.trans ?_, rfl⟩
    dsimp only
    omega

theorem roundWithAccuracy_eq {n : Nat} {e : Int} (h : 52 ≤ n.log2) (he : -1074 ≤ e) :
    ∃ hpos, roundWithAccuracy Format.binary64 .positive n e .exact =
      .finite .positive (rounded n).1 (e + (rounded n).2) hpos := by
  obtain ⟨hlow, hhigh⟩ := quotient_bounds h
  have hquotient := (stands_shiftRight n (n.log2 - 52)).roundedMantissa (place_pos n)
  -- Rounding up may carry, and then the places are moved once more.
  obtain ⟨hmantissa, hexponent⟩ :=
    shiftToTargetExponent_carry hlow hhigh (by omega : -1074 ≤ e + (n.log2 - 52 : Nat))
  have hpos : 0 < (rounded n).1 := Nat.lt_of_lt_of_le (by decide) (rounded_bounds h).1
  rw [← place] at hquotient
  refine ⟨hpos, ?_⟩
  rw [roundWithAccuracy, shiftToTargetExponent_eq h he]
  dsimp only
  rw [hquotient]
  simp only [hmantissa, hexponent, rounded, Int.natCast_add, Int.add_assoc]
  exact dif_neg hpos.ne'

/-! ### Packing -/

theorem unpack_pack_of_large {m : Nat} {e : Int} (he : 972 ≤ e) (hpos : 0 < m) :
    (Float.Model.pack (.finite .positive m e hpos)).unpack = .infinity .positive := by
  have hlarge : 2 ^ Format.binary64.exponentBits ≤
      (e + Format.binary64.exponentBias + Format.binary64.mantissaBitsWithoutImplicit).toNat + 1 := by
    simp only [Format.exponentBias]
    omega
  have hpacked : UnpackedFloat.pack Format.binary64 (.finite .positive m e hpos) =
      packedInfinity Format.binary64 .positive := by
    rw [UnpackedFloat.pack]
    exact if_pos hlarge
  change UnpackedFloat.unpack Format.binary64
    (UnpackedFloat.pack Format.binary64 (.finite .positive m e hpos)) = _
  rw [hpacked]
  rfl

theorem toNat_append_one {m : Nat} (hlow : 2 ^ 52 ≤ m) (hhigh : m < 2 ^ 53) :
    (1#1 ++ BitVec.ofNat 52 m).toNat = m := by
  have hrest : m % 2 ^ 52 = m - 2 ^ 52 := by omega
  rw [BitVec.toNat_append, BitVec.toNat_ofNat (x := m), hrest,
    ← Nat.shiftLeft_add_eq_or_of_lt (by omega), Nat.shiftLeft_eq]
  change 1 * 2 ^ 52 + (m - 2 ^ 52) = m
  omega

theorem unpack_pack {m : Nat} {e : Int} (hlow : 2 ^ 52 ≤ m) (hhigh : m < 2 ^ 53) (he : -1074 ≤ e)
    (he' : e < 972) (hpos : 0 < m) :
    (Float.Model.pack (.finite .positive m e hpos)).unpack = .finite .positive m e hpos := by
  have hlog := log2_of_bounds hlow hhigh
  obtain ⟨k, hk⟩ : ∃ k : Nat, e + 1075 = k := ⟨(e + 1075).toNat, by omega⟩
  have hexponent : (BitVec.ofNat 11 k).toNat = k := by
    rw [BitVec.toNat_ofNat, Nat.mod_eq_of_lt (by omega)]
  have hones : BitVec.ofNat 11 k ≠ -1#11 := by
    intro h
    have hvalue : (BitVec.ofNat 11 k).toNat = 2047 := by rw [h]; rfl
    omega
  have hzeros : BitVec.ofNat 11 k ≠ 0#11 := by
    intro h
    have hvalue : (BitVec.ofNat 11 k).toNat = 0 := by rw [h]; rfl
    omega
  have hbiased : (e + Format.binary64.exponentBias +
      Format.binary64.mantissaBitsWithoutImplicit).toNat = k := by
    simp only [Format.exponentBias]
    omega
  have hpacked : UnpackedFloat.pack Format.binary64 (.finite .positive m e hpos) =
      packComponents Format.binary64 .positive (BitVec.ofNat 11 k) (BitVec.ofNat 52 m) := by
    rw [UnpackedFloat.pack]
    simp only [hbiased, hlog]
    rw [if_neg (by omega), if_pos (by rfl)]
  change UnpackedFloat.unpack Format.binary64
    (UnpackedFloat.pack Format.binary64 (.finite .positive m e hpos)) = _
  rw [hpacked, UnpackedFloat.unpack]
  simp only [unpackExponent_packComponents, unpackMantissa_packComponents, unpackSign_packComponents,
    toNat_append_one hlow hhigh, hexponent]
  rw [if_neg hones, if_neg hzeros]
  congr 1
  simp only [Format.exponentBias]
  omega

/-! ### Doubles that hold a whole number -/

/-- A double is a whole number, which its mantissa and its exponent make up. -/
def Holds (x : Float) (v : Nat) : Prop :=
  ∃ (m k t : Nat) (hpos : 0 < m), (2 ^ 52 ≤ m ∧ m < 2 ^ 53 ∧ t ≤ 53 ∧ m * 2 ^ k = v * 2 ^ t) ∧
    x.toModel.unpack = .finite .positive m (k - t : Int) hpos

theorem Holds.ne_zero {x : Float} {v : Nat} (h : Holds x v) : (x == 0) = false := by
  obtain ⟨m, k, t, hpos, -, hx⟩ := h
  change (x.toModel.unpack.compare (0 : Float).toModel.unpack == some .eq) = false
  rw [hx]
  rfl

theorem exponent_lt {m k v s b : Nat} (hlow : 2 ^ 52 ≤ m) (h : m * 2 ^ k = v * 2 ^ s) (hv : v < 2 ^ b) :
    52 + k < b + s := by
  refine (Nat.pow_lt_pow_iff_right (by decide : 1 < 2)).mp ?_
  calc 2 ^ (52 + k) = 2 ^ 52 * 2 ^ k := Nat.pow_add ..
    _ ≤ m * 2 ^ k := Nat.mul_le_mul_right _ hlow
    _ = v * 2 ^ s := h
    _ < 2 ^ b * 2 ^ s := Nat.mul_lt_mul_of_pos_right hv (Nat.two_pow_pos s)
    _ = 2 ^ (b + s) := (Nat.pow_add ..).symm

theorem holds_round {n s : Nat} (hn : n ≠ 0) (hs : s ≤ 53) (hlog : 52 ≤ n.log2 + s)
    (hsmall : nearest n < overflow) :
    Holds ⟨Float.Model.pack (roundWithAccuracy Format.binary64 .positive (n * 2 ^ s) (-s) .exact)⟩
      (nearest n) := by
  have hlog' : 52 ≤ (n * 2 ^ s).log2 := by rwa [log2_mul_two_pow hn s]
  obtain ⟨hpos, hround⟩ := roundWithAccuracy_eq hlog' (by omega : -1074 ≤ (-s : Int))
  obtain ⟨hlow, hhigh⟩ := rounded_bounds hlog'
  have hvalue := rounded_value hlog'
  rw [nearest_mul_two_pow hn] at hvalue
  -- The rounded number is below the next power of two, and so is its exponent.
  have hexponent := exponent_lt hlow hvalue (Nat.lt_trans hsmall overflow_lt)
  refine ⟨_, (rounded (n * 2 ^ s)).2, s, hpos, ⟨hlow, hhigh, hs, hvalue⟩, ?_⟩
  rw [hround, unpack_pack hlow hhigh (by omega) (by omega)]
  congr 1
  omega

theorem holds_toFloat {n : Nat} (hn : n ≠ 0) (h : n < UInt64.size) :
    Holds n.toUInt64.toFloat (nearest n) := by
  have hword : n.toUInt64.toNat = n := Nat.mod_eq_of_lt h
  have hpositive : compare (n : Int) 0 = .gt := Int.compare_eq_gt.mpr (by omega)
  have htarget : (0 - Format.binary64.targetExponent (totalExponent n 0)).toNat = 52 - n.log2 := by
    simp only [Format.targetExponent, totalExponent, Format.mantissaBits, Format.minExponent]
    omega
  have hround : UnpackedFloat.ofUInt64 Format.binary64 n.toUInt64 =
      roundWithAccuracy Format.binary64 .positive (n * 2 ^ (52 - n.log2)) (-(52 - n.log2 : Nat)) .exact := by
    change UnpackedFloat.normalize Format.binary64 (n.toUInt64.toNat : Int) 0 .positive = _
    rw [hword, UnpackedFloat.normalize, hpositive]
    simp only [UnpackedFloat.round, decreaseExponent, Int.toNat_natCast, htarget, Nat.shiftLeft_eq]
    rw [Int.zero_sub]
  change Holds ⟨Float.Model.pack (UnpackedFloat.ofUInt64 Format.binary64 n.toUInt64)⟩ (nearest n)
  rw [hround]
  exact holds_round hn (by omega) (by omega) (nearest_lt_overflow (le_pow_maxPower h))

theorem powerOfTen_eq (p : Nat) : Json.powerOfTen p = ⟨Float.Model.ofScientific 1 p⟩ := by
  have htable : ∀ p < 23,
      (Json.powerOfTen p).toBits = (⟨Float.Model.ofScientific 1 p⟩ : Float).toBits := by decide +kernel
  rcases Nat.lt_or_ge p 23 with h | h
  · exact Float.toBits_inj.mp (htable p h)
  · rw [Json.powerOfTen, Float.ofScientific, dif_neg (by omega)]
    rfl

theorem holds_powerOfTen {p : Nat} (h : p ≤ maxPower) :
    Holds (Json.powerOfTen p) (nearest (10 ^ p)) := by
  have hsmall : nearest (10 ^ p) < overflow :=
    nearest_lt_overflow (Nat.pow_le_pow_right (by decide) h)
  have hlow : ¬(p : Int) < -(2 ^ Format.binary64.exponentBits + (Nat.log2 1 : Nat)) := by
    change ¬(p : Int) < -2048
    omega
  have hhigh : ¬(p : Int) > 2 ^ Format.binary64.exponentBits := by
    rw [maxPower] at h
    change ¬(p : Int) > 2048
    omega
  have hround : UnpackedFloat.ofScientific Format.binary64 1 p =
      roundWithAccuracy Format.binary64 .positive (10 ^ p * 2 ^ 53) (-(53 : Nat)) .exact := by
    rw [UnpackedFloat.ofScientific, dif_neg Nat.one_ne_zero, if_neg hhigh, if_neg hlow,
      if_pos (Int.natCast_nonneg p)]
    change roundWithAccuracy Format.binary64 .positive (1 <<< 53 * 10 ^ p) (-(53 : Nat) + 0) .exact = _
    rw [Nat.shiftLeft_eq, Nat.one_mul, Nat.mul_comm, Int.add_zero]
  rw [powerOfTen_eq]
  change Holds ⟨Float.Model.pack (UnpackedFloat.ofScientific Format.binary64 1 p)⟩ _
  rw [hround]
  exact holds_round (Nat.pow_pos (by decide)).ne' (Nat.le_refl _) (by omega) hsmall

/-! ### Products -/

-- A last quotient that is odd goes up from halfway on.
theorem carries_iff {n d c : Nat} (hd : 0 < d) (hodd : c % 2 = 1) (h : n / d ≤ c) :
    c < nearestQuotient n d ↔ (2 * c + 1) * d ≤ 2 * n := by
  have hn := Nat.div_add_mod n d
  have hrest := Nat.mod_lt n hd
  have htop : (2 * c + 1) * d = 2 * (d * c) + d := by
    rw [Nat.add_mul, Nat.mul_assoc, Nat.mul_comm c, Nat.one_mul]
  rw [htop]
  rcases Nat.eq_or_lt_of_le h with hlast | hbelow
  · unfold nearestQuotient
    rw [hlast] at hn ⊢
    split
    · omega
    · omega
  · have hquotient : d * (n / d + 1) ≤ d * c := Nat.mul_le_mul_left d hbelow
    rw [Nat.mul_add, Nat.mul_one] at hquotient
    have hle := nearestQuotient_le n d
    omega
theorem isInf_pack_iff {n : Nat} {e : Int} (h : 52 ≤ n.log2) (he : -1074 ≤ e) :
    (Float.Model.pack (roundWithAccuracy Format.binary64 .positive n e .exact)).isInf = true ↔
      972 ≤ e + (rounded n).2 := by
  obtain ⟨hpos, hround⟩ := roundWithAccuracy_eq h he
  obtain ⟨hlow, hhigh⟩ := rounded_bounds h
  rw [hround, Float.Model.isInf]
  by_cases hlarge : 972 ≤ e + (rounded n).2
  · rw [unpack_pack_of_large hlarge]
    exact iff_of_true rfl hlarge
  · rw [unpack_pack hlow hhigh (by omega) (by omega)]
    exact iff_of_false Bool.false_ne_true hlarge

theorem rounded_carries {n s : Nat} (h : n.log2 = 52 + s) :
    s ≤ (rounded n).2 ∧ (rounded n).2 ≤ s + 1 ∧
      (s < (rounded n).2 ↔ (2 * (2 ^ 53 - 1) + 1) * 2 ^ s ≤ 2 * n) := by
  have hplaces : n.log2 - 52 = s := by omega
  have hbelow : n / 2 ^ s < 2 ^ 53 := by
    rw [Nat.div_lt_iff_lt_mul (Nat.two_pow_pos s), ← Nat.pow_add]
    have hn := Nat.lt_log2_self (n := n)
    rwa [h, Nat.add_right_comm] at hn
  rw [← carries_iff (Nat.two_pow_pos s) (by decide) (Nat.le_sub_one_of_lt hbelow), rounded, place, hplaces,
    carry]
  split
  · refine ⟨Nat.le_refl _, Nat.le_succ _, ?_⟩
    omega
  · refine ⟨Nat.le_succ _, Nat.le_refl _, ?_⟩
    omega

theorem overflow_le_iff {n k t v : Nat} (h : 52 ≤ n.log2) (hv : n * 2 ^ k = v * 2 ^ t) :
    overflow ≤ v ↔ 972 + t ≤ k + (rounded n).2 := by
  obtain ⟨s, hs⟩ := Nat.exists_eq_add_of_le h
  obtain ⟨hlow, hhigh, hcarry⟩ := rounded_carries hs
  have hn : n ≠ 0 := by
    rintro rfl
    exact absurd h (by decide)
  rw [← Nat.mul_le_mul_right_iff (Nat.two_pow_pos t), ← hv]
  rcases Nat.lt_trichotomy (k + s) (971 + t) with hsmall | htop | hlarge
  · refine iff_of_false (Nat.not_le_of_lt ?_) (by omega)
    have hreach := Nat.mul_le_mul_right (2 ^ t) le_overflow
    rw [← pow_add] at hreach
    calc n * 2 ^ k < 2 ^ (n.log2 + 1) * 2 ^ k :=
          Nat.mul_lt_mul_of_pos_right Nat.lt_log2_self (Nat.two_pow_pos k)
      _ = 2 ^ (n.log2 + 1 + k) := (Nat.pow_add ..).symm
      _ ≤ 2 ^ (1023 + t) := Nat.pow_le_pow_right (by decide) (by omega)
      _ ≤ overflow * 2 ^ t := hreach
  · -- Here the carry decides, and it begins at half of what the last place counts.
    have hdouble : 2 * (overflow * 2 ^ t) = (2 * (2 ^ 53 - 1) + 1) * 2 ^ s * 2 ^ k := by
      rw [← Nat.mul_assoc, two_mul_overflow, Nat.mul_assoc, Nat.mul_assoc, ← Nat.pow_add, ← Nat.pow_add,
        ← htop, Nat.add_comm k s]
    have hcut : (2 * (2 ^ 53 - 1) + 1) * 2 ^ s ≤ 2 * n ↔ overflow * 2 ^ t ≤ n * 2 ^ k := by
      rw [← Nat.mul_le_mul_right_iff (Nat.two_pow_pos k), ← hdouble, Nat.mul_assoc,
        Nat.mul_le_mul_left_iff Nat.two_pos]
    rw [← hcut, ← hcarry]
    omega
  · refine iff_of_true ?_ (by omega)
    have hreach := Nat.mul_le_mul_right (2 ^ t) (Nat.le_of_lt overflow_lt)
    rw [← pow_add] at hreach
    calc overflow * 2 ^ t ≤ 2 ^ (1024 + t) := hreach
      _ ≤ 2 ^ (n.log2 + k) := Nat.pow_le_pow_right (by decide) (by omega)
      _ = 2 ^ n.log2 * 2 ^ k := Nat.pow_add ..
      _ ≤ n * 2 ^ k := Nat.mul_le_mul_right _ (Nat.log2_self_le hn)

theorem mul_isInf_iff {x y : Float} {v u : Nat} (hx : Holds x v) (hy : Holds y u) :
    (x * y).isInf = true ↔ overflow ≤ v * u := by
  obtain ⟨m, k, t, hm, ⟨hlow, hhigh, ht, hvalue⟩, hx⟩ := hx
  obtain ⟨m', k', t', hm', ⟨hlow', hhigh', ht', hvalue'⟩, hy⟩ := hy
  have hproduct : m * m' * 2 ^ (k + k') = v * u * 2 ^ (t + t') := by
    rw [Nat.pow_add, Nat.pow_add, Nat.mul_mul_mul_comm, hvalue, hvalue', Nat.mul_mul_mul_comm]
  have hlog : 52 ≤ (m * m').log2 := by
    refine (Nat.le_log2 (Nat.mul_pos hm hm').ne').mpr ?_
    exact Nat.le_trans hlow (Nat.le_mul_of_pos_right m hm')
  change (Float.Model.pack (UnpackedFloat.mul Format.binary64 x.toModel.unpack y.toModel.unpack)).isInf =
    true ↔ _
  rw [hx, hy]
  change (Float.Model.pack (roundWithAccuracy Format.binary64 .positive (m * m')
    ((k - t : Int) + (k' - t' : Int)) .exact)).isInf = true ↔ _
  rw [isInf_pack_iff hlog (by omega), overflow_le_iff hlog hproduct]
  omega

end TokenAudit.Double
