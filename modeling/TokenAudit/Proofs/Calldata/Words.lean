import Mathlib.Algebra.Group.Nat.Defs
import TokenAudit.Word

/-! Bytes of a word and the number that they stand for, each of which determines the other. -/

namespace TokenAudit

namespace Word

@[simp] theorem length_bigEndian (width n : Nat) : (bigEndian width n).length = width := by
  induction width with
  | zero => rfl
  | succ w ih => simp [bigEndian, ih]

theorem bigEndian_succ (width n : Nat) :
    bigEndian (width + 1) n = UInt8.ofNat (n / 256 ^ width) :: bigEndian width n := rfl

theorem ofBytes_append (bs cs : Bytes) :
    ofBytes (bs ++ cs) = ofBytes bs * 256 ^ cs.length + ofBytes cs := by
  unfold ofBytes
  rw [List.foldl_append]
  generalize bs.foldl (fun n b => 256 * n + b.toNat) 0 = n
  induction cs generalizing n with
  | nil => simp
  | cons c cs ih =>
    rw [List.foldl_cons, List.foldl_cons, ih, ih (256 * 0 + c.toNat), List.length_cons, Nat.pow_succ]
    grind

theorem ofBytes_cons (b : UInt8) (bs : Bytes) :
    ofBytes (b :: bs) = b.toNat * 256 ^ bs.length + ofBytes bs := by
  have h := ofBytes_append [b] bs
  simpa [ofBytes] using h

theorem ofBytes_lt (bs : Bytes) : ofBytes bs < 256 ^ bs.length := by
  induction bs with
  | nil => decide
  | cons b bs ih =>
    have hb : b.toNat * 256 ^ bs.length ≤ 255 * 256 ^ bs.length :=
      Nat.mul_le_mul_right _ (Nat.le_of_lt_succ b.toNat_lt)
    rw [ofBytes_cons, List.length_cons, Nat.pow_succ]
    omega

theorem bigEndian_mod (width n : Nat) : bigEndian width (n % 256 ^ width) = bigEndian width n := by
  suffices h : ∀ extra, bigEndian width (n % 256 ^ (width + extra)) = bigEndian width n from h 0
  induction width with
  | zero => exact fun _ => rfl
  | succ w ih =>
    intro extra
    rw [bigEndian_succ, bigEndian_succ, Nat.add_right_comm, Nat.add_assoc, ih (extra + 1)]
    congr 1
    rw [Nat.pow_add, Nat.mod_mul_right_div_self, Nat.pow_succ]
    apply UInt8.toNat_inj.mp
    simp

theorem ofBytes_bigEndian (width n : Nat) : ofBytes (bigEndian width n) = n % 256 ^ width := by
  induction width with
  | zero => simp [bigEndian, ofBytes, Nat.mod_one]
  | succ w ih =>
    have hdigit : (UInt8.ofNat (n / 256 ^ w)).toNat = n / 256 ^ w % 256 := UInt8.toNat_ofNat'
    rw [bigEndian_succ, ofBytes_cons, ih, length_bigEndian, hdigit, Nat.pow_succ, Nat.mod_mul,
      Nat.add_comm, Nat.mul_comm]

theorem bigEndian_ofBytes (bs : Bytes) : bigEndian bs.length (ofBytes bs) = bs := by
  induction bs with
  | nil => rfl
  | cons b bs ih =>
    have hlow := ofBytes_lt bs
    have hpos : 0 < 256 ^ bs.length := Nat.pow_pos (by decide)
    rw [List.length_cons, bigEndian_succ, ofBytes_cons]
    congr 1
    · rw [Nat.mul_comm, Nat.mul_add_div hpos, Nat.div_eq_of_lt hlow, Nat.add_zero,
        UInt8.ofNat_toNat]
    · rw [← bigEndian_mod, Nat.mul_add_mod_self_right, Nat.mod_eq_of_lt hlow, ih]

theorem bigEndian_of_lt (extra : Nat) {width n : Nat} (h : n < 256 ^ width) :
    bigEndian (extra + width) n = List.replicate extra 0 ++ bigEndian width n := by
  induction extra with
  | zero => rw [Nat.zero_add, List.replicate_zero, List.nil_append]
  | succ k ih =>
    have hpos : 0 < 256 := by decide
    have hzero : n / 256 ^ (k + width) = 0 :=
      Nat.div_eq_of_lt (Nat.lt_of_lt_of_le h (Nat.pow_le_pow_right hpos (Nat.le_add_left width k)))
    rw [Nat.add_right_comm, bigEndian_succ, hzero, ih, List.replicate_succ, List.cons_append]
    rfl

theorem ofBytes_eq_zero_iff (bs : Bytes) : ofBytes bs = 0 ↔ ∀ b ∈ bs, b = 0 := by
  induction bs with
  | nil => simp [ofBytes]
  | cons b bs ih =>
    have hpos : 256 ^ bs.length ≠ 0 := Nat.pos_iff_ne_zero.mp (Nat.pow_pos (by decide))
    rw [ofBytes_cons, Nat.add_eq_zero_iff, Nat.mul_eq_zero, ih, List.forall_mem_cons,
      or_iff_left hpos, ← UInt8.toNat_inj, UInt8.toNat_zero]

end Word

theorem Uint256.ofBytes_bytes (x : Uint256) : ofBytes x.bytes = x := by
  have hlt : x.toNat < 256 ^ 32 := x.isLt
  rw [ofBytes, bytes, Word.ofBytes_bigEndian, Nat.mod_eq_of_lt hlt, BitVec.ofNat_toNat,
    BitVec.setWidth_eq]

theorem Uint256.bytes_ofBytes {bs : Bytes} (h : bs.length = 32) : (ofBytes bs).bytes = bs := by
  have hlt : Word.ofBytes bs < 2 ^ 256 := by
    have := Word.ofBytes_lt bs
    rw [h] at this
    exact this
  rw [bytes, ofBytes, BitVec.toNat_ofNat, Nat.mod_eq_of_lt hlt, ← h, Word.bigEndian_ofBytes]

end TokenAudit
