import TokenAudit.Word

/-! Reading UTF-8: every byte belongs to a character or to a broken piece. -/

namespace TokenAudit.Utf8

/-- What a first byte promises: how many bytes follow, the bounds of the next, its own bits. -/
structure Lead where
  follow : Nat
  low : Nat
  high : Nat
  bits : Nat

def lead? (b : Nat) : Option Lead :=
  if b < 0x80 then some ⟨0, 0, 0, b⟩
  else if b < 0xc2 then none
  else if b < 0xe0 then some ⟨1, 0x80, 0xbf, b - 0xc0⟩
  else if b = 0xe0 then some ⟨2, 0xa0, 0xbf, 0⟩
  else if b = 0xed then some ⟨2, 0x80, 0x9f, 0xd⟩
  else if b < 0xf0 then some ⟨2, 0x80, 0xbf, b - 0xe0⟩
  else if b = 0xf0 then some ⟨3, 0x90, 0xbf, 0⟩
  else if b < 0xf4 then some ⟨3, 0x80, 0xbf, b - 0xf0⟩
  else if b = 0xf4 then some ⟨3, 0x80, 0x8f, 4⟩
  else none

def finish : Nat → Nat → Nat → Nat → Bytes → Option Char × Bytes
  | 0, _, _, bits, bs => (some (Char.ofNat bits), bs)
  | _ + 1, _, _, _, [] => (none, [])
  | left + 1, low, high, bits, b :: bs =>
    if low ≤ b.toNat ∧ b.toNat ≤ high then
      finish left 0x80 0xbf (64 * bits + (b.toNat - 0x80)) bs
    else (none, b :: bs)

theorem length_finish (left low high bits : Nat) (bs : Bytes) :
    (finish left low high bits bs).2.length ≤ bs.length := by
  fun_induction finish left low high bits bs with
  | case1 => exact Nat.le_refl _
  | case2 => exact Nat.le_refl _
  | case3 _ _ _ _ _ _ _ ih => exact Nat.le_trans ih (by simp)
  | case4 => exact Nat.le_refl _

def next (b : UInt8) (bs : Bytes) : Option Char × Bytes :=
  match lead? b.toNat with
  | none => (none, bs)
  | some l => finish l.follow l.low l.high l.bits bs

theorem length_next (b : UInt8) (bs : Bytes) : (next b bs).2.length ≤ bs.length := by
  unfold next
  split
  · exact Nat.le_refl _
  · exact length_finish _ _ _ _ _

/-- The characters, and `none` for each broken piece. -/
def decode : Bytes → List (Option Char)
  | [] => []
  | b :: bs => (next b bs).1 :: decode (next b bs).2
termination_by bs => bs.length
decreasing_by exact Nat.lt_succ_of_le (length_next b bs)

def strict? (bs : Bytes) : Option (List Char) := (decode bs).mapM fun c => c

def lossy (bs : Bytes) : List Char := (decode bs).map fun c => c.getD (Char.ofNat 0xfffd)

end TokenAudit.Utf8
