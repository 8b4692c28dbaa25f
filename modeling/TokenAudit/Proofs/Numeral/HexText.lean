import TokenAudit.Address
import TokenAudit.Proofs.Calldata.Words

/-! Hexadecimal texts of byte strings: what is read back from the digits of some bytes are these bytes,
and so an address is told by its text. -/

namespace TokenAudit

namespace Hex

theorem utf8_digit {d : Nat} (h : d < 16) :
    String.utf8EncodeChar (digit d) = [UInt8.ofNat (digit d).toNat] ∧
      value? (UInt8.ofNat (digit d).toNat) = some d := by
  have hdigits : ∀ d < 16, String.utf8EncodeChar (digit d) = [UInt8.ofNat (digit d).toNat] ∧
      value? (UInt8.ofNat (digit d).toNat) = some d := by decide
  exact hdigits d h

theorem bytes_encode_cons (b : UInt8) (bs : Bytes) :
    Text.bytes (encode (b :: bs)) = UInt8.ofNat (digit (b.toNat / 16)).toNat ::
      UInt8.ofNat (digit (b.toNat % 16)).toNat :: Text.bytes (encode bs) := by
  have hhigh : b.toNat / 16 < 16 := Nat.div_lt_of_lt_mul b.toNat_lt
  have hlow : b.toNat % 16 < 16 := Nat.mod_lt _ (by decide)
  have hsplit : encode (b :: bs) = [digit (b.toNat / 16), digit (b.toNat % 16)] ++ encode bs := rfl
  rw [hsplit, Text.bytes, List.flatMap_append, List.flatMap_cons, List.flatMap_cons, List.flatMap_nil,
    (utf8_digit hhigh).1, (utf8_digit hlow).1]
  rfl

theorem length_bytes_encode (bs : Bytes) : (Text.bytes (encode bs)).length = 2 * bs.length := by
  induction bs with
  | nil => rfl
  | cons b bs ih =>
    rw [bytes_encode_cons, List.length_cons, List.length_cons, List.length_cons, ih, Nat.mul_succ]

theorem decodePairs_encode (position : Nat) (bs : Bytes) :
    decodePairs position (Text.bytes (encode bs)) = .ok bs := by
  induction bs generalizing position with
  | nil => rfl
  | cons b bs ih =>
    have hhigh := (utf8_digit (Nat.div_lt_of_lt_mul b.toNat_lt : b.toNat / 16 < 16)).2
    have hlow := (utf8_digit (Nat.mod_lt b.toNat (by decide) : b.toNat % 16 < 16)).2
    rw [bytes_encode_cons, decodePairs]
    simp only [hhigh, hlow, ih, Except.map, Nat.div_add_mod, UInt8.ofNat_toNat]

theorem bytes_encodePrefixed (bs : Bytes) :
    Text.bytes (encodePrefixed bs) = 48 :: 120 :: Text.bytes (encode bs) := rfl

theorem not_odd_encodePrefixed (bs : Bytes) : ¬(Text.bytes (encodePrefixed bs)).length % 2 = 1 := by
  rw [bytes_encodePrefixed, List.length_cons, List.length_cons, length_bytes_encode]
  omega

theorem dropHead_encodePrefixed (bs : Bytes) :
    dropHead (Text.bytes (encodePrefixed bs)) = Text.bytes (encode bs) := rfl

theorem decode_encodePrefixed (bs : Bytes) : decode (String.ofList (encodePrefixed bs)) = .ok bs := by
  simp only [decode, String.toList_ofList, if_neg (not_odd_encodePrefixed bs), dropHead_encodePrefixed,
    decodePairs_encode]

theorem decodeSized_encode {size : Nat} {bs : Bytes} (h : bs.length = size) :
    decodeSized size (String.ofList (encodePrefixed bs)) = .ok bs := by
  have hsize : ¬(Text.bytes (encode bs)).length ≠ 2 * size := by
    rw [length_bytes_encode, h]
    exact not_not_intro rfl
  simp only [decodeSized, String.toList_ofList, if_neg (not_odd_encodePrefixed bs),
    dropHead_encodePrefixed, if_neg hsize, decodePairs_encode]

end Hex

theorem Address.ofBytes_bytes (a : Address) : ofBytes a.bytes = a := by
  have hlt : a.value.toNat < 256 ^ 20 := a.value.isLt
  rw [ofBytes, bytes, Word.ofBytes_bigEndian, Nat.mod_eq_of_lt hlt, BitVec.ofNat_toNat,
    BitVec.setWidth_eq]

theorem Address.decodeSized_hex (a : Address) : Hex.decodeSized 20 a.hex = .ok a.bytes :=
  Hex.decodeSized_encode (Word.length_bigEndian 20 a.value.toNat)

end TokenAudit
