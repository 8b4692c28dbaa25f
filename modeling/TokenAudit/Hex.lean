import TokenAudit.Numeral
import TokenAudit.Word

/-! Hexadecimal texts of byte strings, and the faults of reading one. -/

namespace TokenAudit

inductive HexFault where
  | oddLength
  | wrongLength
  | badCharacter (byte : UInt8) (position : Nat)
  deriving DecidableEq, Repr

namespace Hex

def digit (n : Nat) : Char :=
  if n < 10 then Char.ofNat (48 + n) else Char.ofNat (87 + n)

def encode (bs : Bytes) : List Char :=
  bs.flatMap fun b => [digit (b.toNat / 16), digit (b.toNat % 16)]

def encodePrefixed (bs : Bytes) : List Char := '0' :: 'x' :: encode bs

def value? (b : UInt8) : Option Nat :=
  Numeral.digitBelow? 16 (Char.ofNat b.toNat)

def dropHead : Bytes → Bytes
  | 48 :: 120 :: bs => bs
  | 48 :: 88 :: bs => bs
  | bs => bs

/-- Reads digits two by two; positions count bytes of text from `at`. -/
def decodePairs (position : Nat) : Bytes → Except HexFault Bytes
  | hi :: lo :: bs =>
    match value? hi, value? lo with
    | none, _ => .error (.badCharacter hi position)
    | some _, none => .error (.badCharacter lo (position + 1))
    | some h, some l => (decodePairs (position + 2) bs).map (UInt8.ofNat (16 * h + l) :: ·)
  | [hi] =>
    match value? hi with
    | none => .error (.badCharacter hi position)
    | some _ => .error .oddLength
  | [] => .ok []

/-- The length is judged before the head is dropped, the digits after it. -/
def decode (s : String) : Except HexFault Bytes :=
  let text := Text.bytes s.toList
  if text.length % 2 = 1 then .error .oddLength else decodePairs 0 (dropHead text)

def decodeSized (size : Nat) (s : String) : Except HexFault Bytes :=
  let text := Text.bytes s.toList
  if text.length % 2 = 1 then .error .oddLength
  else if (dropHead text).length ≠ 2 * size then .error .wrongLength
  else decodePairs 0 (dropHead text)

end Hex

def quotedByte (b : UInt8) : String :=
  let n := b.toNat
  let inner : List Char :=
    if n = 0 then ['\\', '0']
    else if n = 9 then ['\\', 't']
    else if n = 10 then ['\\', 'n']
    else if n = 13 then ['\\', 'r']
    else if n = 39 ∨ n = 92 then ['\\', Char.ofNat n]
    else if n < 32 ∨ (127 ≤ n ∧ n ≤ 160) ∨ n = 173 then
      "\\u\x7b".toList ++ Numeral.hex n ++ "\x7d".toList
    else [Char.ofNat n]
  String.ofList (Char.ofNat 39 :: inner ++ [Char.ofNat 39])

def HexFault.message : HexFault → String
  | oddLength => "odd number of digits"
  | wrongLength => "invalid string length"
  | badCharacter byte position =>
    s!"invalid character {quotedByte byte} at position {position}"

end TokenAudit
