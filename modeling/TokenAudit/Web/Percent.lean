import TokenAudit.Numeral
import TokenAudit.Text.Utf8

/-! Percent-encoding: bytes as a percent sign and two digits, and the form of query pairs. -/

namespace TokenAudit.Percent

def upperDigit (n : Nat) : Char := (Nat.digitChar n).toUpper

def byte (b : UInt8) : List Char := ['%', upperDigit (b.toNat / 16), upperDigit (b.toNat % 16)]

def escapeChar (c : Char) : List Char := (String.utf8EncodeChar c).flatMap byte

def encode (keep : Char → Bool) (s : List Char) : List Char :=
  s.flatMap fun c => if keep c then [c] else escapeChar c

def byteDigit? (b : UInt8) : Option Nat := Numeral.digitBelow? 16 (Char.ofNat b.toNat)

/-- A percent sign without two digits after it stands for itself. -/
def decodeBytes : Bytes → Bytes
  | 37 :: h :: l :: bs =>
    match byteDigit? h, byteDigit? l with
    | some x, some y => UInt8.ofNat (16 * x + y) :: decodeBytes bs
    | _, _ => 37 :: decodeBytes (h :: l :: bs)
  | b :: bs => b :: decodeBytes bs
  | [] => []

def decode (s : List Char) : Bytes := decodeBytes (Text.bytes s)

def isAlphanumeric (c : Char) : Bool :=
  Numeral.isFigure c || ('a' ≤ c && c ≤ 'z') || ('A' ≤ c && c ≤ 'Z')

def isFormChar (c : Char) : Bool :=
  isAlphanumeric c || c = '*' || c = '-' || c = '.' || c = '_'

def formEncode (s : List Char) : List Char :=
  s.flatMap fun c => if c = ' ' then ['+'] else if isFormChar c then [c] else escapeChar c

def formDecode (s : List Char) : List Char :=
  Utf8.lossy (decode (s.map fun c => if c = '+' then ' ' else c))

def formPair : String × String → List Char
  | (k, v) => formEncode k.toList ++ '=' :: formEncode v.toList

def formText (pairs : List (String × String)) : List Char :=
  List.intercalate ['&'] (pairs.map formPair)

def cut (c : Char) (s : List Char) : List Char × List Char :=
  (s.takeWhile (· != c), (s.dropWhile (· != c)).drop 1)

def formPairs (s : List Char) : List (String × String) :=
  ((Text.splitOn '&' s).filter fun p => !p.isEmpty).map fun p =>
    let (k, v) := cut '=' p
    (String.ofList (formDecode k), String.ofList (formDecode v))

end TokenAudit.Percent
