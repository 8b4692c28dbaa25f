import TokenAudit.Text

/-! Texts of whole numbers: radix heads, separators, and bounded readers. -/

namespace TokenAudit.Numeral

def decimal (n : Nat) : List Char := Nat.toDigits 10 n

def hex (n : Nat) : List Char := Nat.toDigits 16 n

def quantity (n : Nat) : List Char := '0' :: 'x' :: hex n

def digitValue? (c : Char) : Option Nat :=
  if '0' ≤ c ∧ c ≤ '9' then some (c.toNat - '0'.toNat)
  else if 'a' ≤ c ∧ c ≤ 'z' then some (c.toNat - 'a'.toNat + 10)
  else if 'A' ≤ c ∧ c ≤ 'Z' then some (c.toNat - 'A'.toNat + 10)
  else none

def digitBelow? (radix : Nat) (c : Char) : Option Nat :=
  (digitValue? c).filter (· < radix)

/-- A text names its radix by its first two characters, ten without such a head. -/
def radixAndDigits : List Char → Nat × List Char
  | '0' :: 'x' :: s => (16, s)
  | '0' :: 'X' :: s => (16, s)
  | '0' :: 'o' :: s => (8, s)
  | '0' :: 'O' :: s => (8, s)
  | '0' :: 'b' :: s => (2, s)
  | '0' :: 'B' :: s => (2, s)
  | s => (10, s)

def readDigits (radix : Nat) : Nat → List Char → Option Nat
  | n, [] => some n
  | n, c :: s =>
    if c = '_' then readDigits radix n s
    else (digitBelow? radix c).bind fun d => readDigits radix (radix * n + d) s

/-- An unsigned number below a bound; a text without digits is zero. -/
def readUnsigned (bound : Nat) (s : List Char) : Option Nat :=
  let (radix, digits) := radixAndDigits s
  (readDigits radix 0 digits).filter (· < bound)

def isFigure (c : Char) : Bool := '0' ≤ c && c ≤ '9'

def readFigures (s : List Char) : Option Nat :=
  if s ≠ [] ∧ s.all isFigure then some (s.foldl (fun n c => 10 * n + (c.toNat - 48)) 0) else none

def readNat (bound : Nat) : List Char → Option Nat
  | '+' :: s => (readFigures s).filter (· < bound)
  | s => (readFigures s).filter (· < bound)

def int64Bound : Nat := 0x8000000000000000

def isInt64 (n : Int) : Bool := -Int.ofNat int64Bound ≤ n && n < Int.ofNat int64Bound

def readInt64 : List Char → Option Int
  | '-' :: s => ((readFigures s).filter (· ≤ int64Bound)).map fun n => -Int.ofNat n
  | s => (readNat int64Bound s).map Int.ofNat

def intText (n : Int) : String := toString n

end TokenAudit.Numeral
