import TokenAudit.Numeral

/-! Durations as text: a number with a unit, or seconds without one. -/

namespace TokenAudit.Duration

def number? (s : List Char) : Option Nat := Numeral.readNat UInt64.size s

def minutes? (s : List Char) : Option Nat := (number? s).filter fun n => n * 60 < UInt64.size

def readTrimmed? (s : List Char) : Option Nat :=
  match Text.before? ['m', 's'] s with
  | some n => number? n
  | none =>
    match Text.before? ['s'] s with
    | some n => (number? n).map fun k => k * 1000
    | none =>
      match Text.before? ['m'] s with
      | some n => (minutes? n).map fun k => k * 60000
      | none => (number? s).map fun k => k * 1000

def readMillis? (s : String) : Option Nat := readTrimmed? (Text.trim s.toList)

end TokenAudit.Duration
