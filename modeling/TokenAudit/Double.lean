import TokenAudit.Numeral

/-! Double-precision numbers: the fewest digits that read back, two written forms, and a reader. -/

namespace TokenAudit.Double

/-- A positive finite double is `mantissa * 2 ^ (exponent - 1074)`. -/
structure Parts where
  mantissa : Nat
  exponent : Nat

def fractionSize : Nat := 0x10000000000000

def parts (x : Float) : Parts :=
  let bits := x.toBits.toNat
  let field := bits / fractionSize % 0x800
  let fraction := bits % fractionSize
  if field = 0 then ⟨fraction, 0⟩ else ⟨fractionSize + fraction, field - 1⟩

def isNegative (x : Float) : Bool := decide (Numeral.int64Bound ≤ x.toBits.toNat)

structure Figures where
  value : Nat
  power : Int

/-- The reals that read as the number, with its own place among them, over one denominator. -/
structure Interval where
  low : Nat
  value : Nat
  high : Nat
  denominator : Nat
  closed : Bool

def interval (p : Parts) : Interval :=
  let below := if p.mantissa = fractionSize ∧ p.exponent ≠ 0 then 1 else 2
  let scale := Nat.pow 2 p.exponent
  { low := (4 * p.mantissa - below) * scale
    value := 4 * p.mantissa * scale
    high := (4 * p.mantissa + 2) * scale
    denominator := 4 * Nat.pow 2 1074
    closed := p.mantissa % 2 = 0 }

def leadingPlace (i : Interval) : Int :=
  if i.denominator ≤ i.value then
    Int.ofNat ((Numeral.decimal (i.value / i.denominator)).length - 1)
  else
    let n := (Numeral.decimal (i.denominator / i.value)).length
    if i.value * Nat.pow 10 (n - 1) = i.denominator then -Int.ofNat (n - 1) else -Int.ofNat n

def scaleUp (n : Nat) (power : Int) : Nat := n * Nat.pow 10 power.toNat

def Interval.holds (i : Interval) (figures : Nat) (power : Int) : Bool :=
  let point := scaleUp (figures * i.denominator) power
  let low := scaleUp i.low (-power)
  let high := scaleUp i.high (-power)
  if i.closed then low ≤ point && point ≤ high else low < point && point < high

def Interval.distance (i : Interval) (figures : Nat) (power : Int) : Nat :=
  let point := scaleUp (figures * i.denominator) power
  let value := scaleUp i.value (-power)
  (point - value) + (value - point)

def Interval.onGrid (i : Interval) (power : Int) : Option Figures :=
  let floor := scaleUp i.value (-power) / scaleUp i.denominator power
  match i.holds floor power, i.holds (floor + 1) power with
  | true, true =>
    if i.distance floor power < i.distance (floor + 1) power then some ⟨floor, power⟩
    else if i.distance (floor + 1) power < i.distance floor power then some ⟨floor + 1, power⟩
    else if floor % 2 = 0 then some ⟨floor, power⟩
    else some ⟨floor + 1, power⟩
  | true, false => some ⟨floor, power⟩
  | false, true => some ⟨floor + 1, power⟩
  | false, false => none

def dropZeros : Nat → Figures → Figures
  | 0, f => f
  | fuel + 1, f =>
    if f.value ≠ 0 ∧ f.value % 10 = 0 then dropZeros fuel ⟨f.value / 10, f.power + 1⟩ else f

def shortest (x : Float) : Figures :=
  let p := parts x
  if p.mantissa = 0 then ⟨0, 0⟩
  else
    let i := interval p
    let place := leadingPlace i
    match (List.range 17).findSome? fun n => i.onGrid (place - Int.ofNat n) with
    | some f => dropZeros 18 f
    | none => ⟨0, 0⟩

def zeros (n : Nat) : List Char := List.replicate n '0'

def positional (f : Figures) (point : Bool) : List Char :=
  let ds := Numeral.decimal f.value
  let place := Int.ofNat ds.length + f.power
  if 0 ≤ f.power then
    ds ++ zeros f.power.toNat ++ (if point then ['.', '0'] else [])
  else if 0 < place then ds.take place.toNat ++ '.' :: ds.drop place.toNat
  else '0' :: '.' :: zeros (-place).toNat ++ ds

def scientific (f : Figures) : List Char :=
  let ds := Numeral.decimal f.value
  let power := (Int.ofNat ds.length + f.power - 1)
  let tail := 'e' :: (Numeral.intText power).toList
  match ds with
  | [] => tail
  | [d] => d :: tail
  | d :: rest => d :: '.' :: rest ++ tail

def signed (x : Float) (s : List Char) : List Char := if isNegative x then '-' :: s else s

def interchange (x : Float) : List Char :=
  let f := shortest x
  let place := Int.ofNat (Numeral.decimal f.value).length + f.power
  signed x (if f.value = 0 ∨ (-5 < place ∧ place ≤ 16) then positional f true else scientific f)

/-- The display form has no exponent. -/
def display (x : Float) : String :=
  if x.isNaN then "NaN"
  else if x.isInf then (if isNegative x then "-inf" else "inf")
  else String.ofList (signed x (positional (shortest x) false))

def ofFigures (figures : Nat) (power : Int) : Float :=
  let place := Int.ofNat (Numeral.decimal figures).length + power
  if figures = 0 ∨ place < -400 then 0
  else if 400 < place then 1.0 / 0.0
  else Float.ofScientific figures (decide (power < 0)) power.natAbs

def spanFigures (s : List Char) : List Char × List Char :=
  (s.takeWhile Numeral.isFigure, s.dropWhile Numeral.isFigure)

def figuresValue (ds : List Char) : Nat := ds.foldl (fun n c => 10 * n + (c.toNat - 48)) 0

def readExponent : List Char → Option Int
  | [] => some 0
  | e :: s =>
    if e = 'e' ∨ e = 'E' then
      match s with
      | '-' :: t => (Numeral.readFigures t).map fun n => -Int.ofNat n
      | '+' :: t => (Numeral.readFigures t).map Int.ofNat
      | t => (Numeral.readFigures t).map Int.ofNat
    else none

def readMagnitude (s : List Char) : Option Float :=
  let word := String.ofList (Text.lowerAscii s)
  if word = "inf" ∨ word = "infinity" then some (1.0 / 0.0)
  else if word = "nan" then some (0.0 / 0.0)
  else
    let (whole, rest) := spanFigures s
    let (fraction, rest) :=
      match rest with
      | '.' :: t => spanFigures t
      | t => ([], t)
    if whole = [] ∧ fraction = [] then none
    else
      (readExponent rest).map fun e =>
        ofFigures (figuresValue (whole ++ fraction)) (e - Int.ofNat fraction.length)

def read? : List Char → Option Float
  | '-' :: s => (readMagnitude s).map fun x => -x
  | '+' :: s => readMagnitude s
  | s => readMagnitude s

def bitText (x : Float) : String :=
  if x.isNaN then "NaN"
  else
    let ds := Numeral.hex x.toBits.toNat
    String.ofList ('0' :: 'x' :: zeros (16 - ds.length) ++ ds)

end TokenAudit.Double
