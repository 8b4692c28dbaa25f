import TokenAudit.Numeral

/-! Instants of civil time in UTC, and their RFC 3339 texts. -/

namespace TokenAudit

/-- A date, the second of its day, and nanoseconds; a leap second has a billion and more. -/
structure Instant where
  year : Int
  month : Nat
  day : Nat
  second : Nat
  nano : Nat
  deriving DecidableEq, Repr

namespace Instant

def isLeap (year : Int) : Bool := year % 4 = 0 && (year % 100 ≠ 0 || year % 400 = 0)

def daysIn (year : Int) : Nat → Nat
  | 2 => if isLeap year then 29 else 28
  | 4 | 6 | 9 | 11 => 30
  | _ => 31

def validDate (year : Int) (month day : Nat) : Bool :=
  1 ≤ month && month ≤ 12 && 1 ≤ day && day ≤ daysIn year month &&
    -262143 ≤ year && year ≤ 262142

def nextDay (i : Instant) : Instant :=
  if i.day < daysIn i.year i.month then { i with day := i.day + 1 }
  else if i.month < 12 then { i with month := i.month + 1, day := 1 }
  else { i with year := i.year + 1, month := 1, day := 1 }

def previousDay (i : Instant) : Instant :=
  if 1 < i.day then { i with day := i.day - 1 }
  else if 1 < i.month then { i with month := i.month - 1, day := daysIn i.year (i.month - 1) }
  else { i with year := i.year - 1, month := 12, day := 31 }

def secondsOfDay : Nat := 86400

def shiftBack (i : Instant) (offset : Int) : Instant :=
  let s := Int.ofNat i.second - offset
  if s < 0 then { previousDay i with second := (s + secondsOfDay).toNat }
  else if secondsOfDay ≤ s then { nextDay i with second := (s - secondsOfDay).toNat }
  else { i with second := s.toNat }

def padded (width n : Nat) : List Char :=
  let ds := Numeral.decimal n
  List.replicate (width - ds.length) '0' ++ ds

def yearText (year : Int) : List Char :=
  if 0 ≤ year ∧ year ≤ 9999 then padded 4 year.toNat
  else (if year < 0 then '-' else '+') :: padded 4 year.natAbs

def fractionText (nano : Nat) : List Char :=
  if nano = 0 then []
  else if nano % 1000000 = 0 then '.' :: padded 3 (nano / 1000000)
  else if nano % 1000 = 0 then '.' :: padded 6 (nano / 1000)
  else '.' :: padded 9 nano

def render (i : Instant) : List Char :=
  yearText i.year ++ '-' :: padded 2 i.month ++ '-' :: padded 2 i.day ++
    'T' :: padded 2 (i.second / 3600) ++ ':' :: padded 2 (i.second / 60 % 60) ++
    ':' :: padded 2 (i.second % 60 + i.nano / 1000000000) ++
    fractionText (i.nano % 1000000000) ++ ['Z']

def text (i : Instant) : String := String.ofList (render i)

def takeNumber (width : Nat) (s : List Char) : Option (Nat × List Char) :=
  let ds := (s.take width).takeWhile Numeral.isFigure
  (Numeral.readFigures ds).map fun n => (n, s.drop ds.length)

def skipBlank (s : List Char) : List Char := s.dropWhile isBlank

def takeYear (s : List Char) : Option (Int × List Char) :=
  match s with
  | '-' :: t => (takeNumber t.length t).map fun (n, r) => (-Int.ofNat n, r)
  | '+' :: t => (takeNumber t.length t).map fun (n, r) => (Int.ofNat n, r)
  | t => (takeNumber 4 t).map fun (n, r) => (Int.ofNat n, r)

def takeMark (c : Char) (s : List Char) : Option (List Char) :=
  match skipBlank s with
  | d :: r => if d = c then some r else none
  | [] => none

def takePart (c : Char) (s : List Char) : Option (Nat × List Char) := do
  takeNumber 2 (skipBlank (← takeMark c s))

/-- A fraction keeps nine places and drops the rest. -/
def takeFraction (s : List Char) : Option (Nat × List Char) :=
  match s with
  | '.' :: t => do
    let ds := (t.take 9).takeWhile Numeral.isFigure
    let n ← Numeral.readFigures ds
    return (n * Nat.pow 10 (9 - ds.length), t.dropWhile Numeral.isFigure)
  | t => some (0, t)

def readOffset (s : List Char) : Option Int :=
  match s with
  | ['Z'] | ['z'] => some 0
  | [a, b, c] =>
    if Text.lowerAscii [a, b, c] = ['u', 't', 'c'] then some 0 else none
  | sign :: h₁ :: h₂ :: rest =>
    match rest.dropWhile (fun c => c = ':' || isBlank c) with
    | [m₁, m₂] =>
      if ¬ (sign = '+' ∨ sign = '-' ∨ sign = '−') ∨ ¬ m₁ ≤ '5' then none
      else do
        let h ← Numeral.readFigures [h₁, h₂]
        let m ← Numeral.readFigures [m₁, m₂]
        let n := h * 3600 + m * 60
        if n < secondsOfDay then some (if sign = '+' then Int.ofNat n else -Int.ofNat n) else none
    | _ => none
  | _ => none

/-- Date, time and offset, blanks at the ends left out; parts need no leading zeros, and the
sixtieth second is a leap. -/
def parseChars (s : List Char) : Option Instant := do
  let (year, s) ← takeYear (skipBlank s)
  let (month, s) ← takePart '-' s
  let (day, s) ← takePart '-' s
  let (mark, s) ← s.head?.map fun c => (c, s.drop 1)
  if ¬ (mark = 't' ∨ mark = 'T' ∨ mark = ' ') then none
  let (hour, s) ← takeNumber 2 (skipBlank s)
  let (minute, s) ← takePart ':' s
  let (second, s) ← takePart ':' s
  let (nano, s) ← takeFraction s
  let offset ← readOffset (Text.trim s)
  if ¬ validDate year month day ∨ 24 ≤ hour ∨ 60 ≤ minute ∨ 61 ≤ second then none
  let time := hour * 3600 + minute * 60
  let i : Instant :=
    if second = 60 then ⟨year, month, day, time + 59, 1000000000 + nano⟩
    else ⟨year, month, day, time + second, nano⟩
  return shiftBack i offset

def parse (s : String) : Option Instant := parseChars s.toList

end Instant

end TokenAudit
