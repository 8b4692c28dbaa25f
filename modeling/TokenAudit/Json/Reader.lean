import TokenAudit.Json

/-! Reading JSON texts, strictly. Parts that are well formed without denoting a value are kept
as `unreadable`: halves of surrogate pairs, numbers beyond the doubles, the 128th nesting. -/

namespace TokenAudit.Json

def isSpace (c : Char) : Bool := c = ' ' || c = '\n' || c = '\t' || c = '\r'

def skipSpace (s : List Char) : List Char := s.dropWhile isSpace

inductive Piece where
  | char (c : Char)
  | unit (n : Nat)

def codeUnit? (a b c d : Char) : Option Nat := do
  let a ← Numeral.digitBelow? 16 a
  let b ← Numeral.digitBelow? 16 b
  let c ← Numeral.digitBelow? 16 c
  let d ← Numeral.digitBelow? 16 d
  return ((a * 16 + b) * 16 + c) * 16 + d

def shortEscape? (c : Char) : Option Char :=
  match c with
  | '"' => some '"'
  | '\\' => some '\\'
  | '/' => some '/'
  | 'b' => some (Char.ofNat 8)
  | 'f' => some (Char.ofNat 12)
  | 'n' => some '\n'
  | 'r' => some '\r'
  | 't' => some '\t'
  | _ => none

def readPieces : List Char → Option (List Piece × List Char)
  | [] => none
  | '"' :: s => some ([], s)
  | '\\' :: 'u' :: a :: b :: c :: d :: s =>
    match codeUnit? a b c d, readPieces s with
    | some n, some (ps, r) => some (.unit n :: ps, r)
    | _, _ => none
  | '\\' :: e :: s =>
    match shortEscape? e, readPieces s with
    | some c, some (ps, r) => some (.char c :: ps, r)
    | _, _ => none
  | c :: s =>
    if c.toNat < 32 ∨ c = '\\' then none
    else
      match readPieces s with
      | some (ps, r) => some (.char c :: ps, r)
      | none => none

def isHigh (n : Nat) : Bool := 0xd800 ≤ n && n < 0xdc00

def isLow (n : Nat) : Bool := 0xdc00 ≤ n && n < 0xe000

def joinPieces : List Piece → Option (List Char)
  | [] => some []
  | .char c :: ps => (joinPieces ps).map (c :: ·)
  | .unit n :: .unit m :: ps =>
    if isHigh n && isLow m then
      (joinPieces ps).map (Char.ofNat (0x10000 + (n - 0xd800) * 0x400 + (m - 0xdc00)) :: ·)
    else if isHigh n || isLow n then none
    else (joinPieces (.unit m :: ps)).map (Char.ofNat n :: ·)
  | .unit n :: ps =>
    if isHigh n || isLow n then none else (joinPieces ps).map (Char.ofNat n :: ·)

/-- A literal after its opening quote; `none` inside for one that denotes no text. -/
def readString (s : List Char) : Option (Option String × List Char) :=
  (readPieces s).map fun (ps, r) => ((joinPieces ps).map String.ofList, r)

structure Literal where
  negative : Bool
  whole : List Char
  fraction : Option (List Char)
  exponent : Option (Bool × List Char)

def readExponentPart : List Char → Option (Option (Bool × List Char) × List Char)
  | [] => some (none, [])
  | e :: s =>
    if e = 'e' ∨ e = 'E' then
      let (negative, t) := match s with
        | '-' :: t => (true, t)
        | '+' :: t => (false, t)
        | t => (false, t)
      let (ds, r) := Double.spanFigures t
      if ds = [] then none else some (some (negative, ds), r)
    else some (none, e :: s)

def readLiteral (s : List Char) : Option (Literal × List Char) :=
  let (negative, s) := match s with
    | '-' :: t => (true, t)
    | t => (false, t)
  let (whole, s) := Double.spanFigures s
  if whole = [] ∨ (whole.head? = some '0' ∧ whole.length ≠ 1) then none
  else
    match s with
    | '.' :: t =>
      let (fraction, t) := Double.spanFigures t
      if fraction = [] then none
      else (readExponentPart t).map fun (e, r) => (⟨negative, whole, some fraction, e⟩, r)
    | t => (readExponentPart t).map fun (e, r) => (⟨negative, whole, none, e⟩, r)

/-- Figures as long as they fit into 64 bits, and how many are left over. -/
def significand (n : Nat) : List Char → Nat × Nat
  | [] => (n, 0)
  | c :: s =>
    let m := 10 * n + (c.toNat - 48)
    if m < UInt64.size then significand m s else (n, s.length + 1)

def powerOfTen (n : Nat) : Float := Float.ofScientific 1 false n

/-- Scaling by one exact power of ten at a time; above the doubles there is no value. -/
def scaled : Nat → Float → Int → Option Float
  | 0, x, _ => some x
  | fuel + 1, x, power =>
    if power.natAbs ≤ 308 then
      if 0 ≤ power then
        let y := x * powerOfTen power.natAbs
        if y.isInf then none else some y
      else some (x / powerOfTen power.natAbs)
    else if x == 0 then some x
    else if 0 ≤ power then none
    else scaled fuel (x / powerOfTen 308) (power + 308)

def Literal.shift (l : Literal) : Int :=
  match l.exponent with
  | none => 0
  | some (negative, ds) =>
    let e := Int.ofNat (Double.figuresValue ds)
    if negative then -e else e

/-- The figures that are taken, and the power of ten that they are a multiple of. -/
def Literal.taken (l : Literal) : Nat × Int :=
  let (n, dropped) := significand 0 l.whole
  let ds := l.fraction.getD []
  let (m, left) := significand n ds
  (m, Int.ofNat dropped - Int.ofNat (ds.length - left) + l.shift)

def Literal.float? (l : Literal) : Option Float :=
  let (n, power) := l.taken
  let x := n.toUInt64.toFloat
  let y := if n = 0 then some x
    else if power < -4000 then some 0
    else scaled 20 x power
  y.map fun y => if l.negative then -y else y

/-- Whole numbers of 64 bits stay exact; minus zero and all others are doubles. -/
def Literal.number? (l : Literal) : Option Number :=
  let whole := Double.figuresValue l.whole
  if l.fraction.isNone ∧ l.exponent.isNone ∧ ¬ l.negative ∧ whole < UInt64.size then
    some (.int (Int.ofNat whole))
  else if l.fraction.isNone ∧ l.exponent.isNone ∧ l.negative ∧ 0 < whole ∧ whole ≤ Numeral.int64Bound then
    some (.int (-Int.ofNat whole))
  else l.float?.map .float

def readNumber (s : List Char) : Option (Json × List Char) :=
  (readLiteral s).map fun (l, r) =>
    match l.number? with
    | some n => (.num n, r)
    | none => (.unreadable, r)

def allKeys : List (Option String × Json) → Option (List (String × Json))
  | [] => some []
  | (none, _) :: _ => none
  | (some k, j) :: ms => (allKeys ms).map ((k, j) :: ·)

def container (room : Nat) (j : Json) : Json := if room = 0 then .unreadable else j

mutual
def readValue : Nat → Nat → List Char → Option (Json × List Char)
  | 0, _, _ => none
  | fuel + 1, room, s =>
    match skipSpace s with
    | 'n' :: 'u' :: 'l' :: 'l' :: r => some (.null, r)
    | 't' :: 'r' :: 'u' :: 'e' :: r => some (.bool true, r)
    | 'f' :: 'a' :: 'l' :: 's' :: 'e' :: r => some (.bool false, r)
    | '"' :: r =>
      (readString r).map fun (t, r) =>
        match t with
        | some t => (.str t, r)
        | none => (.unreadable, r)
    | '[' :: r =>
      match skipSpace r with
      | ']' :: r => some (container room (.arr []), r)
      | r => (readItems fuel (room - 1) r).map fun (js, r) => (container room (.arr js), r)
    | '{' :: r =>
      match skipSpace r with
      | '}' :: r => some (container room (.obj []), r)
      | r => (readMembers fuel (room - 1) r).map fun (ms, r) =>
        match allKeys ms with
        | some ms => (container room (.obj ms), r)
        | none => (.unreadable, r)
    | r => readNumber r

def readItems : Nat → Nat → List Char → Option (List Json × List Char)
  | 0, _, _ => none
  | fuel + 1, room, s =>
    match readValue fuel room s with
    | none => none
    | some (j, r) =>
      match skipSpace r with
      | ',' :: r => (readItems fuel room r).map fun (js, r) => (j :: js, r)
      | ']' :: r => some ([j], r)
      | _ => none

def readMembers : Nat → Nat → List Char → Option (List (Option String × Json) × List Char)
  | 0, _, _ => none
  | fuel + 1, room, s =>
    match skipSpace s with
    | '"' :: r =>
      match readString r with
      | none => none
      | some (key, r) =>
        match skipSpace r with
        | ':' :: r =>
          match readValue fuel room r with
          | none => none
          | some (j, r) =>
            match skipSpace r with
            | ',' :: r => (readMembers fuel room r).map fun (ms, r) => ((key, j) :: ms, r)
            | '}' :: r => some ([(key, j)], r)
            | _ => none
        | _ => none
    | _ => none
end

def maxNesting : Nat := 127

/-- Stands in messages for what is wrong with a JSON text; the details are not told. -/
def fault : String := "<json>"

def parseChars (s : List Char) : Option Json :=
  match readValue (2 * s.length + 2) maxNesting s with
  | some (j, r) => if (skipSpace r).isEmpty then some j else none
  | none => none

def parse (s : String) : Option Json := parseChars s.toList

def parseFree (s : String) : Option Json :=
  match parse s with
  | some j => if j.readable then some j.sorted else none
  | none => none

end TokenAudit.Json
