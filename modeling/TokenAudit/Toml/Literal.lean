import TokenAudit.Json

/-! Literals of TOML texts: gaps, strings, keys, numbers, and dates. A reader gives what it read
and the rest of the text. -/

namespace TokenAudit.Toml

/-! ### Gaps -/

def isBlankChar (c : Char) : Bool := c = ' ' || c = '\t'

def isPlainChar (c : Char) : Bool := c = '\t' || (0x20 ≤ c.toNat && c.toNat ≠ 0x7f)

def skipBlanks (s : List Char) : List Char := s.dropWhile isBlankChar

def newline? : List Char → Option (List Char)
  | '\n' :: s => some s
  | '\r' :: '\n' :: s => some s
  | _ => none

def nextLine? (s : List Char) : Option (List Char) :=
  let rest := match skipBlanks s with
    | '#' :: t => t.dropWhile isPlainChar
    | t => t
  if rest = [] then some [] else newline? rest

/-- Past blanks, line ends and comments. What a comment cannot hold is left over. -/
def skipGap (comment : Bool) : List Char → List Char
  | [] => []
  | '\n' :: s => skipGap false s
  | '\r' :: '\n' :: s => skipGap false s
  | c :: s =>
    if comment then (if isPlainChar c then skipGap true s else c :: s)
    else if c = '#' then skipGap true s
    else if isBlankChar c then skipGap false s
    else c :: s

/-! ### Strings -/

def hexValue? (ds : List Char) : Option Nat :=
  ds.foldlM (fun n c => (Numeral.digitBelow? 16 c).map fun d => 16 * n + d) 0

def codePoint? (ds : List Char) : Option Char :=
  (hexValue? ds).bind fun n => if h : n.isValidChar then some (Char.ofNatAux n h) else none

def shortEscape? (c : Char) : Option Char :=
  match c with
  | 'b' => some (Char.ofNat 8)
  | 't' => some '\t'
  | 'n' => some '\n'
  | 'f' => some (Char.ofNat 12)
  | 'r' => some '\r'
  | '"' => some '"'
  | '\\' => some '\\'
  | _ => none

def before (c : Option Char) (r : Option (List Char × List Char)) :
    Option (List Char × List Char) :=
  match c, r with
  | some c, some (cs, rest) => some (c :: cs, rest)
  | _, _ => none

def readBasic : List Char → Option (List Char × List Char)
  | [] => none
  | '"' :: s => some ([], s)
  | '\\' :: 'u' :: a :: b :: c :: d :: s => before (codePoint? [a, b, c, d]) (readBasic s)
  | '\\' :: 'U' :: a :: b :: c :: d :: e :: f :: g :: h :: s =>
    before (codePoint? [a, b, c, d, e, f, g, h]) (readBasic s)
  | '\\' :: e :: s => before (shortEscape? e) (readBasic s)
  | c :: s => if isPlainChar c then before (some c) (readBasic s) else none

/-- The rest of a string of many lines. A backslash at a line's end joins it to the next text. -/
def readBasicLines (joining : Bool) : List Char → Option (List Char × List Char)
  | [] => none
  | '"' :: '"' :: '"' :: '"' :: '"' :: s => some (['"', '"'], s)
  | '"' :: '"' :: '"' :: '"' :: s => some (['"'], s)
  | '"' :: '"' :: '"' :: s => some ([], s)
  | '\r' :: '\n' :: s =>
    if joining then readBasicLines true s else before (some '\n') (readBasicLines false s)
  | '\n' :: s =>
    if joining then readBasicLines true s else before (some '\n') (readBasicLines false s)
  | '\\' :: 'u' :: a :: b :: c :: d :: s =>
    before (codePoint? [a, b, c, d]) (readBasicLines false s)
  | '\\' :: 'U' :: a :: b :: c :: d :: e :: f :: g :: h :: s =>
    before (codePoint? [a, b, c, d, e, f, g, h]) (readBasicLines false s)
  | '\\' :: e :: s =>
    if (newline? (skipBlanks (e :: s))).isSome then
      readBasicLines true (e :: s)
    else before (shortEscape? e) (readBasicLines false s)
  | c :: s =>
    if joining && isBlankChar c then readBasicLines true s
    else if isPlainChar c then before (some c) (readBasicLines false s)
    else none

def quote : Char := Char.ofNat 39

def readLiteral : List Char → Option (List Char × List Char)
  | [] => none
  | c :: s =>
    if c = quote then some ([], s)
    else if isPlainChar c then before (some c) (readLiteral s)
    else none

def quotesAt (s : List Char) : Nat := (s.takeWhile (· == quote)).length

def readLiteralLines : List Char → Option (List Char × List Char)
  | [] => none
  | '\r' :: '\n' :: s => before (some '\n') (readLiteralLines s)
  | '\n' :: s => before (some '\n') (readLiteralLines s)
  | c :: s =>
    let n := min (quotesAt (c :: s)) 5
    if 3 ≤ n then some (List.replicate (n - 3) quote, (c :: s).drop n)
    else if isPlainChar c then before (some c) (readLiteralLines s)
    else none

/-- A string of any of the four kinds; a line end right after three quotes is dropped. -/
def readString : List Char → Option (List Char × List Char)
  | '"' :: '"' :: '"' :: s => readBasicLines false ((newline? s).getD s)
  | '"' :: s => readBasic s
  | c :: s =>
    if c ≠ quote then none
    else if 3 ≤ quotesAt (c :: s) then
      let s := (c :: s).drop 3
      readLiteralLines ((newline? s).getD s)
    else readLiteral s
  | [] => none

/-! ### Keys -/

def isBareChar (c : Char) : Bool :=
  Numeral.isFigure c || ('a' ≤ c && c ≤ 'z') || ('A' ≤ c && c ≤ 'Z') || c = '_' || c = '-'

def readSimpleKey (s : List Char) : Option (String × List Char) :=
  match s with
  | '"' :: t => (readBasic t).map fun (k, r) => (String.ofList k, r)
  | c :: t =>
    if c = quote then (readLiteral t).map fun (k, r) => (String.ofList k, r)
    else
      let k := s.takeWhile isBareChar
      if k = [] then none else some (String.ofList k, s.dropWhile isBareChar)
  | [] => none

def readKey : Nat → List Char → Option (List String × List Char)
  | 0, _ => none
  | fuel + 1, s =>
    match readSimpleKey (skipBlanks s) with
    | none => none
    | some (k, r) =>
      match skipBlanks r with
      | '.' :: r => (readKey fuel r).map fun (ks, r) => (k :: ks, r)
      | r => some ([k], r)

/-! ### Numbers and names -/

def digits? (isDigit : Char → Bool) : List Char → Option (List Char)
  | [] => none
  | [c] => if isDigit c then some [c] else none
  | c :: '_' :: s => if isDigit c then (digits? isDigit s).map (c :: ·) else none
  | c :: s => if isDigit c then (digits? isDigit s).map (c :: ·) else none

def isDigitOf (radix : Nat) (c : Char) : Bool := (Numeral.digitBelow? radix c).isSome

def whole? (s : List Char) : Option (List Char) :=
  (digits? Numeral.isFigure s).filter fun ds => ds = ['0'] || ds.head? ≠ some '0'

def signed : List Char → Bool × List Char
  | '-' :: s => (true, s)
  | '+' :: s => (false, s)
  | s => (false, s)

def inRange (n : Int) : Option Json :=
  if Numeral.isInt64 n then some (.int n) else none

def radixInt? (radix : Nat) (s : List Char) : Option Json :=
  (digits? (isDigitOf radix) s).bind fun ds =>
    inRange (ds.foldl (fun n c => radix * n + Int.ofNat ((Numeral.digitValue? c).getD 0)) 0)

def int? : List Char → Option Json
  | '0' :: 'x' :: s => radixInt? 16 s
  | '0' :: 'o' :: s => radixInt? 8 s
  | '0' :: 'b' :: s => radixInt? 2 s
  | s =>
    let (negative, ds) := signed s
    (whole? ds).bind fun ds =>
      let n := Int.ofNat (Double.figuresValue ds)
      inRange (if negative then -n else n)

def exponentOk : List Char → Bool
  | e :: s => (e = 'e' || e = 'E') && (digits? Numeral.isFigure (signed s).2).isSome
  | [] => false

def isFractionEnd (c : Char) : Bool := c = 'e' || c = 'E'

def float? (s : List Char) : Option Json :=
  let (negative, t) := signed s
  if t = "inf".toList then
    some (.num (.float (if negative then -(1.0 / 0.0) else 1.0 / 0.0)))
  else if t = "nan".toList then some (.num (.float (0.0 / 0.0)))
  else
    let head := t.takeWhile fun c => !(c = '.' || isFractionEnd c)
    let rest := t.dropWhile fun c => !(c = '.' || isFractionEnd c)
    let ok := match rest with
      | '.' :: r =>
        (digits? Numeral.isFigure (r.takeWhile fun c => !isFractionEnd c)).isSome &&
          (let e := r.dropWhile fun c => !isFractionEnd c
           e = [] || exponentOk e)
      | r => exponentOk r
    if (whole? head).isSome && ok then
      match Double.read? (s.filter (· ≠ '_')) with
      | some x => if x.isInf && 0 < x then none else some (.num (.float x))
      | none => none
    else none

def isWordChar (c : Char) : Bool := isBareChar c || c = '+' || c = '.'

def readWord (s : List Char) : Option (Json × List Char) :=
  let word := s.takeWhile isWordChar
  let value :=
    if word = "true".toList then some (.bool true)
    else if word = "false".toList then some (.bool false)
    else
      match float? word with
      | some j => some j
      | none => int? word
  value.map fun j => (j, s.dropWhile isWordChar)

/-! ### Dates and times -/

def figures? : Nat → List Char → Option (Nat × List Char)
  | 0, s => some (0, s)
  | n + 1, c :: s =>
    if Numeral.isFigure c then
      (figures? n s).map fun (m, r) => ((c.toNat - 48) * Nat.pow 10 n + m, r)
    else none
  | _ + 1, [] => none

def field? (width low high : Nat) (s : List Char) : Option (Nat × List Char) :=
  (figures? width s).filter fun (n, _) => low ≤ n ∧ n ≤ high

def sign? (c : Char) : List Char → Option (List Char)
  | d :: s => if d = c then some s else none
  | [] => none

def daysIn (year month : Nat) : Nat :=
  if month = 2 then
    if year % 4 = 0 ∧ (year % 100 ≠ 0 ∨ year % 400 = 0) then 29 else 28
  else if month = 4 ∨ month = 6 ∨ month = 9 ∨ month = 11 then 30
  else 31

def date? (s : List Char) : Option (List Char) := do
  let (year, s) ← figures? 4 s
  let s ← sign? '-' s
  let (month, s) ← field? 2 1 12 s
  let s ← sign? '-' s
  let (_, s) ← field? 2 1 (daysIn year month) s
  return s

def time? (s : List Char) : Option (List Char) := do
  let (_, s) ← field? 2 0 23 s
  let s ← sign? ':' s
  let (_, s) ← field? 2 0 59 s
  let s ← sign? ':' s
  let (_, s) ← field? 2 0 60 s
  match s with
  | '.' :: c :: r => if Numeral.isFigure c then return r.dropWhile Numeral.isFigure else none
  | s => return s

def offset? : List Char → Option (List Char)
  | [] => none
  | c :: s =>
    if c = 'Z' ∨ c = 'z' then some s
    else if c = '+' ∨ c = '-' then do
      let (_, s) ← field? 2 0 23 s
      let s ← sign? ':' s
      let (_, s) ← field? 2 0 59 s
      return s
    else none

def moment? (s : List Char) : Option (List Char) :=
  match date? s with
  | none => time? s
  | some rest =>
    match rest with
    | c :: t =>
      if c = 'T' ∨ c = 't' ∨ c = ' ' then
        match time? t with
        | some r => some ((offset? r).getD r)
        | none => some rest
      else some rest
    | [] => some []

end TokenAudit.Toml
