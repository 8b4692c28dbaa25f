import TokenAudit.Web.Percent

/-! Media types in headers: which of them promise JSON. -/

namespace TokenAudit.MediaType

def isTokenChar (c : Char) : Bool :=
  Percent.isAlphanumeric c || "!#$%&*+-.^_|~".toList.contains c || c.toNat = 0x27 || c.toNat = 0x60

def isQuotedChar (c : Char) : Bool := 0x20 ≤ c.toNat && c.toNat < 0x7f && c ≠ '"'

def afterQuoted? (s : List Char) : Option (List Char) :=
  match s.dropWhile (· == ' ') with
  | [] => some []
  | ';' :: r => some r
  | _ => none

def afterValue? : List Char → Option (List Char)
  | '"' :: s =>
    let value := s.takeWhile isQuotedChar
    match value, s.drop value.length with
    | [], _ => none
    | _, '"' :: r => afterQuoted? r
    | _, _ => none
  | s =>
    match s.drop (s.takeWhile isTokenChar).length with
    | [] => some []
    | ';' :: r => if s.takeWhile isTokenChar = [] then none else some r
    | _ => none

def paramsOk : Nat → List Char → Bool
  | 0, _ => false
  | fuel + 1, s =>
    match s.dropWhile (· == ' ') with
    | [] => true
    | s =>
      let name := s.takeWhile isTokenChar
      match name, s.drop name.length with
      | [], _ => false
      | _, '=' :: r =>
        match afterValue? r with
        | some r => paramsOk fuel r
        | none => false
      | _, _ => false

def splitSuffix (s : List Char) : List Char × Option (List Char) :=
  match s with
  | [] => ([], none)
  | c :: t =>
    if t.contains '+' then
      (c :: (t.reverse.dropWhile (· != '+')).reverse.dropLast,
        some (t.reverse.takeWhile (· != '+')).reverse)
    else (s, none)

def jsonName : List Char := "json".toList

def isJson (header : String) : Bool :=
  let s := header.toList
  let kind := s.takeWhile isTokenChar
  match s.drop kind.length with
  | '/' :: r =>
    let subtype := r.takeWhile isTokenChar
    let ends := match r.drop subtype.length with
      | [] => true
      | ';' :: p => paramsOk (p.length + 1) p
      | _ => false
    let (name, suffix) := splitSuffix (Text.lowerAscii subtype)
    subtype ≠ [] && ends && Text.lowerAscii kind = "application".toList &&
      (name = jsonName || suffix = some jsonName)
  | _ => false

end TokenAudit.MediaType
