import TokenAudit.Web.Host
import TokenAudit.Web.Percent

/-! Addresses of web resources: how a text is read as one, and the one form it is written in. -/

namespace TokenAudit

/-- User information is not kept. A path that is no list of segments has no host before it. -/
structure Url where
  scheme : List Char
  host : Option (List Char)
  port : Option Nat
  path : List Char
  query : Option (List Char)
  fragment : Option (List Char)
  deriving DecidableEq, Repr

namespace Url

/-! ### Characters -/

def isControl (c : Char) : Bool := c.toNat < 0x20 || 0x7f ≤ c.toNat

def isPlain (specials : List Char) (c : Char) : Bool := !isControl c && !specials.contains c

def isFragmentChar : Char → Bool := isPlain [' ', '"', '<', '>', Char.ofNat 0x60]

def isPathChar : Char → Bool :=
  isPlain [' ', '"', '<', '>', Char.ofNat 0x60, '#', '?', Char.ofNat 0x7b, Char.ofNat 0x7d]

def isQueryChar (web : Bool) : Char → Bool :=
  isPlain ([' ', '"', '<', '>', '#'] ++ if web then [Char.ofNat 0x27] else [])

def isForbidden (c : Char) : Bool :=
  c.toNat ≤ 0x20 || c.toNat = 0x7f ||
    ['#', '/', ':', '<', '>', '?', '@', '[', '\\', ']', '^', '|'].contains c

/-! ### Schemes -/

def defaultPort? (scheme : List Char) : Option Nat :=
  match String.ofList scheme with
  | "http" => some 80
  | "ws" => some 80
  | "https" => some 443
  | "wss" => some 443
  | "ftp" => some 21
  | _ => none

def fileScheme : List Char := "file".toList

def isWebScheme (scheme : List Char) : Bool :=
  (defaultPort? scheme).isSome || scheme == fileScheme

def isSchemeChar (c : Char) : Bool :=
  Percent.isAlphanumeric c || c = '+' || c = '-' || c = '.'

def scheme? (s : List Char) : Option (List Char × List Char) :=
  let name := s.takeWhile isSchemeChar
  match name, s.drop name.length with
  | c :: _, ':' :: rest =>
    if Numeral.isFigure c ∨ c = '+' ∨ c = '-' ∨ c = '.' then none
    else some (Text.lowerAscii name, rest)
  | _, _ => none

/-! ### Hosts -/

/-- A number in the radix that its head names; a head alone is zero. -/
def hostNumber? (s : List Char) : Option Nat :=
  let (radix, ds) := match s with
    | '0' :: 'x' :: ds => (16, ds)
    | '0' :: 'X' :: ds => (16, ds)
    | '0' :: d :: ds => (8, d :: ds)
    | ds => (10, ds)
  if s = [] then none
  else if ds.all fun c => (Numeral.digitBelow? radix c).isSome then some (Host.value radix ds)
  else none

def dropLastEmpty (parts : List (List Char)) : List (List Char) :=
  match parts.reverse with
  | [] :: p :: ps => (p :: ps).reverse
  | _ => parts

/-- Whether a host is meant as a number: its last label is one. -/
def endsInNumber (parts : List (List Char)) : Bool :=
  match parts.getLast? with
  | none => false
  | some p => (p ≠ [] && p.all Numeral.isFigure) || (hostNumber? p).isSome

def joinNumbers : Nat → List Nat → Option Nat
  | _, [] => none
  | room, [n] => if n < Nat.pow 256 room then some n else none
  | room, n :: ns =>
    if n < 256 then (joinNumbers (room - 1) ns).map fun m => n * Nat.pow 256 (room - 1) + m else none

def numericHost? (parts : List (List Char)) : Option (List Char) :=
  if 4 < parts.length then none
  else
    match parts.mapM hostNumber? with
    | none => none
    | some ns => (joinNumbers 4 ns).map Host.renderParts

def groupHost? (s : List Char) : Option (List Char) :=
  match Host.eightGroups? s with
  | some (gs, [']']) => some ('[' :: Host.renderGroups gs ++ [']'])
  | _ => none

def webHost? (s : List Char) : Option (List Char) :=
  match s with
  | '[' :: s => groupHost? s
  | s =>
    let name := Text.lowerAscii (Utf8.lossy (Percent.decode s))
    let parts := dropLastEmpty (Text.splitOn '.' name)
    if name = [] ∨ name.any (fun c => isForbidden c || c = '%' || 0x7f < c.toNat) then none
    else if endsInNumber parts then numericHost? parts
    else some name

def otherHost? (s : List Char) : Option (List Char) :=
  match s with
  | '[' :: s => groupHost? s
  | s => if s.any isForbidden then none else some (Percent.encode (fun c => !isControl c) s)

def afterUser (s : List Char) : List Char := (s.reverse.takeWhile (· != '@')).reverse

def spanHost : Bool → List Char → List Char × List Char
  | _, [] => ([], [])
  | inside, c :: s =>
    if c = ':' ∧ ¬inside then ([], c :: s)
    else
      let (h, rest) := spanHost (if c = '[' then true else if c = ']' then false else inside) s
      (c :: h, rest)

def port? (scheme : List Char) : List Char → Option (Option Nat)
  | [] => some none
  | [':'] => some none
  | ':' :: ds =>
    if ds.all Numeral.isFigure ∧ Host.value 10 ds < UInt16.size then
      some (if defaultPort? scheme = some (Host.value 10 ds) then none
        else some (Host.value 10 ds))
    else none
  | _ => none

/-! ### Paths -/

def isSlash (web : Bool) (c : Char) : Bool := c = '/' || (web && c = '\\')

def isHere (s : List Char) : Bool :=
  s = ['.'] || Text.lowerAscii s = "%2e".toList

def isUp (s : List Char) : Bool :=
  let t := Text.lowerAscii s
  t = "..".toList || t = ".%2e".toList || t = "%2e.".toList || t = "%2e%2e".toList

/-- Steps within the path are taken; the last of them leaves an empty segment. -/
def settle (done : List (List Char)) : List (List Char) → List (List Char)
  | [] => done
  | [s] => if isUp s then done.dropLast ++ [[]] else if isHere s then done ++ [[]] else done ++ [s]
  | s :: rest =>
    if isUp s then settle done.dropLast rest
    else if isHere s then settle done rest
    else settle (done ++ [s]) rest

def splitSegments (web : Bool) (s : List Char) : List (List Char) :=
  Text.splitOn '/' (s.map fun c => if isSlash web c then '/' else c)

def segmentPath (web : Bool) (s : List Char) : List Char :=
  if s = [] then (if web then ['/'] else [])
  else
    ((settle [] (splitSegments web (s.drop 1))).map (Percent.encode isPathChar)).flatMap
      fun segment => '/' :: segment

/-! ### Whole addresses -/

def tidy (s : List Char) : List Char :=
  let bare (t : List Char) : List Char := t.dropWhile fun c => c.toNat ≤ 0x20
  (bare (bare s).reverse).reverse.filter fun c => c ≠ '\t' ∧ c ≠ '\n' ∧ c ≠ '\r'

def cutAt (c : Char) (s : List Char) : List Char × Option (List Char) :=
  match s.dropWhile (· != c) with
  | [] => (s, none)
  | _ :: rest => (s.takeWhile (· != c), some rest)

def front? (scheme s : List Char) : Option Url :=
  let web := isWebScheme scheme
  let authority (host? : List Char → Option (List Char)) (s : List Char) : Option Url :=
    let (h, p) := spanHost false (afterUser (s.takeWhile fun c => !isSlash web c))
    match host? h, port? scheme p with
    | some host, some port =>
      some ⟨scheme, some host, port,
        segmentPath web (s.dropWhile fun c => !isSlash web c), none, none⟩
    | _, _ => none
  if scheme = fileScheme then
    let bare := s.dropWhile (isSlash web)
    match s with
    | a :: b :: t =>
      if isSlash web a && isSlash web b && !(t.head?.any (isSlash web)) && t ≠ [] then
        let name := t.takeWhile fun c => !isSlash web c
        let path := segmentPath web (t.dropWhile fun c => !isSlash web c)
        match webHost? name with
        | some host =>
          some ⟨scheme, if host = "localhost".toList then none else some host, none, path,
            none, none⟩
        | none => none
      else some ⟨scheme, none, none, segmentPath web ('/' :: bare), none, none⟩
    | _ => some ⟨scheme, none, none, segmentPath web ('/' :: bare), none, none⟩
  else if web then authority webHost? (s.dropWhile (isSlash web))
  else
    match s with
    | '/' :: '/' :: s => authority otherHost? s
    | '/' :: s => some ⟨scheme, none, none, segmentPath web ('/' :: s), none, none⟩
    | s => some ⟨scheme, none, none, Percent.encode (fun c => !isControl c) s, none, none⟩

def ofChars? (s : List Char) : Option Url :=
  match scheme? (tidy s) with
  | none => none
  | some (scheme, s) =>
    let (s, fragment) := cutAt '#' s
    let (s, query) := cutAt '?' s
    (front? scheme s).map fun u =>
      { u with
        query := query.map (Percent.encode (isQueryChar (isWebScheme scheme)))
        fragment := fragment.map (Percent.encode isFragmentChar) }

def parse? (s : String) : Option Url := ofChars? s.toList

def hasHost (u : Url) : Bool :=
  match u.host with
  | some h => h ≠ []
  | none => false

def isHttp (u : Url) : Bool := u.scheme == "http".toList || u.scheme == "https".toList

def tail (head : Char) : Option (List Char) → List Char
  | some s => head :: s
  | none => []

def chars (u : Url) : List Char :=
  let authority := match u.host with
    | some h => '/' :: '/' :: h ++ tail ':' (u.port.map Numeral.decimal)
    | none => if u.scheme = fileScheme then ['/', '/'] else []
  u.scheme ++ ':' :: authority ++ u.path ++ tail '?' u.query ++ tail '#' u.fragment

def render (u : Url) : String := String.ofList u.chars

def target (u : Url) : String := String.ofList (u.path ++ tail '?' u.query)

def withPairs (u : Url) (pairs : List (String × String)) : Url :=
  let text := Percent.formText pairs
  match u.query with
  | some (c :: q) => { u with query := some (c :: q ++ '&' :: text) }
  | _ => { u with query := some text }

end Url

end TokenAudit
