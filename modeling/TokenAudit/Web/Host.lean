import TokenAudit.Numeral
import TokenAudit.Word

/-! Internet addresses as text: four-part and eight-part addresses, and addresses with a port. -/

namespace TokenAudit.Host

def span (radix : Nat) (s : List Char) : List Char × List Char :=
  (s.takeWhile fun c => (Numeral.digitBelow? radix c).isSome,
    s.dropWhile fun c => (Numeral.digitBelow? radix c).isSome)

def value (radix : Nat) (ds : List Char) : Nat :=
  ds.foldl (fun n c => radix * n + (Numeral.digitValue? c).getD 0) 0

def part? (s : List Char) : Option (Nat × List Char) :=
  let (ds, rest) := span 10 s
  if ds = [] ∨ 3 < ds.length ∨ (ds.head? = some '0' ∧ ds ≠ ['0']) ∨ 255 < value 10 ds then none
  else some (value 10 ds, rest)

def partsAfter : Nat → List Char → Option (List Nat × List Char)
  | 0, s => some ([], s)
  | n + 1, '.' :: s =>
    match part? s with
    | none => none
    | some (p, s) => (partsAfter n s).map fun (ps, s) => (p :: ps, s)
  | _ + 1, _ => none

def fourParts? (s : List Char) : Option (List Nat × List Char) :=
  match part? s with
  | none => none
  | some (p, s) => (partsAfter 3 s).map fun (ps, s) => (p :: ps, s)

def group? (s : List Char) : Option (Nat × List Char) :=
  let (ds, rest) := span 16 s
  if ds = [] ∨ 4 < ds.length then none else some (value 16 ds, rest)

def separated (first : Bool) (s : List Char) : Option (List Char) :=
  if first then some s else Text.after? [':'] s

def paired : List Nat → List Nat
  | [a, b, c, d] => [256 * a + b, 256 * c + d]
  | _ => []

/-- Groups as far as they go, at most `room`; an address of four parts may stand for the last two. -/
def groups : Nat → Bool → List Char → List Nat × Bool × List Char
  | 0, _, s => ([], false, s)
  | room + 1, first, s =>
    match separated first s with
    | none => ([], false, s)
    | some t =>
      match (if room = 0 then none else fourParts? t) with
      | some (ps, rest) => (paired ps, true, rest)
      | none =>
        match group? t with
        | none => ([], false, s)
        | some (g, rest) =>
          let (gs, four, rest) := groups room false rest
          (g :: gs, four, rest)

def eightGroups? (s : List Char) : Option (List Nat × List Char) :=
  let (front, four, rest) := groups 8 true s
  if front.length = 8 then some (front, rest)
  else if four then none
  else
    match Text.after? [':', ':'] rest with
    | none => none
    | some rest =>
      let (back, _, rest) := groups (7 - front.length) true rest
      some (front ++ List.replicate (8 - front.length - back.length) 0 ++ back, rest)

def number? (bound : Nat) (s : List Char) : Option (List Char) :=
  let (ds, rest) := span 10 s
  if ds = [] ∨ bound ≤ value 10 ds then none else some rest

def portEnds (s : List Char) : Bool :=
  match s with
  | ':' :: s => decide (number? UInt16.size s = some [])
  | _ => false

def afterScope? : List Char → Option (List Char)
  | '%' :: s => number? UInt32.size s
  | s => some s

def isSocket (s : List Char) : Bool :=
  match fourParts? s with
  | some (_, rest) => portEnds rest
  | none =>
    match s with
    | '[' :: s =>
      match (eightGroups? s).bind fun (_, rest) => afterScope? rest with
      | some (']' :: rest) => portEnds rest
      | _ => false
    | _ => false

def zeroRun (gs : List Nat) : Nat := (gs.takeWhile (· = 0)).length

def longestRun : Nat → List Nat → Nat × Nat
  | at_, [] => (at_, 0)
  | at_, g :: gs =>
    let rest := longestRun (at_ + 1) gs
    if rest.2 ≤ zeroRun (g :: gs) then (at_, zeroRun (g :: gs)) else rest

def joinGroups (gs : List Nat) : List Char := List.intercalate [':'] (gs.map Numeral.hex)

def renderGroups (gs : List Nat) : List Char :=
  let (at_, length) := longestRun 0 gs
  if length < 2 then joinGroups gs
  else joinGroups (gs.take at_) ++ ':' :: ':' :: joinGroups (gs.drop (at_ + length))

def renderParts (n : Nat) : List Char :=
  List.intercalate ['.'] ((Word.bigEndian 4 n).map fun b => Numeral.decimal b.toNat)

end TokenAudit.Host
