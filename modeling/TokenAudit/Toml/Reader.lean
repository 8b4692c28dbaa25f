import TokenAudit.Toml.Literal
import TokenAudit.Toml.Table

/-! Reading TOML texts into trees of values. Dates are well formed and denote nothing here. -/

namespace TokenAudit.Toml

/-- How deep values nest, and how long key paths are. -/
def maxDepth : Nat := 79

def splitPath? (ks : List String) : Option (List String × String) :=
  if maxDepth < ks.length then none else ks.getLast?.map fun k => (ks.dropLast, k)

mutual
def readValue : Nat → Nat → List Char → Option (Json × List Char)
  | 0, _, _ => none
  | fuel + 1, room, s =>
    match s with
    | [] => none
    | '[' :: r =>
      if room = 0 then none
      else (readItems fuel (room - 1) (skipGap false r)).map fun (js, r) => (.arr js, r)
    | '{' :: r =>
      if room = 0 then none
      else
        match skipBlanks r with
        | '}' :: r => some (.obj [], r)
        | r => (readPairs fuel (room - 1) [] r).map fun (ms, r) => (Members.toJson ms, r)
    | c :: r =>
      if c = '"' ∨ c = quote then (readString (c :: r)).map fun (t, r) => (.text t, r)
      else
        match moment? (c :: r) with
        | some r => some (.unreadable, r)
        | none => readWord (c :: r)

def readItems : Nat → Nat → List Char → Option (List Json × List Char)
  | 0, _, _ => none
  | _ + 1, _, ']' :: r => some ([], r)
  | fuel + 1, room, s =>
    match readValue fuel room s with
    | none => none
    | some (j, r) =>
      match skipGap false r with
      | ',' :: r => (readItems fuel room (skipGap false r)).map fun (js, r) => (j :: js, r)
      | ']' :: r => some ([j], r)
      | _ => none

def readPairs : Nat → Nat → Members → List Char → Option (Members × List Char)
  | 0, _, _, _ => none
  | fuel + 1, room, done, s =>
    match readKey fuel s with
    | some (ks, '=' :: r) =>
      match splitPath? ks, readValue fuel room (skipBlanks r) with
      | some (path, k), some (j, r) =>
        match done.assign path k (.value j) with
        | none => none
        | some done =>
          match skipBlanks r with
          | ',' :: r => readPairs fuel room done r
          | '}' :: r => some (done, r)
          | _ => none
      | _, _ => none
    | _ => none
end

def readHeading (double : Bool) (s : List Char) : Option (List String × List Char) :=
  match readKey (s.length + 1) s with
  | none => none
  | some (ks, r) =>
    match Text.after? (if double then [']', ']'] else [']']) r with
    | none => none
    | some r => (nextLine? r).map fun r => (ks, r)

def readLines : Nat → List String → Members → List Char → Option Members
  | 0, _, _, _ => none
  | fuel + 1, heading, root, s =>
    match skipBlanks s with
    | [] => some root
    | '#' :: r =>
      match nextLine? ('#' :: r) with
      | some r => readLines fuel heading root r
      | none => none
    | '[' :: '[' :: r =>
      match readHeading true r with
      | none => none
      | some (ks, r) =>
        match (splitPath? ks).bind fun (path, k) => root.addRow path k with
        | some root => readLines fuel ks root r
        | none => none
    | '[' :: r =>
      match readHeading false r with
      | none => none
      | some (ks, r) =>
        match (splitPath? ks).bind fun (path, k) => root.openTable path k with
        | some root => readLines fuel ks root r
        | none => none
    | r =>
      match newline? r with
      | some r => readLines fuel heading root r
      | none =>
        match readKey (r.length + 1) r with
        | some (ks, '=' :: r) =>
          match readValue (2 * r.length + 2) maxDepth (skipBlanks r) with
          | none => none
          | some (j, r) =>
            match (splitPath? ks).bind fun (path, k) =>
                root.under heading fun t => t.assign path k (.value j), nextLine? r with
            | some root, some r => readLines fuel heading root r
            | _, _ => none
        | _ => none

/-- The tree of a text; a byte order mark before it counts for nothing. -/
def parse (s : String) : Option Json :=
  let text := match s.toList with
    | c :: t => if c.toNat = 0xfeff then t else c :: t
    | [] => []
  (readLines (text.length + 1) [] [] text).map Members.toJson

end TokenAudit.Toml
