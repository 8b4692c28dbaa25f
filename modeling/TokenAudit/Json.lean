import TokenAudit.Double

/-! JSON values: written forms, look-up, and the sorted form of free values. -/

namespace TokenAudit

inductive Number where
  | int (n : Int)
  | float (x : Float)

/-- `unreadable` stands where a text is well formed and denotes no value a reader can take. -/
inductive Json where
  | null
  | bool (b : Bool)
  | num (n : Number)
  | str (s : String)
  | arr (items : List Json)
  | obj (members : List (String × Json))
  | unreadable

namespace Json

def int (n : Int) : Json := .num (.int n)

def nat (n : Nat) : Json := .num (.int (Int.ofNat n))

def float (x : Float) : Json := if x.isFinite then .num (.float x) else .null

def text (s : List Char) : Json := .str (String.ofList s)

def ofOption {α : Type} (f : α → Json) : Option α → Json
  | none => .null
  | some a => f a

mutual
def readable : Json → Bool
  | unreadable => false
  | arr items => readableItems items
  | obj members => readableMembers members
  | _ => true

def readableItems : List Json → Bool
  | [] => true
  | j :: js => readable j && readableItems js

def readableMembers : List (String × Json) → Bool
  | [] => true
  | (_, j) :: ms => readable j && readableMembers ms
end

def insertMember (k : String) (v : Json) : List (String × Json) → List (String × Json)
  | [] => [(k, v)]
  | (k', v') :: ms =>
    if k < k' then (k, v) :: (k', v') :: ms
    else if k = k' then (k, v) :: ms
    else (k', v') :: insertMember k v ms

mutual
def sorted : Json → Json
  | arr items => arr (sortedItems items)
  | obj members => obj (sortedMembers members [])
  | j => j

def sortedItems : List Json → List Json
  | [] => []
  | j :: js => sorted j :: sortedItems js

def sortedMembers : List (String × Json) → List (String × Json) → List (String × Json)
  | [], done => done
  | (k, j) :: ms, done => sortedMembers ms (insertMember k (sorted j) done)
end

def get? (key : String) : Json → Option Json
  | obj members => (members.reverse.find? fun m => m.1 = key).map Prod.snd
  | _ => none

def asString? : Json → Option String
  | str s => some s
  | _ => none

def asBool? : Json → Option Bool
  | bool b => some b
  | _ => none

def asArray? : Json → Option (List Json)
  | arr items => some items
  | _ => none

def isNull : Json → Bool
  | null => true
  | _ => false

def escape (c : Char) : List Char :=
  if c = '"' then ['\\', '"']
  else if c = '\\' then ['\\', '\\']
  else if c.toNat = 8 then ['\\', 'b']
  else if c.toNat = 12 then ['\\', 'f']
  else if c.toNat = 10 then ['\\', 'n']
  else if c.toNat = 13 then ['\\', 'r']
  else if c.toNat = 9 then ['\\', 't']
  else if c.toNat < 32 then
    ['\\', 'u', '0', '0', if c.toNat < 16 then '0' else '1', Nat.digitChar (c.toNat % 16)]
  else [c]

def quoted (s : String) : List Char := '"' :: s.toList.flatMap escape ++ ['"']

def Number.render : Number → List Char
  | .int n => (Numeral.intText n).toList
  | .float x => Double.interchange x

mutual
def renderChars : Json → List Char
  | null => "null".toList
  | bool true => "true".toList
  | bool false => "false".toList
  | num n => Number.render n
  | str s => quoted s
  | arr items => '[' :: renderItems items ++ [']']
  | obj members => '{' :: renderMembers members ++ ['}']
  | unreadable => "null".toList

def renderItems : List Json → List Char
  | [] => []
  | [j] => renderChars j
  | j :: js => renderChars j ++ ',' :: renderItems js

def renderMembers : List (String × Json) → List Char
  | [] => []
  | [(k, j)] => quoted k ++ ':' :: renderChars j
  | (k, j) :: ms => quoted k ++ ':' :: renderChars j ++ ',' :: renderMembers ms
end

def render (j : Json) : String := String.ofList (renderChars j)

def indent (depth : Nat) : List Char := '\n' :: List.replicate (2 * depth) ' '

mutual
def prettyChars (depth : Nat) : Json → List Char
  | arr [] => "[]".toList
  | arr items => '[' :: prettyItems (depth + 1) items ++ indent depth ++ [']']
  | obj [] => ['{', '}']
  | obj members => '{' :: prettyMembers (depth + 1) members ++ indent depth ++ ['}']
  | null => "null".toList
  | bool true => "true".toList
  | bool false => "false".toList
  | num n => Number.render n
  | str s => quoted s
  | unreadable => "null".toList

def prettyItems (depth : Nat) : List Json → List Char
  | [] => []
  | [j] => indent depth ++ prettyChars depth j
  | j :: js => indent depth ++ prettyChars depth j ++ ',' :: prettyItems depth js

def prettyMembers (depth : Nat) : List (String × Json) → List Char
  | [] => []
  | [(k, j)] => indent depth ++ quoted k ++ ':' :: ' ' :: prettyChars depth j
  | (k, j) :: ms =>
    indent depth ++ quoted k ++ ':' :: ' ' :: prettyChars depth j ++ ',' :: prettyMembers depth ms
end

def pretty (j : Json) : String := String.ofList (prettyChars 0 j)

end Json

end TokenAudit
