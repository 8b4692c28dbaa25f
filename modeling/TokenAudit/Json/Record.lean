import TokenAudit.Json.Reader
import TokenAudit.Address

/-! Reading records, words and numbers out of JSON values. -/

namespace TokenAudit.Json

/-- What a record says of one of its fields: its value, nothing, or the record ended before. -/
inductive Slot where
  | given (j : Json)
  | absent
  | ended

namespace Slot

def required {α : Type} (read : Json → Option α) : Slot → Option α
  | given j => read j
  | _ => none

def defaulted {α : Type} (default_ : α) (read : Json → Option α) : Slot → Option α
  | given j => read j
  | _ => some default_

end Slot

def nullable {α : Type} (read : Json → Option α) : Json → Option (Option α)
  | null => some none
  | j => (read j).map some

def Slot.optional {α : Type} (read : Json → Option α) : Slot → Option (Option α)
  | given j => nullable read j
  | absent => some none
  | ended => none

def Slot.optionalTail {α : Type} (read : Json → Option α) : Slot → Option (Option α)
  | given j => nullable read j
  | _ => some none

def fill (name : String) (j : Json) : List (String × Slot) → Option (List (String × Slot))
  | [] => none
  | (n, slot) :: slots =>
    if n = name then
      match slot with
      | .absent => some ((n, .given j) :: slots)
      | _ => none
    else (fill name j slots).map ((n, slot) :: ·)

/-- A field twice is a fault; a foreign one only in a closed record. -/
def fillAll (closed : Bool) : List (String × Json) → List (String × Slot) →
    Option (List (String × Slot))
  | [], slots => some slots
  | (name, j) :: members, slots =>
    if slots.any fun s => s.1 = name then
      match fill name j slots with
      | some slots => fillAll closed members slots
      | none => none
    else if closed then none
    else fillAll closed members slots

def inOrder : List String → List Json → Option (List Slot)
  | [], [] => some []
  | [], _ :: _ => none
  | _ :: names, [] => (inOrder names []).map (.ended :: ·)
  | _ :: names, j :: js => (inOrder names js).map (.given j :: ·)

def fields (names : List String) (closed : Bool) : Json → Option (List Slot)
  | obj members =>
    (fillAll closed members (names.map fun n => (n, .absent))).map (List.map Prod.snd)
  | arr items => inOrder names items
  | _ => none

def readString? : Json → Option String := asString?

def readBool? : Json → Option Bool := asBool?

def readFree? (j : Json) : Option Json := if j.readable then some j.sorted else none

def readInt64? : Json → Option Int
  | num (.int n) => if Numeral.isInt64 n then some n else none
  | _ => none

def readNat? (bound : Nat) : Json → Option Nat
  | num (.int (.ofNat n)) => if n < bound then some n else none
  | _ => none

def readUInt64? (j : Json) : Option UInt64 := (readNat? UInt64.size j).map UInt64.ofNat

def readUInt32? (j : Json) : Option UInt32 := (readNat? UInt32.size j).map UInt32.ofNat

def readUInt8? (j : Json) : Option UInt8 := (readNat? 256 j).map UInt8.ofNat

def readFloat? : Json → Option Float
  | num (.float x) => some x
  | num (.int (.ofNat n)) => some n.toUInt64.toFloat
  | num (.int (.negSucc n)) => some (-(n + 1).toUInt64.toFloat)
  | _ => none

def readUnsigned? (bound : Nat) : Json → Option Nat
  | str s => Numeral.readUnsigned bound s.toList
  | num (.int (.ofNat n)) => if n < bound then some n else none
  | _ => none

def readUint256? (j : Json) : Option Uint256 :=
  (readUnsigned? Uint256.size j).map (BitVec.ofNat 256)

def readQuantity64? (j : Json) : Option UInt64 := (readUnsigned? UInt64.size j).map UInt64.ofNat

def readItems? {α : Type} (read : Json → Option α) : List Json → Option (List α)
  | [] => some []
  | j :: js =>
    match read j, readItems? read js with
    | some a, some as => some (a :: as)
    | _, _ => none

def readList? {α : Type} (read : Json → Option α) : Json → Option (List α)
  | arr items => readItems? read items
  | _ => none

def readBytes? : Json → Option Bytes
  | str s => (Hex.decode s).toOption
  | arr items => readItems? readUInt8? items
  | _ => none

def readSized? (size : Nat) : Json → Option Bytes
  | str s => (Hex.decodeSized size s).toOption
  | arr items => (readItems? readUInt8? items).filter fun bs => bs.length = size
  | _ => none

def readAddress? (j : Json) : Option Address := (readSized? 20 j).map Address.ofBytes

def readHash? (j : Json) : Option Hash := (readSized? 32 j).map Hash.ofBytes

def readName? {α : Type} (ofName : String → Option α) : Json → Option α
  | str s => ofName s
  | obj [(s, null)] => ofName s
  | _ => none

def ofBytes (bs : Bytes) : Json := text (Hex.encodePrefixed bs)

def ofAddress (a : Address) : Json := str a.hex

def ofHash (h : Hash) : Json := str h.hex

def ofUint256 (x : Uint256) : Json := str x.hex

def ofQuantity (n : UInt64) : Json := text (Numeral.quantity n.toNat)

def ofUInt64 (n : UInt64) : Json := nat n.toNat

def ofUInt32 (n : UInt32) : Json := nat n.toNat

def ofUInt8 (n : UInt8) : Json := nat n.toNat

def ofList {α : Type} (write : α → Json) (as : List α) : Json := arr (as.map write)

end TokenAudit.Json
