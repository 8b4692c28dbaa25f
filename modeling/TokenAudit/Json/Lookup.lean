import TokenAudit.Json

/-! Looking values up where a record may be loose: what is missing reads as a default. -/

namespace TokenAudit.Json

def member (j : Json) (key : String) : Json := (j.get? key).getD .null

def has (j : Json) (key : String) : Bool := (j.get? key).isSome

def textOf (j : Json) : String := j.asString?.getD ""

def textAt (j : Json) (key : String) : String := (j.member key).textOf

def textOr (j : Json) (key default_ : String) : String := (j.member key).asString?.getD default_

def boolAt (j : Json) (key : String) : Bool := (j.member key).asBool?.getD false

def intOf : Json → Int
  | .num (.int n) => n
  | _ => 0

def intAt (j : Json) (key : String) : Int := (j.member key).intOf

def natAt? (j : Json) (key : String) : Option Nat :=
  match j.member key with
  | .num (.int n) => some n.toNat
  | _ => none

def natOr (j : Json) (key : String) (default_ : Nat) : Nat := (j.natAt? key).getD default_

def natAt (j : Json) (key : String) : Nat := j.natOr key 0

def byteAt (j : Json) (key : String) : UInt8 := UInt8.ofNat (j.natAt key)

def listAt (j : Json) (key : String) : List Json := (j.member key).asArray?.getD []

end TokenAudit.Json
