import TokenAudit.Json.Record
import TokenAudit.Web.Status
import TokenAudit.Web.Url
import TokenAudit.World

/-! One exchange with a web service: the request, what comes back, and the ways to fail. -/

namespace TokenAudit.Web

inductive Method where
  | get
  | post
  deriving DecidableEq, Repr

structure Request where
  method : Method
  url : Url
  apiKey : Option String
  body : Option Json

structure Answer where
  status : UInt16
  body : Bytes
  deriving DecidableEq

/-- How a request goes without an answer. Only `unreachable` says that it was not sent. -/
inductive Loss where
  | unreachable
  | timedOut
  | broken
  deriving DecidableEq, Repr

abbrev Network (σ : Type) : Type := Request → Ask σ (Except Loss Answer)

def Network.silent {σ : Type} : Network σ := fun _ => Ask.pure (.error .unreachable)

/-- Why there is no answer. Of an address that is none nothing is told. -/
inductive Fault where
  | malformed
  | unusable (url : Url)
  | lost (url : Url) (loss : Loss)
  deriving DecidableEq

def Fault.message : Fault → String
  | malformed => "builder error"
  | unusable url => s!"builder error for url ({url.render})"
  | lost url _ => s!"error sending request for url ({url.render})"

def isKeyChar (c : Char) : Bool := c = '\t' || (0x20 ≤ c.toNat && c.toNat ≠ 0x7f)

/-- Address, key and scheme are judged in this order. -/
def request? (method : Method) (address : String) (pairs : List (String × String))
    (apiKey : Option String) (body : Option Json) : Except Fault Request :=
  match Url.parse? address with
  | none => .error .malformed
  | some url =>
    if ¬url.hasHost then .error (.unusable url)
    else if ¬(apiKey.all fun k => k.toList.all isKeyChar) then .error .malformed
    else
      let url := if pairs = [] then url else url.withPairs pairs
      if url.isHttp then .ok ⟨method, url, apiKey, body⟩ else .error (.unusable url)

variable {σ : Type}

def send (net : Network σ) : Except Fault Request → Ask σ (Except Fault Answer)
  | .error fault => Ask.pure (.error fault)
  | .ok r => (net r).map fun answer => answer.mapError (.lost r.url)

/-- Stands for a broken piece: within a string it denotes no text, elsewhere it is not well formed. -/
def brokenPiece : List Char := ['?', '\\', 'u', 'd', 'c', '0', '0']

/-- Only the strings that are kept must be whole characters. -/
def Answer.json? (a : Answer) : Option Json :=
  Json.parseChars ((Utf8.decode a.body).flatMap fun c => (c.map fun c => [c]).getD brokenPiece)

def undecodable : String := "error decoding response body"

def base (address : String) : String := String.ofList (Text.dropEnd '/' address.toList)

end TokenAudit.Web
