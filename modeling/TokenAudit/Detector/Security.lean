import TokenAudit.Detector.Outcome
import TokenAudit.Detector.Rules
import TokenAudit.Web.Exchange

/-! Security reports on tokens from a web service, which writes flags and rates as text. -/

namespace TokenAudit

structure SecurityEntry where
  isOpenSource : Option String
  isHoneypot : Option String
  isProxy : Option String
  sellTax : Option String
  buyTax : Option String
  deriving DecidableEq

namespace SecurityEntry

def ofJson? (j : Json) : Option SecurityEntry :=
  match j.fields ["is_open_source", "is_honeypot", "is_proxy", "sell_tax", "buy_tax"] false with
  | some [isOpenSource, isHoneypot, isProxy, sellTax, buyTax] => do
    return { isOpenSource := ← isOpenSource.optionalTail Json.readString?
             isHoneypot := ← isHoneypot.optionalTail Json.readString?
             isProxy := ← isProxy.optionalTail Json.readString?
             sellTax := ← sellTax.optionalTail Json.readString?
             buyTax := ← buyTax.optionalTail Json.readString? }
  | _ => none

def flag (text : Option String) : Bool := text = some "1"

/-- What is no number counts as no tax. -/
def rate (text : Option String) : Float :=
  (text.bind fun t => Double.read? (Text.trim t.toList)).getD 0

def report (e : SecurityEntry) : SecurityReport where
  isOpenSource := flag e.isOpenSource
  isHoneypot := flag e.isHoneypot
  isProxy := flag e.isProxy
  sellTax := rate e.sellTax
  buyTax := rate e.buyTax

end SecurityEntry

structure SecurityAnswer where
  code : Int
  message : String
  result : List (String × SecurityEntry)

namespace SecurityAnswer

def insert (key : String) (e : SecurityEntry) :
    List (String × SecurityEntry) → List (String × SecurityEntry)
  | [] => [(key, e)]
  | (k, d) :: es => if k = key then (k, e) :: es else (k, d) :: insert key e es

def readEntries? : List (String × Json) → List (String × SecurityEntry) →
    Option (List (String × SecurityEntry))
  | [], done => some done
  | (k, j) :: ms, done =>
    match SecurityEntry.ofJson? j with
    | some e => readEntries? ms (insert k e done)
    | none => none

def readResult? : Json → Option (List (String × SecurityEntry))
  | .obj members => readEntries? members []
  | _ => none

def ofJson? (j : Json) : Option SecurityAnswer :=
  match j.fields ["code", "message", "result"] false with
  | some [code, message, result] => do
    return { code := ← code.required Json.readInt64?
             message := ← message.defaulted "" Json.readString?
             result := ← result.defaulted [] readResult? }
  | _ => none

def refusal (reason : String) : AuditError := .upstream "goplus" 200 reason

/-- The entry whose key is the address in some letter case. -/
def entry? (token : Address) (result : List (String × SecurityEntry)) : Option SecurityEntry :=
  (result.find? fun e => Text.lowerAscii e.1.toList = token.hex.toList).map Prod.snd

def report (token : Address) (a : SecurityAnswer) : Except AuditError SecurityReport :=
  if a.code ≠ 1 then .error (refusal s!"code {a.code}: {a.message}")
  else
    match entry? token a.result with
    | none => .error (refusal s!"{token.checksummed} not indexed")
    | some e => .ok e.report

def read (token : Address) (a : Web.Answer) : Except AuditError SecurityReport :=
  if ¬Web.isSuccess a.status then .error (.upstream "goplus" a.status (Web.phrase a.status))
  else
    match a.json?.bind ofJson? with
    | none => .error (.upstream "goplus" a.status s!"invalid body: {Web.undecodable}")
    | some s => s.report token

end SecurityAnswer

structure SecurityService (σ : Type) where
  baseUrl : String
  chainId : UInt64
  network : Web.Network σ

namespace SecurityService

variable {σ : Type}

def address (s : SecurityService σ) : String :=
  s!"{Web.base s.baseUrl}/api/v1/token_security/{s.chainId.toNat}"

def report (s : SecurityService σ) (token : Address) : Ask σ (Except AuditError SecurityReport) :=
  (Web.send s.network (Web.request? .get s.address
    [("contract_addresses", token.checksummed)] none none)).map fun r =>
    match r with
    | .error fault => .error (.transport s.address fault.message)
    | .ok answer => SecurityAnswer.read token answer

def lookup (s : SecurityService σ) (token : Address) : Ask σ (Outcome SecurityReport) :=
  (s.report token).map fun r =>
    match r with
    | .ok report => .answered report
    | .error e => .failed e

end SecurityService

end TokenAudit
