import TokenAudit.Source.Resolver
import TokenAudit.Web.Exchange

/-! Verified source from a block explorer. -/

namespace TokenAudit

structure ExplorerAnswer where
  status : String
  message : String
  result : Json

namespace ExplorerAnswer

def ofJson? (j : Json) : Option ExplorerAnswer :=
  match j.fields ["status", "message", "result"] false with
  | some [status, message, result] => do
    return { status := ← status.defaulted "" Json.readString?
             message := ← message.defaulted "" Json.readString?
             result := ← result.defaulted .null Json.readFree? }
  | _ => none

def entry? (j : Json) : Option VerifiedSource :=
  match j.fields ["SourceCode", "ContractName"] false with
  | some [source, contractName] => do
    return ⟨← source.defaulted "" Json.readString?, ← contractName.defaulted "" Json.readString?⟩
  | _ => none

def refusal (reason : String) : AuditError := .upstream "basescan" 200 reason

/-- Blank source means that none was verified; so does a list where the status is not one. -/
def verified (a : ExplorerAnswer) : Except AuditError (Option VerifiedSource) :=
  if a.status ≠ "1" then
    match a.result with
    | .arr _ => .ok none
    | result => .error (refusal s!"{a.message}: {result.render}")
  else
    match Json.readList? entry? a.result with
    | none => .error (refusal s!"invalid result: {Json.fault}")
    | some entries => .ok (entries.head?.filter fun v => !isBlankText v.source)

def read (a : Web.Answer) : Except AuditError (Option VerifiedSource) :=
  if ¬Web.isSuccess a.status then .error (.upstream "basescan" a.status (Web.phrase a.status))
  else
    match a.json?.bind ofJson? with
    | none => .error (.upstream "basescan" a.status s!"invalid body: {Web.undecodable}")
    | some e => e.verified

end ExplorerAnswer

structure Explorer (σ : Type) where
  baseUrl : String
  apiKey : String
  network : Web.Network σ

namespace Explorer

variable {σ : Type}

def address (e : Explorer σ) : String := s!"{Web.base e.baseUrl}/api"

def pairs (e : Explorer σ) (a : Address) : List (String × String) :=
  [("module", "contract"), ("action", "getsourcecode"), ("address", a.checksummed),
    ("apikey", e.apiKey)]

def source (e : Explorer σ) (a : Address) : Ask σ (Except AuditError (Option VerifiedSource)) :=
  (Web.send e.network (Web.request? .get e.address (e.pairs a) none none)).map fun r =>
    match r with
    | .error fault => .error (.transport e.address fault.message)
    | .ok answer => ExplorerAnswer.read answer

end Explorer

end TokenAudit
