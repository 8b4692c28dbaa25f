import TokenAudit.Report
import TokenAudit.Service.Params
import TokenAudit.Service.Session
import TokenAudit.Web.MediaType

/-! The web interface of the audit service: its routes, and what each of them answers. -/

namespace TokenAudit.Api

structure Request where
  method : String
  uri : String
  contentType : Option String
  body : String
  deriving DecidableEq

/-- What an answer carries. Of plain texts, which explain refusals, only the kind is told. -/
inductive Content where
  | nothing
  | plain
  | json (j : Option Json)
  | events (es : List Event)

structure Answer where
  status : UInt16
  content : Content

namespace Content

def mediaType : Content → String
  | nothing => ""
  | plain => "text/plain; charset=utf-8"
  | json _ => "application/json"
  | events _ => "text/event-stream"

def withoutBody : Content → Content
  | json _ => json none
  | events _ => events []
  | c => c

end Content

def version : String := "0.1.0"

def health (uptimeSeconds : Nat) : Json :=
  .obj [("status", .str "ok"), ("version", .str version),
    ("stream_protocol", .nat streamProtocolVersion), ("uptime_secs", .nat uptimeSeconds)]

def success (j : Json) : Answer := ⟨200, .json (some j)⟩

def failure (e : AuditError) : Answer :=
  ⟨e.httpStatus, .json (some (.obj [("error", .str e.message), ("status", .nat e.statusCode.toNat)]))⟩

def refusal (status : UInt16) : Answer := ⟨status, .plain⟩

def notFound : Answer := ⟨404, .nothing⟩

def notAllowed : Answer := ⟨405, .nothing⟩

inductive Route where
  | health
  | audit
  | risk (score : List Char)

def route? (path : List Char) : Option Route :=
  if path = "/health".toList then some .health
  else if path = "/api/audit".toList then some .audit
  else
    match Text.after? "/api/risk/".toList path with
    | some score => if score = [] ∨ score.contains '/' then none else some (.risk score)
    | none => none

def riskAnswer (score : List Char) : Answer :=
  match (Utf8.strict? (Percent.decode score)).bind Numeral.readInt64 with
  | some n => success (RiskDecoding.ofScore n).toJson
  | none => refusal 400

variable {σ : Type}

/-- An answer with the session it leaves; none while a collaborator never answers. -/
abbrev Served (σ : Type) : Type := Option Answer × Session σ

def runAudit (p : Pipeline σ) (t : RunTerms) (params : AuditParams) (s : Session σ) :
    Option (Except AuditError RiskVerdict) × Session σ :=
  match params.request with
  | .error e => (some (.error e), s)
  | .ok request =>
    let (result, _, s) := s.audit p t request
    (result, s)

def streamAudit (p : Pipeline σ) (t : RunTerms) (params : AuditParams) (s : Session σ) :
    Except AuditError (List Event) × Session σ :=
  match params.request with
  | .error e => (.error e, s)
  | .ok request =>
    let (_, stream, s) := s.audit p t request
    (.ok stream.events, s)

def verdictAnswer : Except AuditError RiskVerdict → Answer
  | .ok v => success v.toJson
  | .error e => failure e

def streamAnswer : Except AuditError (List Event) → Answer
  | .ok events => ⟨200, .events events⟩
  | .error e => failure e

def postAudit (p : Pipeline σ) (t : RunTerms) (r : Request) (s : Session σ) : Served σ :=
  if ¬(r.contentType.any MediaType.isJson) then (some (refusal 415), s)
  else
    match AuditParams.ofBody r.body with
    | .error .malformed => (some (refusal 400), s)
    | .error .mismatched => (some (refusal 422), s)
    | .ok params =>
      let (result, s) := runAudit p t params s
      (result.map verdictAnswer, s)

def getAudit (p : Pipeline σ) (t : RunTerms) (query : List Char) (s : Session σ) : Served σ :=
  match AuditParams.ofQuery? query with
  | none => (some (refusal 400), s)
  | some params =>
    let (result, s) := streamAudit p t params s
    (some (streamAnswer result), s)

def get (p : Pipeline σ) (t : RunTerms) (uptimeSeconds : Nat) (route : Route)
    (query : List Char) (s : Session σ) : Served σ :=
  match route with
  | .health => (some (success (health uptimeSeconds)), s)
  | .audit => getAudit p t query s
  | .risk score => (some (riskAnswer score), s)

/-- A request for the head alone is served like the request for the whole. The uptime is the
host's, independent of the clock that audits wait on. -/
def serve (p : Pipeline σ) (t : RunTerms) (uptimeSeconds : Nat) (r : Request) (s : Session σ) :
    Served σ :=
  let (place, _) := Percent.cut '#' r.uri.toList
  let (path, query) := Percent.cut '?' place
  match route? path with
  | none => (some notFound, s)
  | some route =>
    match r.method, route with
    | "GET", _ => get p t uptimeSeconds route query s
    | "HEAD", _ =>
      let (answer, s) := get p t uptimeSeconds route query s
      (answer.map fun a => { a with content := a.content.withoutBody }, s)
    | "POST", .audit => postAudit p t r s
    | _, _ => (some notAllowed, s)

end TokenAudit.Api
