import TokenAudit.Json.Lookup
import TokenAudit.Rehearsal

/-! Scripts of rehearsals, written as loose JSON records: values, answers, and whole casts. -/

namespace TokenAudit.Rehearsal.Script

open Json

/-! ### Values -/

def uintOf (s : String) : Uint256 := (Uint256.read? s.toList).getD 0

def uintAt (j : Json) (key : String) : Uint256 := uintOf (j.textAt key)

def addressAt (j : Json) (key : String) : Address :=
  (Address.parse (j.textAt key)).toOption.getD Address.zero

def hashOf (j : Json) : Hash := (Hash.parse j.textOf).toOption.getD ⟨0⟩

def floatOr (j : Json) (key default_ : String) : Float :=
  (Double.read? (j.textOr key default_).toList).getD 0

def noon : Instant := ⟨1970, 1, 1, 0, 0⟩

def error (j : Json) : AuditError :=
  match j.textAt "kind" with
  | "input" => .input (j.textAt "reason")
  | "transport" => .transport (j.textAt "endpoint") (j.textAt "reason")
  | "upstream" =>
    .upstream (j.textAt "provider") (UInt16.ofNat (j.natAt "status")) (j.textAt "reason")
  | "timeout" => .timeout (j.textAt "operation") (UInt32.ofNat (j.natAt "attempts"))
  | "duplicate_commit" => .duplicateCommit (uintAt j "trade_id")
  | "cancelled" => .cancelled (j.textAt "operation")
  | _ => .pipeline (j.textAt "reason")

def answer {α : Type} (read : Json → α) (j : Json) : Except AuditError α :=
  match j.get? "err" with
  | some e => .error (error e)
  | none => .ok (read ((j.get? "ok").getD j))

def request (j : Json) : AuditRequest :=
  ⟨uintAt j "trade_id", addressAt j "token", UInt64.ofNat (j.natAt "start_block")⟩

def verdict (j : Json) : RiskVerdict :=
  match j.get? "error" with
  | some e => .error (request j) noon e.textOf
  | none =>
    if j.has "mask" then .ofMask (request j) noon ⟨j.byteAt "mask"⟩
    else .ofScore (request j) noon (j.intAt "score")

def source (j : Json) : SourceResult :=
  match j.textAt "kind" with
  | "verified" => .verified (j.textAt "source") (j.textAt "contract_name")
  | "decompiled" => .decompiled (addressAt j "address") (j.textAt "source")
  | _ => .absent

def report (j : Json) : SecurityReport where
  isOpenSource := j.boolAt "is_open_source"
  isHoneypot := j.boolAt "is_honeypot"
  isProxy := j.boolAt "is_proxy"
  sellTax := floatOr j "sell_tax" "0"
  buyTax := floatOr j "buy_tax" "0"

def object? : Json → Option Json
  | .obj ms => some (.obj ms)
  | _ => none

/-! ### Calls on a feed -/

def phaseAt (j : Json) : Phase := (Phase.ofKey? (j.textAt "phase")).getD .resolveSource

def call? (j : Json) : Option Call :=
  let detector := j.textAt "detector"
  match j.textAt "do" with
  | "running" => some (.phase (phaseAt j) .running)
  | "done" => some (.phase (phaseAt j) .done)
  | "error" => some (.phase (phaseAt j) .error)
  | "started" =>
    some (.detectorStarted detector ((Family.ofKey? (j.textAt "family")).getD .fixed))
  | "reasoning" => some (.reasoningStarted detector)
  | "chunk" => some (.reasoningChunk detector (j.textAt "text"))
  | "score" => some (.detectorScore detector (j.byteAt "bits"))
  | "detector_error" => some (.detectorError detector (j.textAt "message"))
  | "submitted" => some (.transactionSubmitted (j.textAt "hash"))
  | "confirmed" =>
    some (.transactionConfirmed (j.textAt "hash") ((j.natAt? "block").map UInt64.ofNat)
      (j.boolAt "success"))
  | "final" => some (.finalVerdict (verdict j))
  | "fatal" => some (.fatal (j.textAt "message"))
  | _ => none

/-! ### Models -/

def model (j : Json) : Model :=
  let m : Model := match j.textAt "kind" with
    | "flagging" =>
      .flagging ((j.listAt "bits").filterMap fun b => RiskBit.ofKey? b.textOf) (j.textAt "reasoning")
    | "streaming" => .streaming ((j.listAt "chunks").map textOf)
    | _ => .answering ((j.listAt "answers").map (answer textOf))
  { m with delay := j.natAt "delay_ms" }

def item (j : Json) : Completion.Item :=
  match j.get? "text" with
  | some t => .text t.textOf
  | none =>
    match j.get? "error" with
    | some t => .fault s!"ResponseError: {t.textOf}"
    | none => .silent

/-! ### The source path -/

def response (j : Json) : Decompiler.Response :=
  ⟨UInt16.ofNat (j.natOr "status" 200), j.textAt "reason", (j.member "body").sorted⟩

def responses (j : Json) (key : String) : List (Except AuditError Decompiler.Response) :=
  (j.listAt key).map (answer response)

def limits (j : Json) : Decompiler.Limits :=
  ⟨UInt64.ofNat (j.natOr "poll_interval_ms" 3000), UInt32.ofNat (j.natOr "max_poll_attempts" 10),
    j.natOr "max_output_chars" 15000⟩

def verified (j : Json) : Option VerifiedSource :=
  (object? j).map fun j => ⟨j.textAt "source", j.textAt "contract_name"⟩

def decompiler (j : Json) : Decompiler Cast :=
  match j.textAt "kind" with
  | "fixed" => Cast.fixed (answer textOf (j.member "answer"))
  | "client" => .service Cast.transport (limits j)
  | _ => Cast.stuck

def resolver (j : Json) : Resolver Cast where
  explorer _ := Ask.pure (answer verified (j.member "verified"))
  bytecode _ := Ask.pure (answer textOf (j.member "bytecode"))
  decompiler := decompiler (j.member "decompiler")

def withService (j : Json) (c : Cast) : Cast :=
  { c with submits := responses j "submits", statuses := responses j "statuses" }

/-! ### The detectors -/

def panicReport : String := "task <id> panicked with message \"scripted panic\""

def securityOutcome (j : Json) : Outcome SecurityReport :=
  if j.boolAt "panics" then .panicked panicReport
  else
    match answer report j with
    | .ok r => .answered r
    | .error e => .failed e

def panel (j : Json) : Panel Cast where
  security := Cast.security ((j.member "security").natAt "delay_ms")
    (securityOutcome (j.member "security"))
  slots := Cast.slots ((j.listAt "models").map fun m => m.textAt "name")
  sellTaxThreshold := floatOr j "sell_tax_threshold" "0.1"
  strictConsensus := j.boolAt "strict"
  timeoutMs := j.natOr "detector_timeout_ms" 60000

def withModels (j : Json) (c : Cast) : Cast := { c with models := (j.listAt "models").map model }

/-! ### The chain -/

def writer (j : Json) : Writer :=
  match j.textOr "kind" "recording" with
  | "scripted" =>
    .scripted ((j.listAt "submits").map (answer hashOf))
      ((j.listAt "receipts").map (answer Rpc.Receipt.ofJson?)) []
  | _ => .recording (j.natAt "pending_polls") 0 (j.natAt "reverts") []

def withWriter (j : Json) (c : Cast) : Cast := { c with writer := writer (j.member "writer") }

def committer (j : Json) : Committer Cast :=
  ⟨Cast.chain, .v1, UInt32.ofNat (j.natOr "confirm_attempts" 30),
    UInt64.ofNat (j.natOr "confirm_interval_ms" 1000)⟩

def clearance (j : Json) : Except AuditError Bool × Except AuditError (Option Uint256) :=
  (answer (fun v => v.asBool?.getD false) (j.member "approved"),
    answer (fun v => v.asString?.map uintOf) (j.member "denied"))

/-! ### Whole audits -/

def pipeline (j : Json) : Pipeline Cast where
  resolver := resolver (j.member "resolver")
  panel := panel j
  committer := (object? (j.member "committer")).map committer
  sourceTimeoutMs := j.natOr "source_timeout_ms" 45000

def cast (j : Json) : Cast :=
  withService ((j.member "resolver").member "decompiler")
    (withModels j (withWriter (j.member "committer") Cast.empty))

end TokenAudit.Rehearsal.Script
