import TokenAudit.Budget
import TokenAudit.Calldata
import TokenAudit.Json.Record
import TokenAudit.Source
import TokenAudit.Stream

/-! Audit records as JSON: their written forms and their readers. -/

namespace TokenAudit

namespace Family

def key : Family → String
  | fixed => "static"
  | model => "ai"

def ofKey? : String → Option Family
  | "static" => some fixed
  | "ai" => some model
  | _ => none

def toJson (f : Family) : Json := .str f.key

def ofJson? : Json → Option Family := Json.readName? ofKey?

end Family

namespace RiskBit

def toJson (b : RiskBit) : Json := .str b.key

def ofJson? : Json → Option RiskBit := Json.readName? ofKey?

end RiskBit

namespace RiskMask

def toJson (m : RiskMask) : Json := .ofUInt8 m.bits

def ofJson? (j : Json) : Option RiskMask := (Json.readUInt8? j).map RiskMask.mk

end RiskMask

namespace RiskCheck

def toJson (c : RiskCheck) : Json := .obj [("name", .str c.name), ("triggered", .bool c.triggered)]

def ofJson? (j : Json) : Option RiskCheck :=
  match j.fields ["name", "triggered"] false with
  | some [name, triggered] => do
    return ⟨← name.required Json.readString?, ← triggered.required Json.readBool?⟩
  | _ => none

end RiskCheck

namespace VerdictStatus

def key : VerdictStatus → String
  | approved => "APPROVED"
  | blocked => "BLOCKED"
  | error => "ERROR"

def ofKey? : String → Option VerdictStatus
  | "APPROVED" => some approved
  | "BLOCKED" => some blocked
  | "ERROR" => some error
  | _ => none

def toJson (s : VerdictStatus) : Json := .str s.key

def ofJson? : Json → Option VerdictStatus := Json.readName? ofKey?

end VerdictStatus

namespace RiskDecoding

def toJson (d : RiskDecoding) : Json :=
  .obj [("score", .int d.score), ("status", d.status.toJson),
    ("checks", .ofList RiskCheck.toJson d.checks), ("reasoning", .str d.reasoning)]

def ofJson? (j : Json) : Option RiskDecoding :=
  match j.fields ["score", "status", "checks", "reasoning"] false with
  | some [score, status, checks, reasoning] => do
    return { score := ← score.required Json.readInt64?
             status := ← status.required VerdictStatus.ofJson?
             checks := ← checks.required (Json.readList? RiskCheck.ofJson?)
             reasoning := ← reasoning.required Json.readString? }
  | _ => none

end RiskDecoding

namespace Calldata.Protocol

def toJson : Protocol → Json
  | v1 => .str "v1"

def ofKey? : String → Option Protocol
  | "v1" => some v1
  | _ => none

def ofJson? : Json → Option Protocol := Json.readName? ofKey?

end Calldata.Protocol

namespace AuditRequest

def toJson (r : AuditRequest) : Json :=
  .obj [("tradeId", .ofUint256 r.tradeId), ("targetToken", .ofAddress r.token),
    ("startBlock", .ofUInt64 r.startBlock)]

def ofJson? (j : Json) : Option AuditRequest :=
  match j.fields ["tradeId", "targetToken", "startBlock"] false with
  | some [tradeId, token, startBlock] => do
    return { tradeId := ← tradeId.required Json.readUint256?
             token := ← token.required Json.readAddress?
             startBlock := ← startBlock.defaulted 0 Json.readUInt64? }
  | _ => none

end AuditRequest

namespace Instant

def toJson (i : Instant) : Json := .text i.render

def ofJson? : Json → Option Instant
  | .str s => parse s
  | _ => none

end Instant

namespace RiskVerdict

def toJson (v : RiskVerdict) : Json :=
  .obj [("tradeId", .ofUint256 v.tradeId), ("targetToken", .ofAddress v.token),
    ("riskScore", .ofUInt8 v.score), ("status", v.status.toJson), ("reasoning", .str v.reasoning),
    ("checks", .ofList RiskCheck.toJson v.checks), ("decidedAt", v.decidedAt.toJson)]

def ofJson? (j : Json) : Option RiskVerdict :=
  match j.fields ["tradeId", "targetToken", "riskScore", "status", "reasoning", "checks",
    "decidedAt"] false with
  | some [tradeId, token, score, status, reasoning, checks, decidedAt] => do
    return { tradeId := ← tradeId.required Json.readUint256?
             token := ← token.required Json.readAddress?
             score := ← score.required Json.readUInt8?
             status := ← status.required VerdictStatus.ofJson?
             reasoning := ← reasoning.required Json.readString?
             checks := ← checks.required (Json.readList? RiskCheck.ofJson?)
             decidedAt := ← decidedAt.required Instant.ofJson? }
  | _ => none

end RiskVerdict

namespace Budget

def toJson (b : Budget) : Json :=
  .obj [("attempts", .ofUInt32 b.attempts), ("maxAttempts", .ofUInt32 b.maxAttempts),
    ("intervalMs", .ofUInt64 b.intervalMs)]

def ofJson? (j : Json) : Option Budget :=
  match j.fields ["attempts", "maxAttempts", "intervalMs"] false with
  | some [attempts, maxAttempts, intervalMs] => do
    return { attempts := ← attempts.required Json.readUInt32?
             maxAttempts := ← maxAttempts.required Json.readUInt32?
             intervalMs := ← intervalMs.required Json.readUInt64? }
  | _ => none

end Budget

namespace SourceProvider

def toJson (p : SourceProvider) : Json := .str p.name

def ofJson? : Json → Option SourceProvider := Json.readName? ofName?

end SourceProvider

namespace Provenance

def toJson (p : Provenance) : Json :=
  .obj [("provider", p.provider.toJson), ("isDecompiled", .bool p.isDecompiled)]

def ofJson? (j : Json) : Option Provenance :=
  match j.fields ["provider", "isDecompiled"] false with
  | some [provider, isDecompiled] => do
    return ⟨← provider.required SourceProvider.ofJson?, ← isDecompiled.required Json.readBool?⟩
  | _ => none

end Provenance

namespace SourceResult

def toJson (r : SourceResult) : Json :=
  .obj [("source", .str r.source), ("contractName", .str r.contractName),
    ("provider", r.provider.toJson), ("isDecompiled", .bool r.isDecompiled)]

def ofJson? (j : Json) : Option SourceResult :=
  match j.fields ["source", "contractName", "provider", "isDecompiled"] false with
  | some [source, contractName, provider, isDecompiled] => do
    return { source := ← source.required Json.readString?
             contractName := ← contractName.required Json.readString?
             provider := ← provider.required SourceProvider.ofJson?
             isDecompiled := ← isDecompiled.required Json.readBool? }
  | _ => none

end SourceResult

namespace Phase

def ofKey? (key : String) : Option Phase := all.find? fun p => p.key = key

def toJson (p : Phase) : Json := .str p.key

def ofJson? : Json → Option Phase := Json.readName? ofKey?

end Phase

namespace PhaseStatus

def key : PhaseStatus → String
  | running => "running"
  | done => "done"
  | error => "error"

def ofKey? : String → Option PhaseStatus
  | "running" => some running
  | "done" => some done
  | "error" => some error
  | _ => none

def toJson (s : PhaseStatus) : Json := .str s.key

def ofJson? : Json → Option PhaseStatus := Json.readName? ofKey?

end PhaseStatus

namespace Event

def kind : Event → String
  | phase _ _ _ => "phase"
  | detectorStarted _ _ => "detector-started"
  | reasoningStart _ => "detector-reasoning-start"
  | reasoningChunk _ _ => "detector-reasoning-chunk"
  | detectorScore _ _ => "detector-score"
  | detectorError _ _ => "detector-error"
  | transactionSubmitted _ => "transaction-submitted"
  | transactionConfirmed _ _ _ => "transaction-confirmed"
  | finalVerdict _ => "final-verdict"
  | fatalError _ => "fatal-error"

def members : Event → List (String × Json)
  | phase p label status => [("phase", p.toJson), ("label", .str label), ("status", status.toJson)]
  | detectorStarted d family => [("detector", .str d), ("family", family.toJson)]
  | reasoningStart d => [("detector", .str d)]
  | reasoningChunk d text => [("detector", .str d), ("text", .str text)]
  | detectorScore d bits => [("detector", .str d), ("bits", .ofUInt8 bits)]
  | detectorError d message => [("detector", .str d), ("message", .str message)]
  | transactionSubmitted hash => [("hash", .str hash)]
  | transactionConfirmed hash blockNumber success =>
    [("hash", .str hash), ("block_number", .ofOption Json.ofUInt64 blockNumber),
      ("success", .bool success)]
  | finalVerdict v => [("verdict", v.toJson)]
  | fatalError message => [("message", .str message)]

def toJson (e : Event) : Json := .obj (("type", .str e.kind) :: e.members)

def ofKind? (kind : String) (rest : Json) : Option Event :=
  match kind with
  | "phase" =>
    match rest.fields ["phase", "label", "status"] false with
    | some [p, label, status] => do
      return .phase (← p.required Phase.ofJson?) (← label.required Json.readString?)
        (← status.required PhaseStatus.ofJson?)
    | _ => none
  | "detector-started" =>
    match rest.fields ["detector", "family"] false with
    | some [d, family] => do
      return .detectorStarted (← d.required Json.readString?) (← family.required Family.ofJson?)
    | _ => none
  | "detector-reasoning-start" =>
    match rest.fields ["detector"] false with
    | some [d] => do return .reasoningStart (← d.required Json.readString?)
    | _ => none
  | "detector-reasoning-chunk" =>
    match rest.fields ["detector", "text"] false with
    | some [d, text] => do
      return .reasoningChunk (← d.required Json.readString?) (← text.required Json.readString?)
    | _ => none
  | "detector-score" =>
    match rest.fields ["detector", "bits"] false with
    | some [d, bits] => do
      return .detectorScore (← d.required Json.readString?) (← bits.required Json.readUInt8?)
    | _ => none
  | "detector-error" =>
    match rest.fields ["detector", "message"] false with
    | some [d, message] => do
      return .detectorError (← d.required Json.readString?) (← message.required Json.readString?)
    | _ => none
  | "transaction-submitted" =>
    match rest.fields ["hash"] false with
    | some [hash] => do return .transactionSubmitted (← hash.required Json.readString?)
    | _ => none
  | "transaction-confirmed" =>
    match rest.fields ["hash", "block_number", "success"] false with
    | some [hash, blockNumber, success] => do
      return .transactionConfirmed (← hash.required Json.readString?)
        (← blockNumber.optional Json.readUInt64?) (← success.required Json.readBool?)
    | _ => none
  | "final-verdict" =>
    match rest.fields ["verdict"] false with
    | some [v] => do return .finalVerdict (← v.required RiskVerdict.ofJson?)
    | _ => none
  | "fatal-error" =>
    match rest.fields ["message"] false with
    | some [message] => do return .fatalError (← message.required Json.readString?)
    | _ => none
  | _ => none

/-- The kind stands under one member `type`, or first in a list. -/
def ofJson? (j : Json) : Option Event :=
  if ¬ j.readable then none
  else
    match j with
    | .obj ms =>
      match ms.filter fun m => m.1 = "type" with
      | [(_, .str kind)] => ofKind? kind (.obj (ms.filter fun m => m.1 ≠ "type"))
      | _ => none
    | .arr (.str kind :: rest) => ofKind? kind (.arr rest)
    | _ => none

def line (e : Event) : String := e.toJson.render

end Event

end TokenAudit
