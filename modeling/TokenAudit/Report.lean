import TokenAudit.Commit
import TokenAudit.Detector.Panel
import TokenAudit.Source.Decompiler

/-! Reports as JSON on what has no record form of its own: errors, masks, findings, receipts. -/

namespace TokenAudit

namespace AuditError

def kind : AuditError → String
  | input _ => "Input"
  | transport _ _ => "Transport"
  | upstream _ _ _ => "Upstream"
  | timeout _ _ => "Timeout"
  | pipeline _ => "Pipeline"
  | duplicateCommit _ => "DuplicateCommit"
  | cancelled _ => "Cancelled"

def members (e : AuditError) : List (String × Json) :=
  [("error", .str e.kind), ("message", .str e.message), ("status", .nat e.statusCode.toNat)]

def toJson (e : AuditError) : Json := .obj e.members

end AuditError

namespace CalldataError

def kind : CalldataError → String
  | length _ _ => "Length"
  | selector _ => "Selector"
  | scoreOutOfRange _ => "ScoreOutOfRange"
  | tradeIdOutOfRange _ => "TradeIdOutOfRange"
  | hex _ => "Hex"

def toJson (e : CalldataError) : Json := .obj [("error", .str e.kind), ("message", .str e.message)]

end CalldataError

def AuditError.answer {α : Type} (write : α → Json) : Except AuditError α → Json
  | .ok a => .obj [("ok", write a)]
  | .error e => e.toJson

def RiskMask.report (m : RiskMask) : Json :=
  .obj [("bits", .ofUInt8 m.bits), ("display", .str (toString m.bits.toNat)),
    ("clean", .bool m.isClean), ("triggered", .ofList RiskBit.toJson m.triggered)]

def RiskBit.report (b : RiskBit) : Json :=
  .obj [("index", .nat b.index), ("mask", .ofUInt8 b.mask), ("label", .str b.label),
    ("key", .str b.key), ("family", b.family.toJson), ("serde", b.toJson),
    ("as_mask", .ofUInt8 (RiskMask.clean.insert b).bits)]

namespace Event

def listJson (es : List Event) : Json := .ofList Event.toJson es

def detectors (es : List Event) : List String := (es.filterMap Event.detector?).eraseDups

def ofDetector (es : List Event) (d : String) : List Event :=
  es.filter fun e => e.detector? = some d

def splitJson (es : List Event) : Json :=
  .obj [("detectors", .obj ((detectors es).map fun d => (d, listJson (ofDetector es d)))),
    ("main", listJson (es.filter fun e => e.detector?.isNone))]

end Event

def Aggregation.toJson (a : Aggregation) : Json :=
  .obj [("mask", .ofUInt8 a.mask.bits), ("static_mask", .ofUInt8 a.staticMask.bits),
    ("ai_mask", .ofUInt8 a.modelMask.bits),
    ("assessments", .ofList Assessment.toJson a.assessments),
    ("failed", .ofList .str a.failed), ("ai_skipped", .bool a.modelsSkipped)]

def CommitReceipt.toJson (r : CommitReceipt) : Json :=
  .obj [("hash", .ofHash r.hash), ("block_number", .ofOption Json.ofUInt64 r.blockNumber)]

def SecurityReport.toJson (r : SecurityReport) : Json :=
  .obj [("is_open_source", .bool r.isOpenSource), ("is_honeypot", .bool r.isHoneypot),
    ("is_proxy", .bool r.isProxy), ("sell_tax", .str (Double.bitText r.sellTax)),
    ("buy_tax", .str (Double.bitText r.buyTax))]

def Decompiler.Response.toJson (r : Decompiler.Response) : Json :=
  .obj [("status", .nat r.status.toNat), ("reason", .str r.reason), ("body", r.body),
    ("success", .bool r.isSuccess)]

def Completion.report (result : Json) (fragments : List String) : Json :=
  .obj [("result", result), ("chunks", .ofList .str fragments)]

end TokenAudit
