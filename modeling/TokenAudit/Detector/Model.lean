import TokenAudit.Detector.Outcome
import TokenAudit.Json.Record
import TokenAudit.Risk
import TokenAudit.Source

/-! What models are asked, how their answers are read, and how completions become answers. -/

namespace TokenAudit

def systemPrompt : String :=
  "You are a smart contract security auditor reviewing an ERC-20 token " ++
  "before an automated agent trades it. Look for: hidden or dynamic transfer taxes " ++
  "(obfuscated_tax), owner-only functions that mint, blacklist, pause or seize balances " ++
  "(privilege_escalation), delegatecall or calls to unverified external addresses that can " ++
  "change token behaviour (external_call_risk), and time, block or counter triggered " ++
  "behaviour changes (logic_bomb). Answer with a single JSON object: " ++
  "\x7b\"obfuscated_tax\": bool, \"privilege_escalation\": bool, " ++
  "\"external_call_risk\": bool, \"logic_bomb\": bool, \"reasoning\": string\x7d."

structure DetectorInput where
  token : Address
  source : String
  contractName : String
  provenance : Provenance
  deriving DecidableEq

namespace DetectorInput

def ofSource (token : Address) (r : SourceResult) : DetectorInput :=
  ⟨token, r.source, r.contractName, r.provenance⟩

def decompiledNote : String :=
  "Note: no verified source exists. The code below is decompiled pseudocode " ++
  "reconstructed from bytecode; names are synthetic and control flow may be lossy.\n"

def prompt (i : DetectorInput) : String :=
  let note := if i.provenance.isDecompiled then decompiledNote else ""
  s!"Token: {i.token.checksummed}\nContract: {i.contractName}\n{note}\n```\n{i.source}\n```\n"

end DetectorInput

structure Assessment where
  model : String
  mask : RiskMask
  reasoning : String
  deriving DecidableEq, Repr

namespace Assessment

def toJson (a : Assessment) : Json :=
  .obj [("model", .str a.model), ("mask", .ofUInt8 a.mask.bits), ("reasoning", .str a.reasoning)]

def ofJson? (j : Json) : Option Assessment :=
  match j.fields ["model", "mask", "reasoning"] false with
  | some [model, mask, reasoning] => do
    return { model := ← model.required Json.readString?
             mask := ⟨← mask.required Json.readUInt8?⟩
             reasoning := ← reasoning.required Json.readString? }
  | _ => none

def objectSpan? (answer : List Char) : Option (List Char) :=
  match Text.fromFirst? (· == '{') answer with
  | some s => Text.throughLast? (· == '}') s
  | none => none

/-- A flag counts only as the literal true. -/
def flag (value : Json) (b : RiskBit) : Bool :=
  ((value.get? b.key).bind Json.asBool?).getD false

def flags (value : Json) : RiskMask :=
  RiskBit.modelBits.foldl (fun m b => m.set b (flag value b)) RiskMask.clean

def ofValue (model : String) (value : Json) : Assessment where
  model := model
  mask := (flags value).only .model
  reasoning := ((value.get? "reasoning").bind Json.asString?).getD ""

def parse (model answer : String) : Except AuditError Assessment :=
  match objectSpan? answer.toList with
  | none => .error (.pipeline s!"{model}: answer has no JSON object")
  | some span =>
    match Json.parseFree (String.ofList span) with
    | none => .error (.pipeline s!"{model}: invalid JSON answer: {Json.fault}")
    | some value => .ok (ofValue model value)

def flaggingAnswer (bits : List RiskBit) (reasoning : String) : String :=
  (Json.obj (RiskBit.modelBits.map (fun b => (b.key, .bool (decide (b ∈ bits))))
    ++ [("reasoning", .str reasoning)])).sorted.render

end Assessment

structure Completion where
  fragments : List String
  answer : Except AuditError String

namespace Completion

def whole : Except AuditError String → Completion
  | .ok answer => ⟨[answer], .ok answer⟩
  | .error e => ⟨[], .error e⟩

/-- The items of a completion: text, what carries no text, and a fault that ends it. -/
inductive Item where
  | text (s : String)
  | silent
  | fault (message : String)

def joined (provider : String) (texts : List String) : Except AuditError String :=
  let text := String.join texts
  if isBlankText text then .error (.upstream provider 200 "completion carried no text") else .ok text

def Item.text? : Item → Option String
  | text s => some s
  | _ => none

def ofItems (provider : String) (items : List Item) : Except AuditError String :=
  joined provider (items.filterMap Item.text?)

def streamFrom (provider : String) (before : List String) : List Item → Completion
  | [] => ⟨before, joined provider before⟩
  | .text s :: items => streamFrom provider (before ++ [s]) items
  | .silent :: items => streamFrom provider before items
  | .fault message :: _ => ⟨before, .error (.upstream provider 0 message)⟩

def stream (provider : String) (items : List Item) : Completion := streamFrom provider [] items

def refused (provider message : String) : Except AuditError String :=
  .error (.upstream provider 0 message)

abbrev Reply : Type := Except String (List Item)

def complete (provider : String) : Reply → Except AuditError String
  | .ok items => ofItems provider items
  | .error message => refused provider message

/-- Of a request that is refused nothing is handed on. -/
def completeStreaming (provider : String) : Reply → Completion
  | .ok items => stream provider items
  | .error message => ⟨[], refused provider message⟩

def assess (name : String) (c : Completion) : Except AuditError Assessment :=
  match c.answer with
  | .ok answer => Assessment.parse name answer
  | .error e => .error e

end Completion

structure ModelDetector where
  name : String
  provider : String
  reply : String → String → Completion.Reply

namespace ModelDetector

def assessStreaming (d : ModelDetector) (input : DetectorInput) :
    List String × Except AuditError Assessment :=
  let c := Completion.completeStreaming d.provider (d.reply systemPrompt input.prompt)
  (c.fragments, c.assess d.name)

def assess (d : ModelDetector) (input : DetectorInput) : Except AuditError Assessment :=
  (d.assessStreaming input).2

end ModelDetector

end TokenAudit
