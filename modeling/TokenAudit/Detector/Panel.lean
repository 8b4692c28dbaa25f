import TokenAudit.Detector.Schedule
import TokenAudit.World

/-! The detectors at work side by side: each under its own time limit, all folded into one code. -/

namespace TokenAudit

/-- A request to a model under way. `cut` are the fragments that it hands over before a time
limit drops it. -/
structure ModelReply (σ : Type) where
  delay : Option Nat
  cut : List String
  draw : σ → (List String × Outcome String) × σ

structure Slot (σ : Type) where
  name : String
  ask : String → String → σ → ModelReply σ × σ

structure Panel (σ : Type) where
  security : Address → Ask σ (Outcome SecurityReport)
  slots : List (Slot σ)
  sellTaxThreshold : Float
  strictConsensus : Bool
  timeoutMs : Nat
  order : Panel.Order := .byTime

structure Aggregation where
  mask : RiskMask
  staticMask : RiskMask
  modelMask : RiskMask
  assessments : List Assessment
  failed : List String
  modelsSkipped : Bool
  deriving DecidableEq, Repr

namespace Panel

def securityName : String := "GoPlus"

def timeoutMessage (timeoutMs : Nat) : String := s!"timed out after {timeoutMs}ms"

/-- When a request under a time limit ends, and whether with its answer; an answer at the limit
still counts. -/
def endOf (timeoutMs : Nat) : Option Nat → Nat × Bool
  | some delay => if delay ≤ timeoutMs then (delay, true) else (timeoutMs, false)
  | none => (timeoutMs, false)

/-- The last call of a detector. One that broke down makes none itself. -/
def lastCalls {α : Type} (name : String) (timeoutMs : Nat) (score : α → UInt8) :
    Outcome α → List Call
  | .answered a => [.detectorScore name (score a)]
  | .failed e => [.detectorError name e.message]
  | .timedOut => [.detectorError name (timeoutMessage timeoutMs)]
  | .panicked _ => []

variable {σ : Type}

def workSecurity (p : Panel σ) (token : Address) (source : SourceResult) (s : σ) :
    Worked SecurityReport × σ :=
  let (reply, s) := p.security token s
  let (endsAt, inTime) := endOf p.timeoutMs reply.delay
  let (outcome, s) := if inTime then reply.draw s else (.timedOut, s)
  ({ name := securityName
     opening := [.detectorStarted securityName .fixed]
     closing := lastCalls securityName p.timeoutMs
       (fun r => (Rules.evaluate p.sellTaxThreshold (some r) source).bits) outcome
     endsAt := endsAt
     outcome := outcome }, s)

def workSlot (p : Panel σ) (input : DetectorInput) (slot : Slot σ) (s : σ) :
    Worked Assessment × σ :=
  let (reply, s) := slot.ask systemPrompt input.prompt s
  let (endsAt, inTime) := endOf p.timeoutMs reply.delay
  let ((fragments, answer), s) := if inTime then reply.draw s else ((reply.cut, .timedOut), s)
  let outcome := answer.bind (Assessment.parse slot.name)
  ({ name := slot.name
     opening := [.detectorStarted slot.name .model, .reasoningStarted slot.name]
     closing := fragments.map (.reasoningChunk slot.name) ++
       lastCalls slot.name p.timeoutMs (fun a => a.mask.bits) outcome
     endsAt := endsAt
     outcome := outcome }, s)

def workSlots (p : Panel σ) (input : DetectorInput) :
    List (Slot σ) → σ → List (Worked Assessment) × σ
  | [], s => ([], s)
  | slot :: slots, s =>
    let (w, s) := p.workSlot input slot s
    let (ws, s) := workSlots p input slots s
    (w :: ws, s)

def aggregate (sellTaxThreshold : Float) (strict : Bool) (source : SourceResult)
    (security : Outcome SecurityReport) (slots : List (String × Outcome Assessment)) :
    Aggregation :=
  let staticMask := Rules.evaluate sellTaxThreshold security.answer? source
  let assessments := slots.filterMap fun s => s.2.answer?
  let modelMask := RiskMask.combine (assessments.map Assessment.mask) strict
  let found := (staticMask.only .fixed).union modelMask
  { mask := if source.isAvailable then found else found.insert .unverifiedCode
    staticMask := staticMask
    modelMask := modelMask
    assessments := assessments
    failed := (if security.answer?.isNone then [securityName] else []) ++
      (slots.filter fun s => s.2.answer?.isNone).map Prod.fst
    modelsSkipped := !source.isAvailable }

def latest (start : Nat) (ws : List (Worked Assessment)) : Nat :=
  ws.foldl (fun t w => max t w.endsAt) start

structure Ran (σ : Type) where
  aggregation : Aggregation
  calls : List Call
  duration : Nat
  state : σ

def run (p : Panel σ) (token : Address) (source : SourceResult) (s : σ) : Ran σ :=
  let (security, s) := p.workSecurity token source s
  let slots := if source.isAvailable then p.slots else []
  let (ws, s) := p.workSlots (.ofSource token source) slots s
  { aggregation := aggregate p.sellTaxThreshold p.strictConsensus source security.outcome
      (ws.map fun w => (w.name, w.outcome))
    calls := [.phase .staticAnalysis .running, .phase .modelConsensus .running] ++
      p.order.calls security ws ++ [.phase .modelConsensus .done]
    duration := latest security.endsAt ws
    state := s }

end Panel

end TokenAudit
