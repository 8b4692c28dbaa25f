import TokenAudit.Stream

/-! The feed of one audit: calls that ask for a record, and the records let through in order. -/

namespace TokenAudit

inductive Call where
  | phase (phase : Phase) (status : PhaseStatus)
  | detectorStarted (detector : String) (family : Family)
  | reasoningStarted (detector : String)
  | reasoningChunk (detector text : String)
  | detectorScore (detector : String) (bits : UInt8)
  | detectorError (detector message : String)
  | transactionSubmitted (hash : String)
  | transactionConfirmed (hash : String) (blockNumber : Option UInt64) (success : Bool)
  | finalVerdict (verdict : RiskVerdict)
  | fatal (message : String)
  deriving DecidableEq

structure Feed where
  phases : Phase → Option PhaseStatus
  /-- Of a detector that has started: whether it has ended. -/
  detectors : String → Option Bool
  /-- Whether the reasoning of a detector has opened. -/
  reasoning : String → Bool
  terminated : Bool

namespace Feed

def empty : Feed := ⟨fun _ => none, fun _ => none, fun _ => false, false⟩

def setPhase (f : Feed) (p : Phase) (s : PhaseStatus) : Feed :=
  { f with phases := fun q => if q = p then some s else f.phases q }

def setDetector (f : Feed) (d : String) (ended : Bool) : Feed :=
  { f with detectors := fun e => if e = d then some ended else f.detectors e }

def openReasoning (f : Feed) (d : String) : Feed :=
  { f with reasoning := fun e => if e = d then true else f.reasoning e }

def isOpen (f : Feed) (d : String) : Bool := f.detectors d = some false

def terminate (f : Feed) : Feed := { f with terminated := true }

def running (f : Feed) : List Phase := Phase.all.filter fun p => f.phases p = some .running

def phaseEvent (p : Phase) (s : PhaseStatus) : Event := .phase p p.label s

def phaseAllowed (current : Option PhaseStatus) (next : PhaseStatus) : Bool :=
  match current with
  | none => next = .running
  | some .running => next.isTerminal
  | some _ => false

def accept (f : Feed) : Call → Feed × List Event
  | .phase p s =>
    if phaseAllowed (f.phases p) s then (f.setPhase p s, [phaseEvent p s]) else (f, [])
  | .detectorStarted d family =>
    if (f.detectors d).isSome then (f, [])
    else (f.setDetector d false, [.detectorStarted d family])
  | .reasoningStarted d =>
    if f.isOpen d && !f.reasoning d then (f.openReasoning d, [.reasoningStart d]) else (f, [])
  | .reasoningChunk d text =>
    if f.isOpen d && f.reasoning d then (f, [.reasoningChunk d text]) else (f, [])
  | .detectorScore d bits =>
    if f.isOpen d then (f.setDetector d true, [.detectorScore d bits]) else (f, [])
  | .detectorError d message =>
    if f.isOpen d then (f.setDetector d true, [.detectorError d message]) else (f, [])
  | .transactionSubmitted hash => (f, [.transactionSubmitted hash])
  | .transactionConfirmed hash blockNumber success =>
    (f, [.transactionConfirmed hash blockNumber success])
  | .finalVerdict v => if f.running = [] then (f.terminate, [.finalVerdict v]) else (f, [])
  | .fatal message =>
    let closed := f.running.foldl (fun g p => g.setPhase p .error) f
    (closed.terminate, f.running.map (phaseEvent · .error) ++ [.fatalError message])

/-- Nothing follows the terminal record. -/
def step (f : Feed) (c : Call) : Feed × List Event := if f.terminated then (f, []) else f.accept c

/-- Why a final verdict is refused: a phase still runs. On an ended stream it is not refused. -/
def refusal? (f : Feed) : Option AuditError :=
  if f.terminated then none
  else f.running.head?.map fun p =>
    .pipeline s!"final verdict while {p.title} is still running"

end Feed

structure Stream where
  feed : Feed
  events : List Event

namespace Stream

def empty : Stream := ⟨Feed.empty, []⟩

def call (s : Stream) (c : Call) : Stream :=
  let (feed, new) := s.feed.step c
  ⟨feed, s.events ++ new⟩

def calls (s : Stream) (cs : List Call) : Stream := cs.foldl call s

@[simp] theorem calls_nil (s : Stream) : s.calls [] = s := rfl

@[simp] theorem calls_cons (s : Stream) (c : Call) (cs : List Call) :
    s.calls (c :: cs) = (s.call c).calls cs := rfl

theorem calls_append (s : Stream) (cs ds : List Call) :
    s.calls (cs ++ ds) = (s.calls cs).calls ds := List.foldl_append

theorem call_of_terminated {s : Stream} (h : s.feed.terminated = true) (c : Call) :
    s.call c = s := by
  simp [call, Feed.step, h]

end Stream

end TokenAudit
