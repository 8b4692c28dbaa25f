import TokenAudit.Budget
import TokenAudit.Json.Reader
import TokenAudit.Settings
import TokenAudit.Source.Note
import TokenAudit.World

/-! Decompilation of bytecode: submission, polling of pending jobs, and bounded output. -/

namespace TokenAudit

def stripHexHead (s : List Char) : List Char :=
  match Text.after? ['0', 'x'] s with
  | some r => r
  | none => (Text.after? ['0', 'X'] s).getD s

namespace Bytecode

def digits (bytecode : String) : List Char := stripHexHead (Text.trim bytecode.toList)

def isTrivial (bytecode : String) : Bool := decide ((Text.bytes (digits bytecode)).length ≤ 2)

def isHexDigit (c : Char) : Bool := (Numeral.digitBelow? 16 c).isSome

def submission (bytecode : String) : Except AuditError (List Char) :=
  if isTrivial bytecode then .error (.input "empty or invalid bytecode, nothing to decompile")
  else if (digits bytecode).all isHexDigit then .ok (digits bytecode)
  else .error (.input "bytecode is not hex")

end Bytecode

def truncateText (text : List Char) (bound : Nat) : List Char := text.take bound

namespace Decompiler

structure Response where
  status : UInt16
  reason : String
  body : Json

namespace Response

def isSuccess (r : Response) : Bool := 200 ≤ r.status && r.status < 300

def firstText? (body : Json) (keys : List String) : Option String :=
  keys.findSome? fun k => (body.get? k).bind Json.asString?

def output (r : Response) : List Char :=
  match firstText? r.body ["source", "decompiled"] with
  | some s => s.toList
  | none => []

def job? (r : Response) : Option String := firstText? r.body ["jobId", "md5", "job_id"]

def isPending (r : Response) : Bool :=
  r.status = 202 || (r.body.get? "status").bind Json.asString? = some "pending"

end Response

structure Transport (σ : Type) where
  submit : String → Ask σ (Except AuditError Response)
  jobStatus : String → Ask σ (Except AuditError Response)

structure Limits where
  pollIntervalMs : UInt64
  maxPollAttempts : UInt32
  maxOutputChars : Nat

def Limits.ofSettings (s : DecompilerSettings) : Limits :=
  ⟨s.pollIntervalMs, s.maxPollAttempts, s.maxOutputChars.toNat⟩

def Limits.default : Limits := .ofSettings .default

variable {σ : Type}

abbrev SourceWorld (σ : Type) : Type := World σ SourceAct

/-- A task of the source path: no result when a time limit dropped it. -/
abbrev Ran (σ α : Type) : Type := Option α × SourceWorld σ

def note (world : SourceWorld σ) (n : SourceNote) : SourceWorld σ := world.record (.noted n)

def bounded (limits : Limits) (world : SourceWorld σ) (output : List Char) :
    String × SourceWorld σ :=
  let text := String.ofList (truncateText output limits.maxOutputChars)
  if limits.maxOutputChars < output.length then
    (text, note world (.truncated output.length limits.maxOutputChars))
  else (text, world)

def judge : Except AuditError Response → Option (List Char) × List SourceNote
  | .ok r =>
    if r.isSuccess then
      if r.output = [] then (none, []) else (some r.output, [])
    else (none, [])
  | .error e => (none, [.pollFailed e])

/-- One attempt an interval until there is output; failures and missing output count alike. -/
def pollFrom (t : Transport σ) (limits : Limits) (w : Window) (job : String) :
    Nat → Budget → SourceWorld σ → Ran σ (Except AuditError String)
  | 0, b, world =>
    (some (.error (.timeout "decompilation" b.maxAttempts)),
      note world (.pollTimedOut b.maxAttempts))
  | left + 1, b, world =>
    match b.begin? with
    | none =>
      (some (.error (.timeout "decompilation" b.maxAttempts)),
        note world (.pollTimedOut b.maxAttempts))
    | some b =>
      let world := note world (.pollAttempt b.attempts b.maxAttempts)
      match world.sleep w b.intervalMs.toNat with
      | (.expired, world) => (none, world)
      | (.cancelled, world) => (some (.error (.cancelled "decompilation poll")), world)
      | (.ok, world) =>
        match (world.record (.statusAsked job)).ask w (t.jobStatus job) with
        | (none, world) => (none, world)
        | (some answer, world) =>
          match judge answer with
          | (some output, _) =>
            let world := note world (.pollReady b.attempts)
            let (text, world) := bounded limits world output
            (some (.ok text), world)
          | (none, notes) => pollFrom t limits w job left b (notes.foldl note world)

def poll (t : Transport σ) (limits : Limits) (w : Window) (job : String)
    (world : SourceWorld σ) : Ran σ (Except AuditError String) :=
  let budget := Budget.fresh limits.maxPollAttempts limits.pollIntervalMs
  pollFrom t limits w job budget.remaining budget world

def completed (text : String) (world : SourceWorld σ) : Ran σ (Except AuditError String) :=
  (some (.ok text), note world (.complete text.toList.length))

def follow (t : Transport σ) (limits : Limits) (w : Window) (r : Response)
    (world : SourceWorld σ) : Ran σ (Except AuditError String) :=
  if r.isPending then
    match r.job? with
    | none => (some (.error (.upstream "decompiler" r.status "pending response without job id")), world)
    | some job =>
      match poll t limits w job (note world (.jobPending job)) with
      | (some (.ok text), world) => completed text world
      | ran => ran
  else
    let (text, world) := bounded limits world r.output
    completed text world

def submit (t : Transport σ) (limits : Limits) (w : Window) (bytecode : String)
    (world : SourceWorld σ) : Ran σ (Except AuditError String) :=
  match Bytecode.submission bytecode with
  | .error e => (some (.error e), world)
  | .ok digits =>
    let text := String.ofList digits
    let world := (note world (.submitting digits.length)).record (.submitted text)
    match world.ask w (t.submit text) with
    | (none, world) => (none, world)
    | (some (.error e), world) => (some (.error e), note world (.networkError e))
    | (some (.ok r), world) =>
      if r.isSuccess then follow t limits w r world
      else
        (some (.error (.upstream "decompiler" r.status
            s!"API returned {r.status.toNat}: {r.reason}")),
          note world (.apiError r.status r.reason))

end Decompiler

/-- The service client, or anyone else who answers; an answer may wait for the cancel, so it is
told how far that is away. -/
inductive Decompiler (σ : Type) where
  | service (transport : Decompiler.Transport σ) (limits : Decompiler.Limits)
  | answering (ask : String → Option Nat → Ask σ (Except AuditError String))

namespace Decompiler

variable {σ : Type}

def decompile (d : Decompiler σ) (w : Window) (bytecode : String) (world : SourceWorld σ) :
    Ran σ (Except AuditError String) :=
  match d with
  | .service t limits => submit t limits w bytecode world
  | .answering ask =>
    (world.record (.decompilerAsked bytecode)).ask w
      (ask bytecode (w.cancelAt.map fun t => t - world.now))

end Decompiler

end TokenAudit
