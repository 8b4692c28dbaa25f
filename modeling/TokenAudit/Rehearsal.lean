import TokenAudit.Clearance
import TokenAudit.Pipeline

/-! Collaborators that play from a script and keep count of how they were used. -/

namespace TokenAudit.Rehearsal

/-- A model that answers from a list first, then always alike if it has a standing answer. With
fragments it hands those over on every call. -/
structure Model where
  delay : Nat
  answers : List (Except AuditError String)
  standing : Option String
  fragments : Option (List String)
  prompts : List String

namespace Model

def answering (answers : List (Except AuditError String)) : Model := ⟨0, answers, none, none, []⟩

def streaming (fragments : List String) : Model :=
  ⟨0, [], some (String.join fragments), some fragments, []⟩

def flagging (bits : List RiskBit) (reasoning : String) : Model :=
  ⟨0, [], some (Assessment.flaggingAnswer bits reasoning), none, []⟩

def noteAsked (m : Model) (prompt : String) : Model := { m with prompts := m.prompts ++ [prompt] }

def complete (m : Model) : Except AuditError String × Model :=
  match m.answers with
  | a :: answers => (a, { m with answers := answers })
  | [] =>
    match m.standing with
    | some s => (.ok s, m)
    | none => (.error (.pipeline "mock model has no scripted response"), m)

def completeStreaming (m : Model) : Completion × Model :=
  match m.fragments with
  | some fragments => (⟨fragments, .ok (String.join fragments)⟩, m)
  | none => let (a, m) := m.complete; (.whole a, m)

end Model

inductive Writer where
  | recording (pendingPolls polls reverts : Nat) (sent : List Bytes)
  | scripted (submits : List (Except AuditError Hash))
      (receipts : List (Except AuditError (Option Rpc.Receipt))) (sent : List Bytes)

namespace Writer

def sent : Writer → List Bytes
  | recording _ _ _ sent => sent
  | scripted _ _ sent => sent

def lastByteHash (n : Nat) : Hash := ⟨BitVec.ofNat 256 (min n 255)⟩

def spareHash : Hash := Hash.ofBytes (List.replicate 32 0xee)

def submit (calldata : Bytes) : Writer → Except AuditError Hash × Writer
  | recording pending polls reverts sent =>
    (.ok (lastByteHash (sent.length + 1)), recording pending polls reverts (sent ++ [calldata]))
  | scripted (a :: submits) receipts sent => (a, scripted submits receipts (sent ++ [calldata]))
  | scripted [] receipts sent => (.ok spareHash, scripted [] receipts (sent ++ [calldata]))

def receipt (hash : Hash) : Writer → Except AuditError (Option Rpc.Receipt) × Writer
  | recording pending polls reverts sent =>
    if polls < pending then (.ok none, recording pending (polls + 1) reverts sent)
    else
      (.ok (some ⟨hash, some 100, some (if 0 < reverts then 0 else 1)⟩),
        recording pending (polls + 1) (reverts - 1) sent)
  | scripted submits (a :: receipts) sent => (a, scripted submits receipts sent)
  | scripted submits [] sent => (.ok none, scripted submits [] sent)

end Writer

structure Cast where
  submits : List (Except AuditError Decompiler.Response)
  statuses : List (Except AuditError Decompiler.Response)
  models : List Model
  writer : Writer
  clearances : List (Except AuditError Bool × Except AuditError (Option Uint256))

namespace Cast

def empty : Cast := ⟨[], [], [], .recording 0 0 0 [], []⟩

def pendingBody : Json := .obj [("status", .str "pending")]

def drawSubmit (c : Cast) : Except AuditError Decompiler.Response × Cast :=
  match c.submits with
  | a :: submits => (a, { c with submits := submits })
  | [] => (.error (.transport "scripted" "no scripted submit"), c)

def drawStatus (c : Cast) : Except AuditError Decompiler.Response × Cast :=
  match c.statuses with
  | a :: statuses => (a, { c with statuses := statuses })
  | [] => (.ok ⟨200, "", pendingBody⟩, c)

def transport : Decompiler.Transport Cast where
  submit _ := Ask.now drawSubmit
  jobStatus _ := Ask.now drawStatus

def stuck : Decompiler Cast :=
  .answering fun _ left c => (⟨left, fun c => (.error (.cancelled "decompile"), c)⟩, c)

def fixed (a : Except AuditError String) : Decompiler Cast :=
  .answering fun _ _ => Ask.now fun c => (a, c)

def setModel (c : Cast) (i : Nat) (m : Model) : Cast := { c with models := c.models.set i m }

def slot (i : Nat) (name : String) : Slot Cast where
  name := name
  ask _ prompt c :=
    match c.models[i]? with
    | none => (⟨none, [], fun c => (([], .timedOut), c)⟩, c)
    | some m =>
      (⟨some m.delay, [], fun c =>
        match c.models[i]? with
        | none => (([], .timedOut), c)
        | some m =>
          let (completion, m) := m.completeStreaming
          let outcome := match completion.answer with
            | .ok a => .answered a
            | .error e => .failed e
          ((completion.fragments, outcome), c.setModel i m)⟩,
        c.setModel i (m.noteAsked prompt))

def slots (names : List String) : List (Slot Cast) := names.zipIdx.map fun (name, i) => slot i name

def security (delay : Nat) (outcome : Outcome SecurityReport) :
    Address → Ask Cast (Outcome SecurityReport) :=
  fun _ c => (⟨some delay, fun c => (outcome, c)⟩, c)

def chain : ChainWriter Cast where
  submit calldata := Ask.now fun c =>
    let (a, writer) := c.writer.submit calldata
    (a, { c with writer := writer })
  receipt hash := Ask.now fun c =>
    let (a, writer) := c.writer.receipt hash
    (a, { c with writer := writer })

def clearanceLogs : ClearanceLogs (Option (Except AuditError (Option Uint256)) × Cast) where
  approved _ _ := Ask.now fun (_, c) =>
    match c.clearances with
    | (approved, denied) :: rest => (approved, (some denied, { c with clearances := rest }))
    | [] => (.ok false, (none, c))
  denied _ _ := Ask.now fun (denied, c) =>
    match denied with
    | some d => (d, (none, c))
    | none => (.ok none, (none, c))

end Cast

end TokenAudit.Rehearsal
