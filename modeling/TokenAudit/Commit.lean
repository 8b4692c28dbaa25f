import TokenAudit.Budget
import TokenAudit.Calldata
import TokenAudit.Rpc
import TokenAudit.Stream.Feed
import TokenAudit.World

/-! Commits of verdicts to the chain, each trade id at most once: the ledger, the steps of one
commit between its waits, and its run on the clock. -/

namespace TokenAudit

/-- The trade ids that are reserved or committed. -/
abbrev Ledger := List Uint256

namespace Ledger

def contains (l : Ledger) (tradeId : Uint256) : Bool := decide (tradeId ∈ l)

def reserve? (l : Ledger) (tradeId : Uint256) : Option Ledger :=
  if l.contains tradeId then none else some (tradeId :: l)

def release (l : Ledger) (tradeId : Uint256) : Ledger := l.filter fun t => t ≠ tradeId

theorem reserve?_eq_some_iff (l l' : Ledger) (tradeId : Uint256) :
    l.reserve? tradeId = some l' ↔ tradeId ∉ l ∧ l' = tradeId :: l := by
  unfold reserve? contains
  by_cases h : tradeId ∈ l
  · simp [h]
  · simp [h, eq_comm]

@[simp] theorem mem_release (l : Ledger) (tradeId t : Uint256) :
    t ∈ l.release tradeId ↔ t ∈ l ∧ t ≠ tradeId := by
  simp [release]

end Ledger

structure CommitReceipt where
  hash : Hash
  blockNumber : Option UInt64
  deriving DecidableEq

namespace Commit

abbrev Result := Except AuditError CommitReceipt

/-- Where a commit stands: before its start, waiting for the writer, between lookups, or over. -/
inductive Stage where
  | fresh
  | submitting
  | looking (hash : Hash) (budget : Budget)
  | resting (hash : Hash) (budget : Budget)
  | returned (result : Result)

structure Step where
  stage : Stage
  ledger : Ledger
  calls : List Call

def timedOut (hash : Hash) (b : Budget) : Result :=
  .error (.timeout s!"confirmation of {hash.hex}" b.attempts)

def advance (hash : Hash) (b : Budget) : Stage :=
  match b.begin? with
  | some b => .looking hash b
  | none => .returned (timedOut hash b)

def open_ (v : RiskVerdict) (cancelled : Bool) (l : Ledger) : Step :=
  if ¬ v.isCommittable then
    ⟨.returned (.error (.pipeline
      s!"refusing to commit error verdict for trade {v.tradeId.decimal}")), l, []⟩
  else if cancelled then ⟨.returned (.error (.cancelled "verdict commit")), l, []⟩
  else
    match l.reserve? v.tradeId with
    | none => ⟨.returned (.error (.duplicateCommit v.tradeId)), l, []⟩
    | some l => ⟨.submitting, l, []⟩

/-- A refused submission left nothing on the chain, so the trade id is free again. -/
def submitted (v : RiskVerdict) (budget : Budget) (l : Ledger) : Except AuditError Hash → Step
  | .error e => ⟨.returned (.error e), l.release v.tradeId, []⟩
  | .ok hash => ⟨advance hash budget, l, [.transactionSubmitted hash.hex]⟩

/-- A failed lookup counts like a pending one; a mined transaction decides. -/
def looked (v : RiskVerdict) (hash : Hash) (b : Budget) (l : Ledger) :
    Except AuditError (Option Rpc.Receipt) → Step
  | .ok (some r) =>
    let confirmed : Call := .transactionConfirmed hash.hex r.blockNumber r.succeeded
    if r.succeeded then ⟨.returned (.ok ⟨hash, r.blockNumber⟩), l, [confirmed]⟩
    else ⟨.returned (.error (.upstream "receiving-contract" 0
        s!"verdict transaction {hash.hex} reverted")), l.release v.tradeId, [confirmed]⟩
  | _ =>
    if b.isExhausted then ⟨.returned (timedOut hash b), l, []⟩ else ⟨.resting hash b, l, []⟩

/-- A cancelled commit keeps its trade id: the transaction may still be mined. -/
def rested (hash : Hash) (b : Budget) (l : Ledger) (cancelled : Bool) : Step :=
  if cancelled then ⟨.returned (.error (.cancelled "verdict confirmation")), l, []⟩
  else ⟨advance hash b, l, []⟩

end Commit

structure ChainWriter (σ : Type) where
  submit : Bytes → Ask σ (Except AuditError Hash)
  receipt : Hash → Ask σ (Except AuditError (Option Rpc.Receipt))

inductive CommitAct where
  | submitted (calldata : Bytes)
  | lookedUp (hash : Hash)
  deriving DecidableEq

structure Committer (σ : Type) where
  writer : ChainWriter σ
  protocol : Calldata.Protocol
  confirmAttempts : UInt32
  confirmIntervalMs : UInt64

namespace Committer

variable {σ : Type}

structure Run (σ : Type) where
  world : World σ CommitAct
  ledger : Ledger
  stream : Stream

def Run.take (r : Run σ) (step : Commit.Step) : Commit.Stage × Run σ :=
  (step.stage, { r with ledger := step.ledger, stream := r.stream.calls step.calls })

def budget (c : Committer σ) : Budget := Budget.fresh c.confirmAttempts c.confirmIntervalMs

/-- Lookups and rests until the commit is over; no result when a writer's answer never comes. -/
def confirm (c : Committer σ) (w : Window) (v : RiskVerdict) :
    Nat → Commit.Stage → Run σ → Option Commit.Result × Run σ
  | _, .returned result, r => (some result, r)
  | left + 1, .looking hash b, r =>
    match (r.world.record (.lookedUp hash)).ask w (c.writer.receipt hash) with
    | (none, world) => (none, { r with world := world })
    | (some answer, world) =>
      let (stage, r) := { r with world := world }.take (Commit.looked v hash b r.ledger answer)
      confirm c w v left stage r
  | left + 1, .resting hash b, r =>
    match r.world.sleep w b.intervalMs.toNat with
    | (.expired, world) => (none, { r with world := world })
    | (woken, world) =>
      let (stage, r) := { r with world := world }.take
        (Commit.rested hash b r.ledger (decide (woken = Woken.cancelled)))
      confirm c w v left stage r
  | _, _, r => (none, r)

def steps (c : Committer σ) : Nat := 2 * c.confirmAttempts.toNat + 1

def submit (c : Committer σ) (w : Window) (v : RiskVerdict) (r : Run σ) :
    Option Commit.Result × Run σ :=
  let calldata := Calldata.encode c.protocol v.tradeId v.score
  match (r.world.record (.submitted calldata)).ask w (c.writer.submit calldata) with
  | (none, world) => (none, { r with world := world })
  | (some answer, world) =>
    let (stage, r) := { r with world := world }.take
      (Commit.submitted v c.budget r.ledger answer)
    c.confirm w v c.steps stage r

def commit (c : Committer σ) (w : Window) (v : RiskVerdict) (r : Run σ) :
    Option Commit.Result × Run σ :=
  match r.take (Commit.open_ v (w.isCancelled r.world.now) r.ledger) with
  | (.submitting, r) => c.submit w v r
  | (.returned result, r) => (some result, r)
  | (_, r) => (none, r)

end Committer

end TokenAudit
