import TokenAudit.Commit
import TokenAudit.Detector.Panel
import TokenAudit.Source.Resolver

/-! One audit from end to end: source, detectors, risk code, commit, and the story of it all. -/

namespace TokenAudit

structure Pipeline (σ : Type) where
  resolver : Resolver σ
  panel : Panel σ
  committer : Option (Committer σ)
  sourceTimeoutMs : Nat

structure Audit (σ : Type) where
  now : Nat
  state : σ
  ledger : Ledger
  stream : Stream
  sourceTrace : List (Nat × SourceAct)
  commitTrace : List (Nat × CommitAct)

/-- The surroundings of one run: when its signal fires, and the clock reading of its verdict. -/
structure RunTerms where
  cancelAt : Option Nat
  decidedAt : Instant

namespace Pipeline

variable {σ : Type}

abbrev Step (σ α : Type) : Type := Except AuditError α × Audit σ

def tell (a : Audit σ) (cs : List Call) : Audit σ := { a with stream := a.stream.calls cs }

def resolveSource (p : Pipeline σ) (t : RunTerms) (token : Address) (a : Audit σ) :
    Step σ SourceResult :=
  let a := tell a [.phase .resolveSource .running]
  let w : Window := ⟨t.cancelAt, some (a.now + p.sourceTimeoutMs)⟩
  let (found, world) := p.resolver.resolve w token ⟨a.now, a.sourceTrace, a.state⟩
  let a := { a with now := world.now, state := world.state, sourceTrace := world.trace }
  if w.isCancelled a.now then (.error (.cancelled "audit"), a)
  else (.ok (found.getD .absent), tell a [.phase .resolveSource .done])

def runPanel (p : Pipeline σ) (token : Address) (source : SourceResult) (a : Audit σ) :
    Aggregation × Audit σ :=
  let ran := p.panel.run token source a.state
  (ran.aggregation,
    tell { a with now := a.now + ran.duration, state := ran.state } ran.calls)

def computeVerdict (t : RunTerms) (request : AuditRequest) (found : Aggregation) (a : Audit σ) :
    Step σ RiskVerdict :=
  let a := tell a [.phase .computeRiskCode .running]
  let v := RiskVerdict.ofScore request t.decidedAt (Int.ofNat found.mask.bits.toNat)
  if v.status = .error then (.error (.pipeline v.reasoning), a)
  else (.ok v, tell a [.phase .computeRiskCode .done])

def commitVerdict (p : Pipeline σ) (t : RunTerms) (v : RiskVerdict) (a : Audit σ) :
    Option (Except AuditError Unit) × Audit σ :=
  match p.committer with
  | none => (some (.ok ()), a)
  | some c =>
    let a := tell a [.phase .commitVerdict .running]
    let (result, r) := c.commit ⟨t.cancelAt, none⟩ v
      ⟨⟨a.now, a.commitTrace, a.state⟩, a.ledger, a.stream⟩
    let a := { a with
      now := r.world.now, state := r.world.state, commitTrace := r.world.trace
      ledger := r.ledger, stream := r.stream }
    match result with
    | none => (none, a)
    | some (.error e) => (some (.error e), a)
    | some (.ok _) => (some (.ok ()), tell a [.phase .commitVerdict .done])

def announce (v : RiskVerdict) (a : Audit σ) : Step σ RiskVerdict :=
  match a.stream.feed.refusal? with
  | some e => (.error e, tell a [.finalVerdict v])
  | none => (.ok v, tell a [.finalVerdict v])

def execute (p : Pipeline σ) (t : RunTerms) (request : AuditRequest) (a : Audit σ) :
    Option (Except AuditError RiskVerdict) × Audit σ :=
  if request.token = Address.zero then
    (some (.error (.input "target token is the zero address")), a)
  else
    match p.resolveSource t request.token a with
    | (.error e, a) => (some (.error e), a)
    | (.ok source, a) =>
      let (found, a) := p.runPanel request.token source a
      match computeVerdict t request found a with
      | (.error e, a) => (some (.error e), a)
      | (.ok v, a) =>
        match p.commitVerdict t v a with
        | (none, a) => (none, a)
        | (some (.error e), a) => (some (.error e), a)
        | (some (.ok ()), a) =>
          let (result, a) := announce v a
          (some result, a)

/-- A failure is told on the stream before it is returned. -/
def run (p : Pipeline σ) (t : RunTerms) (request : AuditRequest) (a : Audit σ) :
    Option (Except AuditError RiskVerdict) × Audit σ :=
  match p.execute t request a with
  | (some (.error e), a) => (some (.error e), tell a [.fatal e.message])
  | ran => ran

def start (now : Nat) (state : σ) (ledger : Ledger) : Audit σ :=
  ⟨now, state, ledger, .empty, [], []⟩

end Pipeline

end TokenAudit
