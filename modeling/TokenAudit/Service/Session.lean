import TokenAudit.Pipeline

/-! A pipeline over many audits: the clock, the ledger and the collaborators last between them. -/

namespace TokenAudit

structure Session (σ : Type) where
  now : Nat
  ledger : Ledger
  state : σ
  sourceTrace : List (Nat × SourceAct)

namespace Session

variable {σ : Type}

def start (state : σ) : Session σ := ⟨0, [], state, []⟩

def audit (s : Session σ) (p : Pipeline σ) (t : RunTerms) (request : AuditRequest) :
    Option (Except AuditError RiskVerdict) × Stream × Session σ :=
  let (result, a) := p.run t request (Pipeline.start s.now s.state s.ledger)
  (result, a.stream, ⟨a.now, a.ledger, a.state, s.sourceTrace ++ a.sourceTrace⟩)

def sourceActs (s : Session σ) : List SourceAct := s.sourceTrace.map Prod.snd

end Session

end TokenAudit
