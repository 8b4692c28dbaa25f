import TokenAudit.Error
import TokenAudit.Instant
import TokenAudit.Risk

/-! Requests for an audit and the verdicts that answer them. -/

namespace TokenAudit

structure AuditRequest where
  tradeId : Uint256
  token : Address
  startBlock : UInt64
  deriving DecidableEq

structure RiskVerdict where
  tradeId : Uint256
  token : Address
  score : UInt8
  status : VerdictStatus
  reasoning : String
  checks : List RiskCheck
  decidedAt : Instant
  deriving DecidableEq

namespace RiskVerdict

def ofMask (request : AuditRequest) (decidedAt : Instant) (m : RiskMask) : RiskVerdict where
  tradeId := request.tradeId
  token := request.token
  score := m.bits
  status := if m.isClean then .approved else .blocked
  reasoning := m.summary
  checks := m.checks
  decidedAt := decidedAt

/-- An error verdict carries the highest score, so that it never clears a trade. -/
def error (request : AuditRequest) (decidedAt : Instant) (reason : String) : RiskVerdict where
  tradeId := request.tradeId
  token := request.token
  score := 255
  status := .error
  reasoning := reason
  checks := RiskMask.clean.checks
  decidedAt := decidedAt

def ofScore (request : AuditRequest) (decidedAt : Instant) (score : Int) : RiskVerdict :=
  match riskCode? score with
  | some m => ofMask request decidedAt m
  | none => error request decidedAt s!"internal score {score} is not a risk code"

def mask (v : RiskVerdict) : RiskMask := ⟨v.score⟩

def isCommittable (v : RiskVerdict) : Bool := v.status ≠ .error

end RiskVerdict

end TokenAudit
