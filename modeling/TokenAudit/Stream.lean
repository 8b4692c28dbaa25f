import TokenAudit.Verdict

/-! The records of an audit's progress, and how a reader takes a stream of them. -/

namespace TokenAudit

def streamProtocolVersion : Nat := 1

inductive Phase where
  | resolveSource
  | staticAnalysis
  | modelConsensus
  | computeRiskCode
  | commitVerdict
  deriving DecidableEq, Repr

namespace Phase

def all : List Phase :=
  [resolveSource, staticAnalysis, modelConsensus, computeRiskCode, commitVerdict]

def label : Phase → String
  | resolveSource => "Fetching contract source"
  | staticAnalysis => "Running static analysis"
  | modelConsensus => "Running AI consensus"
  | computeRiskCode => "Computing final risk code"
  | commitVerdict => "Committing verdict on-chain"

def key : Phase → String
  | resolveSource => "resolve_source"
  | staticAnalysis => "static_analysis"
  | modelConsensus => "ai_consensus"
  | computeRiskCode => "compute_risk_code"
  | commitVerdict => "commit_verdict"

def title : Phase → String
  | resolveSource => "ResolveSource"
  | staticAnalysis => "StaticAnalysis"
  | modelConsensus => "AiConsensus"
  | computeRiskCode => "ComputeRiskCode"
  | commitVerdict => "CommitVerdict"

end Phase

inductive PhaseStatus where
  | running
  | done
  | error
  deriving DecidableEq, Repr

def PhaseStatus.isTerminal : PhaseStatus → Bool
  | running => false
  | _ => true

inductive Event where
  | phase (phase : Phase) (label : String) (status : PhaseStatus)
  | detectorStarted (detector : String) (family : Family)
  | reasoningStart (detector : String)
  | reasoningChunk (detector text : String)
  | detectorScore (detector : String) (bits : UInt8)
  | detectorError (detector message : String)
  | transactionSubmitted (hash : String)
  | transactionConfirmed (hash : String) (blockNumber : Option UInt64) (success : Bool)
  | finalVerdict (verdict : RiskVerdict)
  | fatalError (message : String)
  deriving DecidableEq

namespace Event

def isTerminal : Event → Bool
  | finalVerdict _ => true
  | fatalError _ => true
  | _ => false

def detector? : Event → Option String
  | detectorStarted d _ => some d
  | reasoningStart d => some d
  | reasoningChunk d _ => some d
  | detectorScore d _ => some d
  | detectorError d _ => some d
  | _ => none

end Event

inductive StreamOutcome where
  | verdict (v : RiskVerdict)
  | fatal (message : String)
  | aborted
  deriving DecidableEq

/-- The first terminal record decides. -/
def StreamOutcome.ofEvents : List Event → StreamOutcome
  | [] => .aborted
  | .finalVerdict v :: _ => .verdict v
  | .fatalError m :: _ => .fatal m
  | _ :: es => ofEvents es

end TokenAudit
