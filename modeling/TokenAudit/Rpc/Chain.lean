import TokenAudit.Clearance
import TokenAudit.Commit
import TokenAudit.Rpc.Client

/-! What audits need of the chain, served by a node: writes, and the logs of clearances. -/

namespace TokenAudit

variable {σ : Type}

def ChainWriter.ofClient (c : Rpc.Client σ) (sender target : Address) : ChainWriter σ where
  submit data := c.send sender target data
  receipt h := c.receipt h

namespace ClearanceLogs

def filter (module_ : Address) (signature : String) (token : Address) (fromBlock : UInt64) :
    Rpc.LogFilter :=
  .since module_ [some (Calldata.eventTopic signature), some (Calldata.addressTopic token)]
    fromBlock

def deniedScore (l : Rpc.Log) : Except AuditError Uint256 :=
  if l.data.length < Calldata.wordLength then
    .error (Rpc.refusal 200 s!"ClearanceDenied data is {l.data.length} bytes")
  else .ok (Uint256.ofBytes (l.data.take Calldata.wordLength))

def firstScore : List Rpc.Log → Except AuditError (Option Uint256)
  | [] => .ok none
  | l :: _ => (deniedScore l).map some

def ofClient (c : Rpc.Client σ) (module_ : Address) : ClearanceLogs σ where
  approved token fromBlock :=
    (c.logs (filter module_ Calldata.clearanceUpdatedSignature token fromBlock)).map
      fun r => r.map fun logs => !logs.isEmpty
  denied token fromBlock :=
    (c.logs (filter module_ Calldata.clearanceDeniedSignature token fromBlock)).map
      fun r => r.bind firstScore

end ClearanceLogs

end TokenAudit
