import TokenAudit.Address

/-! The causes for which an audit, or the reading of calldata, fails. -/

namespace TokenAudit

/-- `timeout` is no answer within the attempts; `upstream` is an answer that says no. -/
inductive AuditError where
  | input (reason : String)
  | transport (endpoint reason : String)
  | upstream (provider : String) (status : UInt16) (reason : String)
  | timeout (operation : String) (attempts : UInt32)
  | pipeline (reason : String)
  | duplicateCommit (tradeId : Uint256)
  | cancelled (operation : String)
  deriving DecidableEq

namespace AuditError

def message : AuditError → String
  | input reason => s!"invalid input: {reason}"
  | transport endpoint reason => s!"transport error reaching {endpoint}: {reason}"
  | upstream provider status reason => s!"{provider} returned status {status.toNat}: {reason}"
  | timeout operation attempts => s!"{operation} timed out after {attempts.toNat} attempts"
  | pipeline reason => s!"pipeline fault: {reason}"
  | duplicateCommit tradeId => s!"trade {tradeId.decimal} already has a committed verdict"
  | cancelled operation => s!"{operation} cancelled"

def statusCode : AuditError → UInt16
  | input _ => 400
  | transport _ _ => 0
  | upstream _ status _ => status
  | timeout _ _ => 408
  | pipeline _ => 500
  | duplicateCommit _ => 409
  | cancelled _ => 499

def httpStatus : AuditError → UInt16
  | input _ => 400
  | transport _ _ => 502
  | upstream _ _ _ => 502
  | timeout _ _ => 504
  | pipeline _ => 500
  | duplicateCommit _ => 409
  | cancelled _ => 503

def isTransient : AuditError → Bool
  | transport _ _ => true
  | _ => false

end AuditError

inductive CalldataError where
  | length (expected actual : Nat)
  | selector (head : Bytes)
  | scoreOutOfRange (score : String)
  | tradeIdOutOfRange (raw : String)
  | hex (fault : HexFault)
  deriving DecidableEq

def CalldataError.message : CalldataError → String
  | length expected actual => s!"expected {expected} bytes of calldata, got {actual}"
  | selector head => s!"unknown selector 0x{String.ofList (Hex.encode head)}"
  | scoreOutOfRange score => s!"risk score {score} outside uint8 range"
  | tradeIdOutOfRange raw => s!"trade id '{raw}' is not a uint256"
  | hex fault => s!"invalid hex: {fault.message}"

end TokenAudit
