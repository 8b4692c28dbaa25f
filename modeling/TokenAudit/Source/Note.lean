import TokenAudit.Error

/-! The log lines of the way to a contract's source, each under the tag of its origin. -/

namespace TokenAudit

inductive SourceNote where
  | submitting (digits : Nat)
  | networkError (e : AuditError)
  | apiError (status : UInt16) (reason : String)
  | jobPending (job : String)
  | pollAttempt (attempt budget : UInt32)
  | pollReady (attempts : UInt32)
  | pollFailed (e : AuditError)
  | pollTimedOut (attempts : UInt32)
  | truncated (length bound : Nat)
  | complete (length : Nat)
  | verifiedFound (address : Address) (contractName : String)
  | lookupFailed (address : Address) (e : AuditError)
  | unverified (address : Address)
  | bytecodeFailed (e : AuditError)
  | noBytecode (address : Address)
  | decompiledAs (address : Address) (contractName : String) (length : Nat)
  | emptyOutput
  | decompilationFailed (e : AuditError)
  | exhausted
  deriving DecidableEq

namespace SourceNote

def decompilerTag : String := "[DEDAUB_BETA]"

def explorerTag : String := "[BaseScan]"

def tag : SourceNote → String
  | verifiedFound _ _ => explorerTag
  | lookupFailed _ _ => explorerTag
  | _ => decompilerTag

def ofClient : SourceNote → Bool
  | submitting _ => true
  | networkError _ => true
  | apiError _ _ => true
  | jobPending _ => true
  | pollAttempt _ _ => true
  | pollReady _ => true
  | pollFailed _ => true
  | pollTimedOut _ => true
  | truncated _ _ => true
  | complete _ => true
  | _ => false

def message : SourceNote → String
  | submitting digits => s!"Submitting {digits} hex chars for decompilation"
  | networkError e => s!"Network error: {e.message}"
  | apiError status reason => s!"API error: HTTP {status.toNat} {reason}"
  | jobPending job => s!"Decompilation pending (job: {job}), polling..."
  | pollAttempt attempt budget => s!"Poll attempt {attempt.toNat}/{budget.toNat}..."
  | pollReady attempts => s!"Decompilation ready after {attempts.toNat} polls"
  | pollFailed e =>
    if e.isTransient then s!"Poll transport error (retrying): {e.message}"
    else s!"Poll error (retrying): {e.message}"
  | pollTimedOut attempts => s!"Decompilation timed out after {attempts.toNat} attempts"
  | truncated length bound => s!"Output truncated from {length} to {bound} chars"
  | complete length => s!"Decompilation complete: {length} chars"
  | verifiedFound address contractName =>
    s!"Verified source found for {address.checksummed} ({contractName})"
  | lookupFailed address e => s!"Source lookup failed for {address.checksummed}: {e.message}"
  | unverified address =>
    s!"Unverified contract at {address.checksummed}, attempting bytecode decompilation"
  | bytecodeFailed e => s!"Bytecode fetch failed: {e.message}"
  | noBytecode address => s!"No bytecode at {address.checksummed} (EOA or self-destructed)"
  | decompiledAs address contractName length =>
    s!"Decompiled {address.checksummed} as {contractName} ({length} chars)"
  | emptyOutput => "Decompiler returned empty output"
  | decompilationFailed e => s!"Decompilation failed: {e.message}"
  | exhausted => "All source retrieval methods exhausted, AI will be skipped"

def line (n : SourceNote) : String := s!"{n.tag} {n.message}"

end SourceNote

inductive SourceAct where
  | noted (n : SourceNote)
  | explorerAsked (address : Address)
  | bytecodeAsked (address : Address)
  | decompilerAsked (bytecode : String)
  | submitted (digits : String)
  | statusAsked (job : String)
  deriving DecidableEq

end TokenAudit
