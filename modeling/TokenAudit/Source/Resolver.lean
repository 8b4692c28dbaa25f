import TokenAudit.Source
import TokenAudit.Source.Decompiler

/-! The best readable form of a contract: verified source first, then decompiled bytecode. -/

namespace TokenAudit

structure VerifiedSource where
  source : String
  contractName : String
  deriving DecidableEq, Repr

structure Resolver (σ : Type) where
  explorer : Address → Ask σ (Except AuditError (Option VerifiedSource))
  bytecode : Address → Ask σ (Except AuditError String)
  decompiler : Decompiler σ

namespace Resolver

open Decompiler (SourceWorld Ran note)

variable {σ : Type}

def exhausted (world : SourceWorld σ) : Ran σ SourceResult :=
  (some .absent, note world .exhausted)

def conclude (address : Address) (world : SourceWorld σ) :
    Except AuditError String → Ran σ SourceResult
  | .ok source =>
    if isBlankText source then exhausted (note world .emptyOutput)
    else
      let r := SourceResult.decompiled address source
      (some r, note world (.decompiledAs address r.contractName source.toList.length))
  | .error e => exhausted (note world (.decompilationFailed e))

def fromBytecode (r : Resolver σ) (w : Window) (address : Address) (world : SourceWorld σ) :
    Ran σ SourceResult :=
  let world := (note world (.unverified address)).record (.bytecodeAsked address)
  match world.ask w (r.bytecode address) with
  | (none, world) => (none, world)
  | (some (.error e), world) => exhausted (note world (.bytecodeFailed e))
  | (some (.ok code), world) =>
    if Bytecode.isTrivial code then (some .absent, note world (.noBytecode address))
    else
      match r.decompiler.decompile w code world with
      | (none, world) => (none, world)
      | (some answer, world) => conclude address world answer

/-- The explorer's answer that ends the search, if it does; blank source is no source. -/
def accepted : Except AuditError (Option VerifiedSource) → Option VerifiedSource
  | .ok (some v) => if isBlankText v.source then none else some v
  | _ => none

def resolve (r : Resolver σ) (w : Window) (address : Address) (world : SourceWorld σ) :
    Ran σ SourceResult :=
  match (world.record (.explorerAsked address)).ask w (r.explorer address) with
  | (none, world) => (none, world)
  | (some answer, world) =>
    match accepted answer with
    | some v =>
      (some (.verified v.source v.contractName), note world (.verifiedFound address v.contractName))
    | none =>
      match answer with
      | .error e => fromBytecode r w address (note world (.lookupFailed address e))
      | .ok _ => fromBytecode r w address world

end Resolver

end TokenAudit
