import TokenAudit.Address

/-! The readable form of a contract and where it came from. -/

namespace TokenAudit

inductive SourceProvider where
  | verified
  | decompiled
  | absent
  deriving DecidableEq, Repr

namespace SourceProvider

def name : SourceProvider → String
  | verified => "basescan"
  | decompiled => "decompiled"
  | absent => "none"

def ofName? : String → Option SourceProvider
  | "basescan" => some verified
  | "verified" => some verified
  | "decompiled" => some decompiled
  | "dedaub" => some decompiled
  | "none" => some absent
  | _ => none

end SourceProvider

structure Provenance where
  provider : SourceProvider
  isDecompiled : Bool
  deriving DecidableEq, Repr

structure SourceResult where
  source : String
  contractName : String
  provider : SourceProvider
  isDecompiled : Bool
  deriving DecidableEq, Repr

def decompiledName (a : Address) : String :=
  String.ofList ("Decompiled_".toList ++ (Hex.encodePrefixed a.bytes).take 10)

namespace SourceResult

def verified (source contractName : String) : SourceResult :=
  ⟨source, contractName, .verified, false⟩

def decompiled (a : Address) (source : String) : SourceResult :=
  ⟨source, decompiledName a, .decompiled, true⟩

def absent : SourceResult := ⟨"", "", .absent, false⟩

def isAvailable (r : SourceResult) : Bool := r.provider ≠ .absent

def provenance (r : SourceResult) : Provenance := ⟨r.provider, r.isDecompiled⟩

end SourceResult

end TokenAudit
