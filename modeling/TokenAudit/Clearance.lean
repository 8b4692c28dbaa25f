import TokenAudit.Budget
import TokenAudit.Error
import TokenAudit.Json.Record
import TokenAudit.World

/-! Waiting for the receiving contract to approve or deny a token. -/

namespace TokenAudit

inductive Clearance where
  | approved
  | denied (riskScore : Uint256)
  | timeout (attempts : UInt32)
  | cancelled (attempts : UInt32)
  deriving DecidableEq

namespace Clearance

def isApproved : Clearance → Bool
  | approved => true
  | _ => false

def toJson : Clearance → Json
  | approved => .obj [("outcome", .str "approved")]
  | denied riskScore => .obj [("outcome", .str "denied"), ("risk_score", .ofUint256 riskScore)]
  | timeout attempts => .obj [("outcome", .str "timeout"), ("attempts", .ofUInt32 attempts)]
  | cancelled attempts => .obj [("outcome", .str "cancelled"), ("attempts", .ofUInt32 attempts)]

end Clearance

structure ClearanceLogs (σ : Type) where
  approved : Address → UInt64 → Ask σ (Except AuditError Bool)
  denied : Address → UInt64 → Ask σ (Except AuditError (Option Uint256))

inductive ClearanceAct where
  | approvedAsked (token : Address) (fromBlock : UInt64)
  | deniedAsked (token : Address) (fromBlock : UInt64)
  deriving DecidableEq

structure ClearancePoller (σ : Type) where
  logs : ClearanceLogs σ
  intervalMs : UInt64
  maxAttempts : UInt32

namespace ClearancePoller

variable {σ : Type}

/-- One look: approvals first, denials only when there is none; a failed query decides nothing. -/
def check (p : ClearancePoller σ) (w : Window) (token : Address) (fromBlock : UInt64)
    (world : World σ ClearanceAct) : Option (Option Clearance) × World σ ClearanceAct :=
  match (world.record (.approvedAsked token fromBlock)).ask w (p.logs.approved token fromBlock) with
  | (none, world) => (none, world)
  | (some (.error _), world) => (some none, world)
  | (some (.ok true), world) => (some (some .approved), world)
  | (some (.ok false), world) =>
    match (world.record (.deniedAsked token fromBlock)).ask w (p.logs.denied token fromBlock) with
    | (none, world) => (none, world)
    | (some (.ok (some score)), world) => (some (some (.denied score)), world)
    | (some _, world) => (some none, world)

def waitFrom (p : ClearancePoller σ) (w : Window) (token : Address) (fromBlock : UInt64) :
    Nat → Budget → World σ ClearanceAct → Option Clearance × World σ ClearanceAct
  | 0, b, world => (some (.timeout b.attempts), world)
  | left + 1, b, world =>
    match b.begin? with
    | none => (some (.timeout b.attempts), world)
    | some b =>
      match p.check w token fromBlock world with
      | (none, world) => (none, world)
      | (some (some outcome), world) => (some outcome, world)
      | (some none, world) =>
        if b.isExhausted then waitFrom p w token fromBlock left b world
        else
          match world.sleep w b.intervalMs.toNat with
          | (.ok, world) => waitFrom p w token fromBlock left b world
          | (.cancelled, world) => (some (.cancelled b.attempts), world)
          | (.expired, world) => (none, world)

def wait (p : ClearancePoller σ) (w : Window) (token : Address) (fromBlock : UInt64)
    (world : World σ ClearanceAct) : Option Clearance × World σ ClearanceAct :=
  let budget := Budget.fresh p.maxAttempts p.intervalMs
  p.waitFrom w token fromBlock budget.remaining budget world

end ClearancePoller

end TokenAudit
