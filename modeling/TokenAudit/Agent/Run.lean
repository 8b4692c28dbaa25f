import TokenAudit.Agent.Command
import TokenAudit.Rpc.Chain
import TokenAudit.Wire

/-! What the agent's commands do, and how their outcomes are printed. -/

namespace TokenAudit

inductive AgentFault where
  | usage (message : String)
  | node (message : String)
  | interrupted (attempts : UInt32)
  deriving DecidableEq

namespace AgentFault

def message : AgentFault → String
  | usage m => m
  | node m => m
  | interrupted attempts => s!"clearance wait interrupted after {attempts.toNat} attempts"

def exitCode : AgentFault → Nat
  | usage _ => 2
  | node _ => 4
  | interrupted _ => 130

def ofError : AuditError → AgentFault
  | .input reason => usage reason
  | e => node e.message

end AgentFault

namespace AgentCommand

abbrev Result : Type := Except AgentFault Json

def parseAddress (option text : String) : Except AgentFault Address :=
  (Address.parse (trimmed text)).mapError fun e =>
    .usage s!"--{option}: invalid address '{text}': {e.message}"

def parseAmount (option text : String) : Except AgentFault Uint256 :=
  (Calldata.parseTradeId text).mapError fun _ => .usage s!"--{option}: '{text}' is not a uint256"

def hexResult (bs : Bytes) : Json := .str (Calldata.toHex bs)

def requestAuditData (token : String) : Except AgentFault Bytes :=
  (parseAddress "token" token).map Calldata.requestAudit

def triggerSwapData (token amountIn amountOutMin : String) : Except AgentFault Bytes :=
  (parseAddress "token" token).bind fun a =>
    (parseAmount "amount-in" amountIn).bind fun x =>
      (parseAmount "amount-out-min" amountOutMin).map fun y => Calldata.triggerSwap a x y

def verdictData (tradeId : String) (score : Int) : Except AgentFault Bytes :=
  (Calldata.encodeChecked .v1 tradeId score).mapError fun e => .usage e.message

def clearanceResult : Clearance → Result
  | .cancelled attempts => .error (.interrupted attempts)
  | .denied score =>
    let c := ("clearance", (Clearance.denied score).toJson)
    if score.toNat < 256 then
      .ok (.obj [c, ("reasoning", .str (RiskMask.mk (UInt8.ofNat score.toNat)).summary)])
    else .ok (.obj [c])
  | c => .ok (.obj [("clearance", c.toJson)])

/-- The ways to the node, each exchange within a time limit. -/
structure Ports (σ : Type) where
  network : Nat → Web.Network σ
  nextId : σ → Int64 × σ

variable {σ : Type}

abbrev Ran (σ : Type) : Type := Option Result × World σ ClearanceAct

def watchFrom (c : Rpc.Client σ) (t : WatchTerms) (w : Window) (module_ token : Address)
    (fromBlock : UInt64) (world : World σ ClearanceAct) : Ran σ :=
  let poller : ClearancePoller σ :=
    ⟨.ofClient c module_, UInt64.ofNat (min t.intervalMs (UInt64.size - 1)), t.attempts⟩
  let (outcome, world) := poller.wait w token fromBlock world
  (outcome.map clearanceResult, world)

def watchRun (ports : Ports σ) (t : WatchTerms) (w : Window) (world : World σ ClearanceAct) : Ran σ :=
  match parseAddress "module" t.module_, parseAddress "token" t.token with
  | .error f, _ => (some (.error f), world)
  | .ok _, .error f => (some (.error f), world)
  | .ok module_, .ok token =>
    let c := Rpc.Client.ofAddress t.rpcUrl (ports.network t.timeoutMs) ports.nextId
    match t.fromBlock with
    | some b => watchFrom c t w module_ token b world
    | none =>
      match world.ask .unbounded c.blockNumber with
      | (none, world) => (none, world)
      | (some (.error e), world) => (some (.error (.ofError e)), world)
      | (some (.ok b), world) => watchFrom c t w module_ token b world

def run (ports : Ports σ) (w : Window) (world : World σ ClearanceAct) : AgentCommand → Ran σ
  | requestAudit token => (some ((requestAuditData token).map hexResult), world)
  | triggerSwap token amountIn amountOutMin =>
    (some ((triggerSwapData token amountIn amountOutMin).map hexResult), world)
  | verdict tradeId score => (some ((verdictData tradeId score).map hexResult), world)
  | risk score => (some (.ok (RiskDecoding.ofScore score).toJson), world)
  | watch t => watchRun ports t w world

structure Printed where
  exit : Nat
  stdout : String
  stderr : String
  deriving DecidableEq

def Printed.ofResult (json : Bool) : Result → Printed
  | .ok j =>
    if json then
      ⟨0, (Json.obj [("ok", .bool true), ("result", j)]).sorted.render ++ "\n", ""⟩
    else
      match j with
      | .str s => ⟨0, s ++ "\n", ""⟩
      | j => ⟨0, j.sorted.pretty ++ "\n", ""⟩
  | .error f =>
    if json then
      let e := Json.obj [("message", .str f.message), ("code", .nat f.exitCode)]
      ⟨f.exitCode, "", (Json.obj [("ok", .bool false), ("error", e)]).sorted.render ++ "\n"⟩
    else ⟨f.exitCode, "", s!"error: {f.message}\n"⟩

/-- What is left when the words name no command; help and version are no failure. -/
def Printed.ofFault : Arguments.Fault → Printed
  | .help => ⟨0, usage, ""⟩
  | .version => ⟨0, s!"{programName} {version}\n", ""⟩
  | .helpForNothing => ⟨2, "", usage⟩
  | f => ⟨2, "", s!"error: {f.message}\n\n{usage}"⟩

end AgentCommand

end TokenAudit
