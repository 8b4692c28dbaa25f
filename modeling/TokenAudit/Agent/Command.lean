import TokenAudit.Agent.Arguments

/-! The commands of the trading agent's helper. -/

namespace TokenAudit

structure WatchTerms where
  rpcUrl : String
  module_ : String
  token : String
  fromBlock : Option UInt64
  attempts : UInt32
  intervalMs : Nat
  timeoutMs : Nat
  deriving DecidableEq

inductive AgentCommand where
  | requestAudit (token : String)
  | triggerSwap (token amountIn amountOutMin : String)
  | verdict (tradeId : String) (score : Int)
  | risk (score : Int)
  | watch (t : WatchTerms)
  deriving DecidableEq

namespace AgentCommand

open Arguments (Spec Command Grammar Level Value Kind Fault)

def needed (name : String) (kind : Kind) : Spec := ⟨name, kind, true, none, none, false⟩

def optional (name : String) (kind : Kind) (default : Option String) : Spec :=
  ⟨name, kind, false, none, default, false⟩

def fromVariable (name variable_ : String) : Spec :=
  ⟨name, .text, true, some variable_, none, false⟩

def leaf (name : String) (options : List Spec) : Command := ⟨name, false, options, none, []⟩

def programName : String := "aegis-agent"

def version : String := "0.1.0"

def jsonFlag : String := "json"

def rpcUrlVariable : String := "AEGIS_RPC_URL"

def moduleVariable : String := "AEGIS_MODULE_ADDRESS"

def grammar : Grammar where
  root := ⟨programName, true, [], none, ["calldata", "verdict", "risk", "watch"]⟩
  commands :=
    [⟨"calldata", false, [], none, ["request-audit", "trigger-swap"]⟩,
      leaf "request-audit" [needed "token" .text],
      leaf "trigger-swap" [needed "token" .text, needed "amount-in" .text,
        optional "amount-out-min" .text (some "1")],
      leaf "verdict" [needed "trade-id" .text,
        { needed "risk-score" .integer with negatives := true }],
      ⟨"risk", false, [], some { needed "score" .integer with negatives := true }, []⟩,
      leaf "watch" [fromVariable "rpc-url" rpcUrlVariable, fromVariable "module" moduleVariable,
        needed "token" .text, optional "from-block" .block none,
        optional "attempts" .count (some "120"), optional "interval" .duration (some "1s"),
        optional "timeout" .duration (some "10s")]]
  flag := jsonFlag

def usage : String :=
  let commands := " | ".intercalate grammar.root.below
  s!"Trading-agent helper for the Aegis audit protocol\n\nUsage: {programName} [--json] <{commands}>\n"

def textOf (l : Level) (name : String) : String :=
  match l.find? name with
  | some (.text s) => s
  | _ => ""

def integerOf (l : Level) (name : String) : Int :=
  match l.find? name with
  | some (.integer n) => n
  | _ => 0

def natural? (l : Level) (name : String) : Option Nat :=
  match l.find? name with
  | some (.natural n) => some n
  | _ => none

def naturalOf (l : Level) (name : String) : Nat := (natural? l name).getD 0

def ofLevel (l : Level) : Option AgentCommand :=
  match l.command.name with
  | "request-audit" => some (requestAudit (textOf l "token"))
  | "trigger-swap" =>
    some (triggerSwap (textOf l "token") (textOf l "amount-in") (textOf l "amount-out-min"))
  | "verdict" => some (verdict (textOf l "trade-id") (integerOf l "risk-score"))
  | "risk" => some (risk (integerOf l "score"))
  | "watch" =>
    some (watch
      { rpcUrl := textOf l "rpc-url"
        module_ := textOf l "module"
        token := textOf l "token"
        fromBlock := (natural? l "from-block").map UInt64.ofNat
        attempts := UInt32.ofNat (naturalOf l "attempts")
        intervalMs := naturalOf l "interval"
        timeoutMs := naturalOf l "timeout" })
  | _ => none

structure Line where
  command : AgentCommand
  json : Bool
  deriving DecidableEq

def read (env : String → Option String) (words : List String) : Except Fault Line :=
  match grammar.read env words with
  | .error f => .error f
  | .ok [] => .error .noCommand
  | .ok (l :: outer) =>
    match ofLevel l with
    | none => .error .noCommand
    | some c => .ok ⟨c, (l :: outer).any fun l => (l.find? jsonFlag).isSome⟩

end AgentCommand

end TokenAudit
