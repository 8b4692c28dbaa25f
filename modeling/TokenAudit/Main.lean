import TokenAudit.Agent.Run

/-! The agent's program: reads its words and two variables, and leaves what a command printed. It
is linked to no node, so a watch finds none. -/

namespace TokenAudit

def unlinked : AgentCommand.Ports Rpc.Counter := ⟨fun _ => .silent, Rpc.Counter.draw⟩

def environment (url module_ : Option String) (name : String) : Option String :=
  if name = AgentCommand.rpcUrlVariable then url
  else if name = AgentCommand.moduleVariable then module_
  else none

def printed (env : String → Option String) (words : List String) : AgentCommand.Printed :=
  match AgentCommand.read env words with
  | .error f => .ofFault f
  | .ok line =>
    match (line.command.run unlinked .unbounded (World.start 0 Rpc.Counter.start)).1 with
    | none => ⟨0, "", ""⟩
    | some r => .ofResult line.json r

end TokenAudit

def main (args : List String) : IO UInt32 := do
  let url ← IO.getEnv TokenAudit.AgentCommand.rpcUrlVariable
  let module_ ← IO.getEnv TokenAudit.AgentCommand.moduleVariable
  let p := TokenAudit.printed (TokenAudit.environment url module_) args
  IO.print p.stdout
  IO.eprint p.stderr
  return UInt32.ofNat p.exit
