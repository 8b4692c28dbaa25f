import TokenAudit.Agent.Run
import TokenAudit.Proofs.Calldata.Codec
import TokenAudit.Proofs.Numeral.HexText

/-! What the commands that encode something print: a line with the hexadecimal text of the encoding, or
nothing but a complaint that ends the program as a wrong usage. -/

namespace TokenAudit

theorem Calldata.fromHex_toHex (bs : Bytes) : fromHex (toHex bs) = .ok bs := by
  rw [fromHex, toHex, Hex.decode_encodePrefixed]
  rfl

namespace AgentCommand

def printedLine (json : Bool) (text : String) : String :=
  (if json then (Json.obj [("ok", .bool true), ("result", .str text)]).sorted.render else text) ++ "\n"

def complaint (json : Bool) (message : String) : String :=
  if json then
    let e := Json.obj [("message", .str message), ("code", .nat 2)]
    (Json.obj [("ok", .bool false), ("error", e)]).sorted.render ++ "\n"
  else s!"error: {message}\n"

/-- A command ends well with a text for its whole output, whatever the ways to the node. -/
def Prints (c : AgentCommand) (text : String) : Prop :=
  ∀ (σ : Type) (ports : Ports σ) (w : Window) (world : World σ ClearanceAct) (json : Bool),
    (c.run ports w world).1.map (Printed.ofResult json) = some ⟨0, printedLine json text, ""⟩

/-- A command has no output, and ends with the exit code of a wrong usage and a message. -/
def Refuses (c : AgentCommand) (message : String) : Prop :=
  ∀ (σ : Type) (ports : Ports σ) (w : Window) (world : World σ ClearanceAct) (json : Bool),
    (c.run ports w world).1.map (Printed.ofResult json) = some ⟨2, "", complaint json message⟩

def Encodes (c : AgentCommand) (data : Except AgentFault Bytes) : Prop :=
  ∀ (σ : Type) (ports : Ports σ) (w : Window) (world : World σ ClearanceAct),
    c.run ports w world = (some (data.map hexResult), world)

variable {c : AgentCommand} {bytes : Bytes} {message : String}

theorem Encodes.prints (h : Encodes c (.ok bytes)) : Prints c (Calldata.toHex bytes) := by
  intro σ ports w world json
  rw [h]
  cases json <;> rfl

theorem Encodes.refuses (h : Encodes c (.error (.usage message))) : Refuses c message := by
  intro σ ports w world json
  rw [h]
  cases json <;> rfl

variable {data : Except AgentFault Bytes}

theorem encodes_requestAudit {token : String} (h : requestAuditData token = data) :
    Encodes (.requestAudit token) data := h ▸ fun _ _ _ _ => rfl

theorem encodes_triggerSwap {token amountIn amountOutMin : String}
    (h : triggerSwapData token amountIn amountOutMin = data) :
    Encodes (.triggerSwap token amountIn amountOutMin) data := h ▸ fun _ _ _ _ => rfl

theorem encodes_verdict {tradeId : String} {score : Int} (h : verdictData tradeId score = data) :
    Encodes (.verdict tradeId score) data := h ▸ fun _ _ _ _ => rfl

end AgentCommand

end TokenAudit
