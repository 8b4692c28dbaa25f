import TokenAudit.Error
import TokenAudit.Rpc
import TokenAudit.Web.Exchange

/-! A client of one chain node: numbered calls, their answers, and typed readings of results. -/

namespace TokenAudit.Rpc

def providerName : String := "json-rpc"

structure Counter where
  next : Int64
  deriving DecidableEq

namespace Counter

def start : Counter := ⟨1⟩

def draw (c : Counter) : Int64 × Counter := (c.next, ⟨c.next + 1⟩)

end Counter

def request (method : String) (params : Json) (id : Int64) : Request :=
  ⟨"2.0", method, some params, some (.number id.toInt)⟩

def refusal (status : UInt16) (reason : String) : AuditError :=
  .upstream providerName status reason

def excerpt (text : List Char) (bound : Nat) : String :=
  if text.length ≤ bound then String.ofList text
  else s!"{String.ofList (text.take bound)}...(+{text.length - bound} chars)"

def unparsed (method : String) (a : Web.Answer) : AuditError :=
  refusal a.status (s!"failed to parse response for '{method}': {Json.fault}. " ++
    s!"response={excerpt (Utf8.lossy a.body) 2000}")

/-- The result of the call that was sent under an id; an answer to another call is refused. -/
def accept (method : String) (id : Int64) (a : Web.Answer) : Except AuditError Json :=
  if ¬Web.isSuccess a.status then .error (refusal a.status s!"{method}: {Web.phrase a.status}")
  else
    match a.json?.bind Response.ofJson? with
    | none => .error (unparsed method a)
    | some r =>
      if r.id ≠ some (.number id.toInt) then
        .error (refusal a.status s!"mismatched response id for '{method}'")
      else
        match r.fault with
        | some f => .error (refusal a.status s!"rpc error {f.code}: {f.message}")
        | none => .ok (r.result.getD .null)

def connectionError (endpoint method : String) : Web.Fault → AuditError
  | .lost _ .timedOut => .transport endpoint s!"'{method}' timed out"
  | .lost _ .unreachable => .transport endpoint s!"unable to connect for '{method}'"
  | fault => .transport endpoint fault.message

def conclude (endpoint method : String) (id : Int64) :
    Except Web.Fault Web.Answer → Except AuditError Json
  | .error fault => .error (connectionError endpoint method fault)
  | .ok a => accept method id a

def typed {α : Type} (read : Json → Option α) (method : String) (result : Json) :
    Except AuditError α :=
  match read result with
  | some a => .ok a
  | none => .error (refusal 200 s!"invalid '{method}' result: {Json.fault}")

structure Client (σ : Type) where
  endpoint : String
  network : Web.Network σ
  nextId : σ → Int64 × σ

namespace Client

variable {σ α : Type}

def ofAddress (address : String) (network : Web.Network σ) (nextId : σ → Int64 × σ) : Client σ :=
  ⟨Web.base address, network, nextId⟩

def call (c : Client σ) (method : String) (params : Json) : Ask σ (Except AuditError Json) :=
  fun s =>
    let (id, s) := c.nextId s
    let r := Web.request? .post c.endpoint [] none (some (request method params id).toJson)
    ((Web.send c.network r).map (conclude c.endpoint method id)) s

def callTyped (c : Client σ) (read : Json → Option α) (method : String) (params : Json) :
    Ask σ (Except AuditError α) :=
  (c.call method params).map fun r => r.bind (typed read method)

def code (c : Client σ) (a : Address) : Ask σ (Except AuditError String) :=
  c.callTyped Json.readString? "eth_getCode" (.arr [.ofAddress a, .str "latest"])

def blockNumber (c : Client σ) : Ask σ (Except AuditError UInt64) :=
  c.callTyped Json.readQuantity64? "eth_blockNumber" (.arr [])

def logs (c : Client σ) (f : LogFilter) : Ask σ (Except AuditError (List Log)) :=
  c.callTyped (Json.readList? Log.ofJson?) "eth_getLogs" (.arr [f.toJson])

def send (c : Client σ) (sender target : Address) (data : Bytes) :
    Ask σ (Except AuditError Hash) :=
  c.callTyped Json.readHash? "eth_sendTransaction" (.arr [Transaction.toJson ⟨sender, target, data, 0⟩])

def receipt (c : Client σ) (h : Hash) : Ask σ (Except AuditError (Option Receipt)) :=
  c.callTyped (Json.nullable Receipt.ofJson?) "eth_getTransactionReceipt" (.arr [.ofHash h])

end Client

end TokenAudit.Rpc
