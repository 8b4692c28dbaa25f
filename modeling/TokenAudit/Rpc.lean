import TokenAudit.Json.Record

/-! Messages of the JSON-RPC protocol and the chain objects they carry. -/

namespace TokenAudit.Rpc

inductive Id where
  | number (n : Int)
  | string (s : String)
  deriving DecidableEq, Repr

structure Request where
  version : String
  method : String
  params : Option Json
  id : Option Id

structure Fault where
  code : Int
  message : String
  data : Option Json

structure Response where
  version : String
  result : Option Json
  fault : Option Fault
  id : Option Id

/-- A query for logs; a topic left open matches every value. -/
structure LogFilter where
  address : Address
  topics : List (Option Hash)
  fromBlock : String
  toBlock : String
  deriving DecidableEq

def LogFilter.since (address : Address) (topics : List (Option Hash)) (startBlock : UInt64) :
    LogFilter :=
  ⟨address, topics, String.ofList (Numeral.quantity startBlock.toNat), "latest"⟩

structure Log where
  address : Address
  topics : List Hash
  data : Bytes
  blockNumber : Option UInt64
  transactionHash : Option Hash
  deriving DecidableEq

structure Receipt where
  transactionHash : Hash
  blockNumber : Option UInt64
  status : Option UInt64
  deriving DecidableEq

/-- Only the status one is success; a receipt that has none is not. -/
def Receipt.succeeded (r : Receipt) : Bool := r.status = some 1

structure Transaction where
  sender : Address
  target : Address
  data : Bytes
  value : UInt64
  deriving DecidableEq

namespace Id

def toJson : Id → Json
  | number n => .int n
  | string s => .str s

def ofJson? : Json → Option Id
  | .num (.int n) => if Numeral.isInt64 n then some (number n) else none
  | .str s => some (string s)
  | _ => none

end Id

def member {α : Type} (name : String) (write : α → Json) : Option α → List (String × Json)
  | some a => [(name, write a)]
  | none => []

namespace Request

def toJson (r : Request) : Json :=
  .obj ([("jsonrpc", .str r.version), ("method", .str r.method)]
    ++ member "params" (fun j => j) r.params ++ member "id" Id.toJson r.id)

def ofJson? (j : Json) : Option Request :=
  match j.fields ["jsonrpc", "method", "params", "id"] false with
  | some [version, method, params, id] => do
    return { version := ← version.required Json.readString?
             method := ← method.required Json.readString?
             params := ← params.optional Json.readFree?
             id := ← id.optional Id.ofJson? }
  | _ => none

end Request

namespace Fault

def toJson (f : Fault) : Json :=
  .obj ([("code", .int f.code), ("message", .str f.message)] ++ member "data" (fun j => j) f.data)

def ofJson? (j : Json) : Option Fault :=
  match j.fields ["code", "message", "data"] false with
  | some [code, message, data] => do
    return { code := ← code.required Json.readInt64?
             message := ← message.required Json.readString?
             data := ← data.optional Json.readFree? }
  | _ => none

end Fault

namespace Response

def toJson (r : Response) : Json :=
  .obj ([("jsonrpc", .str r.version)] ++ member "result" (fun j => j) r.result
    ++ member "error" Fault.toJson r.fault ++ member "id" Id.toJson r.id)

def ofJson? (j : Json) : Option Response :=
  match j.fields ["jsonrpc", "result", "error", "id"] false with
  | some [version, result, fault, id] => do
    return { version := ← version.required Json.readString?
             result := ← result.optionalTail Json.readFree?
             fault := ← fault.optionalTail Fault.ofJson?
             id := ← id.optional Id.ofJson? }
  | _ => none

end Response

namespace LogFilter

def toJson (f : LogFilter) : Json :=
  .obj [("address", .ofAddress f.address),
    ("topics", .ofList (Json.ofOption Json.ofHash) f.topics),
    ("fromBlock", .str f.fromBlock), ("toBlock", .str f.toBlock)]

def ofJson? (j : Json) : Option LogFilter :=
  match j.fields ["address", "topics", "fromBlock", "toBlock"] false with
  | some [address, topics, fromBlock, toBlock] => do
    return { address := ← address.required Json.readAddress?
             topics := ← topics.required (Json.readList? (Json.nullable Json.readHash?))
             fromBlock := ← fromBlock.required Json.readString?
             toBlock := ← toBlock.required Json.readString? }
  | _ => none

end LogFilter

namespace Log

def toJson (l : Log) : Json :=
  .obj [("address", .ofAddress l.address), ("topics", .ofList Json.ofHash l.topics),
    ("data", .ofBytes l.data), ("blockNumber", .ofOption Json.ofQuantity l.blockNumber),
    ("transactionHash", .ofOption Json.ofHash l.transactionHash)]

def ofJson? (j : Json) : Option Log :=
  match j.fields ["address", "topics", "data", "blockNumber", "transactionHash"] false with
  | some [address, topics, data, blockNumber, transactionHash] => do
    return { address := ← address.required Json.readAddress?
             topics := ← topics.required (Json.readList? Json.readHash?)
             data := ← data.required Json.readBytes?
             blockNumber := ← blockNumber.optionalTail Json.readQuantity64?
             transactionHash := ← transactionHash.optionalTail Json.readHash? }
  | _ => none

end Log

namespace Receipt

def toJson (r : Receipt) : Json :=
  .obj [("transactionHash", .ofHash r.transactionHash),
    ("blockNumber", .ofOption Json.ofQuantity r.blockNumber),
    ("status", .ofOption Json.ofQuantity r.status)]

def ofJson? (j : Json) : Option Receipt :=
  match j.fields ["transactionHash", "blockNumber", "status"] false with
  | some [transactionHash, blockNumber, status] => do
    return { transactionHash := ← transactionHash.required Json.readHash?
             blockNumber := ← blockNumber.optionalTail Json.readQuantity64?
             status := ← status.optionalTail Json.readQuantity64? }
  | _ => none

end Receipt

namespace Transaction

def toJson (t : Transaction) : Json :=
  .obj [("from", .ofAddress t.sender), ("to", .ofAddress t.target), ("data", .ofBytes t.data),
    ("value", .ofQuantity t.value)]

def ofJson? (j : Json) : Option Transaction :=
  match j.fields ["from", "to", "data", "value"] false with
  | some [sender, target, data, value] => do
    return { sender := ← sender.required Json.readAddress?
             target := ← target.required Json.readAddress?
             data := ← data.required Json.readBytes?
             value := ← value.required Json.readQuantity64? }
  | _ => none

end Transaction

end TokenAudit.Rpc
