import TokenAudit.Calldata
import TokenAudit.Json.Reader
import TokenAudit.Verdict
import TokenAudit.Web.Percent

/-! The parameters of an audit as a caller writes them: in a query, in a JSON body, as texts. -/

namespace TokenAudit

structure AuditParams where
  token : String
  tradeId : String
  startBlock : UInt64
  deriving DecidableEq

namespace AuditParams

def request (p : AuditParams) : Except AuditError AuditRequest :=
  match Address.parse (trimmed p.token) with
  | .error e => .error (.input s!"token '{p.token}': {e.message}")
  | .ok token =>
    if token = Address.zero then .error (.input "target token is the zero address")
    else
      match Calldata.parseTradeId p.tradeId with
      | .error e => .error (.input e.message)
      | .ok tradeId => .ok ⟨tradeId, token, p.startBlock⟩

/-! ### Queries -/

def once? (pairs : List (String × String)) (key : String) : Option (Option String) :=
  match pairs.filter fun p => p.1 = key with
  | [] => some none
  | [p] => some (some p.2)
  | _ => none

def ofQuery? (query : List Char) : Option AuditParams := do
  let pairs := Percent.formPairs query
  let token ← once? pairs "token"
  let tradeId ← once? pairs "trade_id"
  let block ← once? pairs "start_block"
  let startBlock ← match block with
    | none => some 0
    | some text => Numeral.readNat UInt64.size text.toList
  return ⟨← token, ← tradeId, UInt64.ofNat startBlock⟩

/-! ### Bodies -/

/-- The first fault of a body: text that is not JSON, or a value of another kind. -/
inductive BodyFault where
  | malformed
  | mismatched
  deriving DecidableEq, Repr

abbrev Read (α : Type) : Type := Except BodyFault (α × List Char)

def startsWith (word : String) (s : List Char) : Bool := word.toList.isPrefixOf s

/-- The fault of a value of the wrong kind. Of a container not even the end is looked for. -/
def wrongKind : List Char → BodyFault
  | [] => .malformed
  | '[' :: _ => .mismatched
  | '{' :: _ => .mismatched
  | '"' :: s =>
    match Json.readString s with
    | some (some _, _) => .mismatched
    | _ => .malformed
  | s =>
    if startsWith "null" s || startsWith "true" s || startsWith "false" s then .mismatched
    else
      match Json.readNumber s with
      | some (.num _, _) => .mismatched
      | _ => .malformed

def readText (s : List Char) : Read String :=
  match Json.skipSpace s with
  | '"' :: r =>
    match Json.readString r with
    | some (some t, r) => .ok (t, r)
    | _ => .error .malformed
  | r => .error (wrongKind r)

def readBlock (s : List Char) : Read UInt64 :=
  match Json.readNumber (Json.skipSpace s) with
  | some (.num (.int (.ofNat n)), r) => .ok (UInt64.ofNat n, r)
  | _ => .error (wrongKind (Json.skipSpace s))

def passValue (s : List Char) : Except BodyFault (List Char) :=
  match Json.readValue (2 * s.length + 2) Json.maxNesting s with
  | some (_, r) => .ok r
  | none => .error .malformed

structure Partial where
  token : Option String
  tradeId : Option String
  startBlock : Option UInt64

def Partial.complete (p : Partial) : Except BodyFault AuditParams :=
  match p.token, p.tradeId with
  | some token, some tradeId => .ok ⟨token, tradeId, p.startBlock.getD 0⟩
  | _, _ => .error .mismatched

def afterColon (s : List Char) : Except BodyFault (List Char) :=
  match Json.skipSpace s with
  | ':' :: r => .ok r
  | _ => .error .malformed

def field {α : Type} (before : Option α) (read : List Char → Read α) (s : List Char) : Read α :=
  if before.isSome then .error .mismatched else (afterColon s).bind read

def readField (p : Partial) (key : String) (s : List Char) : Read Partial :=
  match key with
  | "token" => (field p.token readText s).map fun (t, r) => ({ p with token := some t }, r)
  | "trade_id" => (field p.tradeId readText s).map fun (t, r) => ({ p with tradeId := some t }, r)
  | "start_block" =>
    (field p.startBlock readBlock s).map fun (b, r) => ({ p with startBlock := some b }, r)
  | _ => ((afterColon s).bind passValue).map fun r => (p, r)

def readMembers : Nat → Partial → List Char → Read AuditParams
  | 0, _, _ => .error .malformed
  | fuel + 1, p, s =>
    match Json.skipSpace s with
    | '"' :: r =>
      match Json.readString r with
      | some (some key, r) =>
        match readField p key r with
        | .error e => .error e
        | .ok (p, r) =>
          match Json.skipSpace r with
          | ',' :: r => readMembers fuel p r
          | '}' :: r => p.complete.map fun a => (a, r)
          | _ => .error .malformed
      | _ => .error .malformed
    | _ => .error .malformed

inductive Next where
  | item (s : List Char)
  | done (s : List Char)

def next (s : List Char) : Except BodyFault Next :=
  match Json.skipSpace s with
  | ',' :: r =>
    match Json.skipSpace r with
    | ']' :: _ => .error .malformed
    | r => .ok (.item r)
  | ']' :: r => .ok (.done r)
  | _ => .error .malformed

def readList (s : List Char) : Except BodyFault (AuditParams × List Char) := do
  match Json.skipSpace s with
  | ']' :: _ => throw .mismatched
  | s =>
    let (token, s) ← readText s
    match ← next s with
    | .done _ => throw .mismatched
    | .item s =>
      let (tradeId, s) ← readText s
      match ← next s with
      | .done r => return (⟨token, tradeId, 0⟩, r)
      | .item s =>
        let (block, s) ← readBlock s
        match Json.skipSpace s with
        | ']' :: r => return (⟨token, tradeId, block⟩, r)
        | _ => throw .malformed

def readRecord (s : List Char) : Read AuditParams :=
  match Json.skipSpace s with
  | '{' :: r =>
    match Json.skipSpace r with
    | '}' :: _ => .error .mismatched
    | r => readMembers (r.length + 1) ⟨none, none, none⟩ r
  | '[' :: r => readList r
  | r => .error (wrongKind r)

def ofBody (body : String) : Except BodyFault AuditParams := do
  let (p, rest) ← readRecord body.toList
  if (Json.skipSpace rest).isEmpty then return p else throw .malformed

end AuditParams

end TokenAudit
