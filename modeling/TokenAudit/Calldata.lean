import TokenAudit.Error

/-! Fixed-width calldata: a four-byte selector and 32-byte big-endian words. -/

namespace TokenAudit.Calldata

def selectorLength : Nat := 4

def wordLength : Nat := 32

def reportLength : Nat := 2 * wordLength

def verdictLength : Nat := selectorLength + reportLength

def requestAuditSignature : String := "requestAudit(address)"

def triggerSwapSignature : String := "triggerSwap(address,uint256,uint256)"

def clearanceUpdatedSignature : String := "ClearanceUpdated(address,bool)"

def clearanceDeniedSignature : String := "ClearanceDenied(address,uint256)"

def selector (signature : String) : Bytes := (signatureDigest signature).take selectorLength

def eventTopic (signature : String) : Hash := Hash.ofBytes (signatureDigest signature)

def addressWord (a : Address) : Bytes := Word.bigEndian wordLength a.value.toNat

def addressTopic (a : Address) : Hash := Hash.ofBytes (addressWord a)

def requestAudit (token : Address) : Bytes := selector requestAuditSignature ++ addressWord token

def triggerSwap (token : Address) (amountIn amountOutMin : Uint256) : Bytes :=
  selector triggerSwapSignature ++ addressWord token ++ amountIn.bytes ++ amountOutMin.bytes

inductive Protocol where
  | v1
  deriving DecidableEq, Repr

namespace Protocol

def signature : Protocol → String
  | v1 => "onReportDirect(uint256,uint256)"

def selector (p : Protocol) : Bytes := Calldata.selector p.signature

end Protocol

def encodeReport (tradeId : Uint256) (score : UInt8) : Bytes :=
  tradeId.bytes ++ Word.bigEndian wordLength score.toNat

def encode (p : Protocol) (tradeId : Uint256) (score : UInt8) : Bytes :=
  p.selector ++ encodeReport tradeId score

def decodeReport (body : Bytes) : Except CalldataError (Uint256 × UInt8) :=
  if body.length ≠ reportLength then .error (.length reportLength body.length)
  else
    let score := Word.ofBytes (body.drop wordLength)
    if score < 256 then .ok (Uint256.ofBytes (body.take wordLength), UInt8.ofNat score)
    else .error (.scoreOutOfRange (String.ofList (Numeral.decimal score)))

/-- Length, selector and score are checked in this order. -/
def decode (p : Protocol) (calldata : Bytes) : Except CalldataError (Uint256 × UInt8) :=
  if calldata.length ≠ verdictLength then .error (.length verdictLength calldata.length)
  else if calldata.take selectorLength ≠ p.selector then
    .error (.selector (calldata.take selectorLength))
  else decodeReport (calldata.drop selectorLength)

def parseTradeId (raw : String) : Except CalldataError Uint256 :=
  let text := Text.trim raw.toList
  if text.isEmpty ∨ text.head? = some '-' then .error (.tradeIdOutOfRange raw)
  else
    match Uint256.read? text with
    | some tradeId => .ok tradeId
    | none => .error (.tradeIdOutOfRange raw)

def encodeChecked (p : Protocol) (tradeId : String) (score : Int) :
    Except CalldataError Bytes :=
  match parseTradeId tradeId with
  | .error e => .error e
  | .ok tradeId =>
    if 0 ≤ score ∧ score ≤ 255 then .ok (encode p tradeId (UInt8.ofNat score.toNat))
    else .error (.scoreOutOfRange (Numeral.intText score))

def toHex (bs : Bytes) : String := String.ofList (Hex.encodePrefixed bs)

def fromHex (raw : String) : Except CalldataError Bytes := (Hex.decode raw).mapError .hex

end TokenAudit.Calldata
