import TokenAudit.Hex
import TokenAudit.Keccak

/-! Texts of addresses and hashes; the mixed-case form of an address carries a checksum. -/

namespace TokenAudit

namespace Address

def hex (a : Address) : String := String.ofList (Hex.encodePrefixed a.bytes)

def checksummed (a : Address) : String :=
  let digits := Hex.encode a.bytes
  let marks := (Hex.encode (keccak256 (Text.bytes digits))).map fun c =>
    decide (8 ≤ (Numeral.digitValue? c).getD 0)
  String.ofList ('0' :: 'x' ::
    List.zipWith (fun c mark => if mark then c.toUpper else c) digits marks)

def parse (s : String) : Except HexFault Address := (Hex.decodeSized 20 s).map ofBytes

end Address

namespace Hash

def hex (h : Hash) : String := String.ofList (Hex.encodePrefixed h.bytes)

def parse (s : String) : Except HexFault Hash := (Hex.decodeSized 32 s).map ofBytes

end Hash

namespace Uint256

def decimal (x : Uint256) : String := String.ofList (Numeral.decimal x.toNat)

def hex (x : Uint256) : String := String.ofList (Numeral.quantity x.toNat)

def read? (s : List Char) : Option Uint256 :=
  (Numeral.readUnsigned Uint256.size s).map (BitVec.ofNat 256)

end Uint256

end TokenAudit
