/-! Fixed-width words: bytes in big-endian order, unsigned 256-bit numbers, addresses, hashes. -/

namespace TokenAudit

abbrev Bytes := List UInt8

abbrev Uint256 := BitVec 256

structure Address where
  value : BitVec 160
  deriving DecidableEq

structure Hash where
  value : BitVec 256
  deriving DecidableEq

namespace Word

/-- The last `width` bytes of a number, the most significant first. -/
def bigEndian : Nat → Nat → Bytes
  | 0, _ => []
  | width + 1, n => UInt8.ofNat (n / Nat.pow 256 width) :: bigEndian width n

def ofBytes (bs : Bytes) : Nat := bs.foldl (fun n b => 256 * n + b.toNat) 0

end Word

def Uint256.size : Nat := Nat.pow 2 256

def Uint256.bytes (x : Uint256) : Bytes := Word.bigEndian 32 x.toNat

def Uint256.ofBytes (bs : Bytes) : Uint256 := BitVec.ofNat 256 (Word.ofBytes bs)

namespace Address

def zero : Address := ⟨0⟩

def bytes (a : Address) : Bytes := Word.bigEndian 20 a.value.toNat

def ofBytes (bs : Bytes) : Address := ⟨BitVec.ofNat 160 (Word.ofBytes bs)⟩

end Address

namespace Hash

def bytes (h : Hash) : Bytes := Word.bigEndian 32 h.value.toNat

def ofBytes (bs : Bytes) : Hash := ⟨BitVec.ofNat 256 (Word.ofBytes bs)⟩

end Hash

end TokenAudit
