import TokenAudit.Text
import TokenAudit.Word

/-! The Keccak-256 digest. -/

namespace TokenAudit.Keccak

def roundConstants : List UInt64 :=
  [0x0000000000000001, 0x0000000000008082, 0x800000000000808a, 0x8000000080008000,
   0x000000000000808b, 0x0000000080000001, 0x8000000080008081, 0x8000000000008009,
   0x000000000000008a, 0x0000000000000088, 0x0000000080008009, 0x000000008000000a,
   0x000000008000808b, 0x800000000000008b, 0x8000000000008089, 0x8000000000008003,
   0x8000000000008002, 0x8000000000000080, 0x000000000000800a, 0x800000008000000a,
   0x8000000080008081, 0x8000000000008080, 0x0000000080000001, 0x8000000080008008]

def offsets : Array Nat :=
  #[0, 1, 62, 28, 27, 36, 44, 6, 55, 20, 3, 10, 43, 25, 39, 41, 45, 15, 21, 8, 18, 2, 61, 56, 14]

abbrev Lanes := Array UInt64

def lane (a : Lanes) (i : Nat) : UInt64 := a.getD i 0

def rotate (w : UInt64) (n : Nat) : UInt64 :=
  if n = 0 then w else (w <<< UInt64.ofNat n) ||| (w >>> UInt64.ofNat (64 - n))

def lanes (f : Nat → UInt64) : Lanes := ((List.range 25).map f).toArray

def theta (a : Lanes) : Lanes :=
  let column (x : Nat) : UInt64 :=
    lane a x ^^^ lane a (x + 5) ^^^ lane a (x + 10) ^^^ lane a (x + 15) ^^^ lane a (x + 20)
  let columns := ((List.range 5).map column).toArray
  lanes fun i =>
    lane a i ^^^ lane columns ((i + 4) % 5) ^^^ rotate (lane columns ((i + 1) % 5)) 1

def rhoPi (a : Lanes) : Lanes :=
  lanes fun i =>
    let x := i % 5
    let y := i / 5
    let from_ := (x + 3 * y) % 5 + 5 * x
    rotate (lane a from_) (offsets.getD from_ 0)

def chi (a : Lanes) : Lanes :=
  lanes fun i =>
    let row := i / 5 * 5
    lane a i ^^^ (~~~ lane a (row + (i + 1) % 5) &&& lane a (row + (i + 2) % 5))

def round (a : Lanes) (constant : UInt64) : Lanes :=
  let b := chi (rhoPi (theta a))
  b.setIfInBounds 0 (lane b 0 ^^^ constant)

def permute (a : Lanes) : Lanes := roundConstants.foldl round a

def rate : Nat := 136

def padded (message : Bytes) : Bytes :=
  let free := rate - message.length % rate
  if free = 1 then message ++ [0x81]
  else message ++ 0x01 :: List.replicate (free - 2) 0 ++ [0x80]

def littleEndian (bs : Bytes) : UInt64 :=
  bs.foldr (fun b n => (n <<< 8) ||| b.toUInt64) 0

def absorb (a : Lanes) (block : Array UInt8) (start : Nat) : Lanes :=
  permute (lanes fun i =>
    if i < rate / 8 then
      lane a i ^^^ littleEndian ((List.range 8).map fun k => block.getD (start + 8 * i + k) 0)
    else lane a i)

def digest (message : Bytes) : Bytes :=
  let text := (padded message).toArray
  let final := (List.range (text.size / rate)).foldl
    (fun a block => absorb a text (block * rate)) (lanes fun _ => 0)
  (List.range 32).map fun k => (lane final (k / 8) >>> UInt64.ofNat (8 * (k % 8))).toUInt8

end TokenAudit.Keccak

namespace TokenAudit

def keccak256 (message : Bytes) : Bytes := Keccak.digest message

def signatureDigest (signature : String) : Bytes := keccak256 (Text.bytes signature.toList)

end TokenAudit
