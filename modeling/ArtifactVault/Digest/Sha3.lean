import ArtifactVault.Byte

/-!
SHA3-256: a sponge of twenty-five 64-bit lanes, 136 of whose 200 bytes take in message and give
out digest. Lane (x, y) stands at index 5y + x.
-/
namespace ArtifactVault.Sha3

abbrev Lanes := Array UInt64

def lane (s : Lanes) (x y : Nat) : UInt64 := s.getD (5 * (y % 5) + x % 5) 0

def ofLanes (f : Nat → Nat → UInt64) : Lanes :=
  ((List.range 25).map fun i => f (i % 5) (i / 5)).toArray

def rotateLeft (x : UInt64) (n : Nat) : UInt64 :=
  if n % 64 = 0 then x else (x <<< UInt64.ofNat (n % 64)) ||| (x >>> UInt64.ofNat (64 - n % 64))

def theta (s : Lanes) : Lanes :=
  let column := ((List.range 5).map fun x =>
    lane s x 0 ^^^ lane s x 1 ^^^ lane s x 2 ^^^ lane s x 3 ^^^ lane s x 4).toArray
  ofLanes fun x y =>
    lane s x y ^^^ column.getD ((x + 4) % 5) 0 ^^^ rotateLeft (column.getD ((x + 1) % 5) 0) 1

def offsets : Array Nat :=
  #[0, 1, 62, 28, 27,
    36, 44, 6, 55, 20,
    3, 10, 43, 25, 39,
    41, 45, 15, 21, 8,
    18, 2, 61, 56, 14]

def rhoPi (s : Lanes) : Lanes :=
  ofLanes fun x y =>
    let source := (x + 3 * y) % 5
    rotateLeft (lane s source x) (offsets.getD (5 * x + source) 0)

def chi (s : Lanes) : Lanes :=
  ofLanes fun x y => lane s x y ^^^ (~~~(lane s (x + 1) y) &&& lane s (x + 2) y)

def roundConstants : List UInt64 :=
  [0x0000000000000001, 0x0000000000008082, 0x800000000000808a, 0x8000000080008000,
    0x000000000000808b, 0x0000000080000001, 0x8000000080008081, 0x8000000000008009,
    0x000000000000008a, 0x0000000000000088, 0x0000000080008009, 0x000000008000000a,
    0x000000008000808b, 0x800000000000008b, 0x8000000000008089, 0x8000000000008003,
    0x8000000000008002, 0x8000000000000080, 0x000000000000800a, 0x800000008000000a,
    0x8000000080008081, 0x8000000000008080, 0x0000000080000001, 0x8000000080008008]

def round (s : Lanes) (constant : UInt64) : Lanes :=
  (chi (rhoPi (theta s))).modify 0 (· ^^^ constant)

def permute (s : Lanes) : Lanes := roundConstants.foldl round s

def laneBytes (w : UInt64) : Bytes :=
  (List.range 8).map fun i => (w >>> UInt64.ofNat (8 * i)).toUInt8

def laneOf (bs : Bytes) : UInt64 := bs.foldr (fun b w => w <<< 8 ||| b.toUInt64) 0

def rate : Nat := 136

def absorb (s : Lanes) (block : Bytes) : Lanes :=
  permute (ofLanes fun x y => lane s x y ^^^ laneOf ((block.drop (8 * (5 * y + x))).take 8))

def padded (message : Bytes) : Bytes :=
  let gap := rate - message.length % rate
  if gap = 1 then message ++ [0x86]
  else message ++ 0x06 :: List.replicate (gap - 2) 0 ++ [0x80]

def absorbBlocks : Nat → Bytes → Lanes → Lanes
  | 0, _, s => s
  | count + 1, bytes, s => absorbBlocks count (bytes.drop rate) (absorb s (bytes.take rate))

def digest (message : Bytes) : Bytes :=
  let text := padded message
  let s := absorbBlocks (text.length / rate) text (ofLanes fun _ _ => 0)
  (List.range 4).flatMap fun i => laneBytes (s.getD i 0)

theorem length_digest (message : Bytes) : (digest message).length = 32 := by
  have lanes (w : UInt64) : (laneBytes w).length = 8 := by simp [laneBytes]
  simp [digest, List.range, List.range.loop, lanes]

end ArtifactVault.Sha3
