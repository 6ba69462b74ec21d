import ArtifactVault.Text.Utf8

/-!
UTF-16 with the least significant byte first. A surrogate that is not part of a pair becomes
U+FFFD; `encode` is the other side.
-/
namespace ArtifactVault.Utf16

def units : Bytes → List Nat
  | low :: high :: rest => (low.toNat + 256 * high.toNat) :: units rest
  | _ => []

def isHigh (u : Nat) : Bool := 0xd800 ≤ u && u ≤ 0xdbff

def isLow (u : Nat) : Bool := 0xdc00 ≤ u && u ≤ 0xdfff

def paired (high low : Nat) : Char := Char.ofNat (0x10000 + (high - 0xd800) * 1024 + (low - 0xdc00))

def readOnto (read : List Char) : List Nat → List Char
  | [] => read
  | u :: rest =>
    if isHigh u then
      match rest with
      | v :: tail =>
        if isLow v then readOnto (paired u v :: read) tail
        else readOnto ('\uFFFD' :: read) (v :: tail)
      | [] => '\uFFFD' :: read
    else if isLow u then readOnto ('\uFFFD' :: read) rest
    else readOnto (Char.ofNat u :: read) rest
  termination_by us => us.length

def decode (us : List Nat) : List Char := (readOnto [] us).reverse

def encodeChar (c : Char) : List Nat :=
  if c.toNat < 0x10000 then [c.toNat]
  else [0xd800 + (c.toNat - 0x10000) / 1024, 0xdc00 + (c.toNat - 0x10000) % 1024]

def encode (cs : List Char) : List Nat := cs.flatMap encodeChar

def toBytes (reversed : Bool) (us : List Nat) : Bytes :=
  us.flatMap fun u =>
    let low := UInt8.ofNat (u % 256)
    let high := UInt8.ofNat (u / 256)
    if reversed then [high, low] else [low, high]

def toUtf8 (bytes : Bytes) : Bytes := Utf8.encode (decode (units bytes))

def markReversed? (bytes : Bytes) : Option Bool :=
  if bytes.length % 2 = 1 then none
  else match bytes with
    | 0xff :: 0xfe :: _ => some false
    | 0xfe :: 0xff :: _ => some true
    | _ => none

def swapBytes : Bytes → Bytes
  | a :: b :: rest => b :: a :: swapBytes rest
  | rest => rest

end ArtifactVault.Utf16
