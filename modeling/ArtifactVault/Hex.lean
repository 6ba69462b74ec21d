import ArtifactVault.Byte

/-!
Hexadecimal names of byte strings: written in lower case, read in either case, two digits a byte.
-/
namespace ArtifactVault.Hex

def digit (n : Nat) : Char :=
  if n < 10 then Char.ofNat (0x30 + n) else Char.ofNat (0x57 + n)

def encodeChars (bs : Bytes) : List Char :=
  bs.flatMap fun b => [digit (b.toNat / 16), digit (b.toNat % 16)]

def encode (bs : Bytes) : String := String.ofList (encodeChars bs)

def value? (b : UInt8) : Option Nat :=
  if 0x30 ≤ b ∧ b ≤ 0x39 then some (b.toNat - 0x30)
  else if 0x61 ≤ b ∧ b ≤ 0x66 then some (b.toNat - 0x57)
  else if 0x41 ≤ b ∧ b ≤ 0x46 then some (b.toNat - 0x37)
  else none

inductive Fault
  | notADigit (byte : UInt8) (position : Nat)
  | oddLength
  deriving DecidableEq, Repr

def decodeFrom (position : Nat) : Bytes → Except Fault Bytes
  | [] => .ok []
  | [_] => .error .oddLength
  | high :: low :: rest =>
    match value? high, value? low with
    | none, _ => .error (.notADigit high position)
    | some _, none => .error (.notADigit low (position + 1))
    | some h, some l => do
      let bs ← decodeFrom (position + 2) rest
      return UInt8.ofNat (16 * h + l) :: bs

def decode (text : Bytes) : Except Fault Bytes := decodeFrom 0 text

end ArtifactVault.Hex
