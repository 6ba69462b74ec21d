import ArtifactVault.Byte

/-!
Bit strings. A byte gives its bits least significant first, and so does a number field; the bits of
a code are taken as they come.
-/
namespace ArtifactVault

abbrev Bits := List Bool

namespace Bits

def ofNat : Nat → Nat → Bits
  | 0, _ => []
  | width + 1, n => (n % 2 == 1) :: ofNat width (n / 2)

def toNat : Bits → Nat
  | [] => 0
  | bit :: bits => bit.toNat + 2 * toNat bits

def ofBytes (bytes : Bytes) : Bits := bytes.flatMap fun b => ofNat 8 b.toNat

def packOnto (packed : Bytes) : Bits → Bytes
  | [] => packed
  | bit :: bits =>
    packOnto (UInt8.ofNat (toNat (bit :: bits.take 7)) :: packed) (bits.drop 7)
  termination_by bits => bits.length
  decreasing_by simp only [List.length_drop, List.length_cons]; omega

def pack (bits : Bits) : Bytes := (packOnto [] bits).reverse

def align (bits : Bits) : Bits := bits.drop (bits.length % 8)

def field? : Nat → Bits → Option (Nat × Bits)
  | 0, bits => some (0, bits)
  | _ + 1, [] => none
  | width + 1, bit :: bits =>
    match field? width bits with
    | some (n, rest) => some (bit.toNat + 2 * n, rest)
    | none => none

end Bits

end ArtifactVault
