import ArtifactVault.Deflate.Decode
import ArtifactVault.Deflate.Encode

/-!
The frame around a compressed stream: two bytes that name the method, the stream, and the Adler-32
sum of the content. Whatever follows the sum is not looked at.
-/
namespace ArtifactVault.Zlib

def addByte (sums : Nat × Nat) (byte : UInt8) : Nat × Nat :=
  let low := (sums.1 + byte.toNat) % 65521
  (low, (sums.2 + low) % 65521)

def adler32 (bytes : Bytes) : Nat :=
  let sums := bytes.foldl addByte (1, 0)
  sums.2 * 65536 + sums.1

def word (n : Nat) : Bytes :=
  [UInt8.ofNat (n / 16777216), UInt8.ofNat (n / 65536), UInt8.ofNat (n / 256), UInt8.ofNat n]

def ofWord (b0 b1 b2 b3 : UInt8) : Nat :=
  b0.toNat * 16777216 + b1.toNat * 65536 + b2.toNat * 256 + b3.toNat

def header : Bytes := [0x78, 0xda]

def validHeader (method flags : UInt8) : Bool :=
  method.toNat % 16 = 8 && method.toNat / 16 ≤ 7 && flags.toNat / 32 % 2 = 0 &&
    (method.toNat * 256 + flags.toNat) % 31 = 0

def encode (bytes : Bytes) : Bytes :=
  header ++ Bits.pack (Deflate.encode bytes) ++ word (adler32 bytes)

class Encoder where
  encode : List Bytes → Bytes

instance fixedEncoder : Encoder := ⟨fun parts => encode parts.flatten⟩

inductive Reading
  | complete (content : Bytes)
  | truncated (content : Bytes)
  | corrupt (content : Bytes)
  deriving DecidableEq, Repr

def checkSum (content : Bytes) (bits : Bits) : Reading :=
  match Deflate.fields 8 4 (Bits.align bits) with
  | .ok ([b0, b1, b2, b3], _) =>
    if b0 * 16777216 + b1 * 65536 + b2 * 256 + b3 = adler32 content then .complete content
    else .corrupt content
  | _ => .truncated content

def decode : Bytes → Reading
  | method :: flags :: rest =>
    if validHeader method flags then
      match Deflate.decode (Bits.ofBytes rest) with
      | .ok p => checkSum p.output.toList p.bits
      | .error ⟨.corrupt, output⟩ => .corrupt output.toList
      | .error ⟨.truncated, output⟩ => .truncated output.toList
    else .corrupt []
  | _ => .truncated []

/-- What callers rely on: a stream reads back as the parts it was made of, in a row. -/
class LawfulEncoder [Encoder] : Prop where
  decode_encode : ∀ parts, decode (Encoder.encode parts) = .complete parts.flatten

end ArtifactVault.Zlib
