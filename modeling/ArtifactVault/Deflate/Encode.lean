import ArtifactVault.Deflate.Alphabet

/-!
Encoding. The input is cut into tokens, bytes and copies of what stood before them, and the tokens
are written as one block with the fixed codes. A copy is taken only where the bytes have been
compared, so the choice of candidates cannot harm the result.
-/
namespace ArtifactVault.Deflate

inductive Token
  | byte (b : UInt8)
  | copy (length distance : Nat)
  deriving DecidableEq, Repr

def shortestCopy : Nat := 3

def longestCopy : Nat := 258

def window : Nat := 32768

def agreement (input : Array UInt8) (i j : Nat) : Nat → Nat
  | 0 => 0
  | limit + 1 =>
    match input[i]?, input[j]? with
    | some a, some b => if a = b then agreement input (i + 1) (j + 1) limit + 1 else 0
    | _, _ => 0

def keys : Nat := 16384

def keyAt (input : Array UInt8) (i : Nat) : Nat :=
  let byte := fun k => (input.getD (i + k) 0).toNat
  (byte 0 * 5281 + byte 1 * 337 + byte 2 * 31) % keys

def copyAt (input : Array UInt8) (i seen : Nat) : Option (Nat × Nat) :=
  if seen = 0 ∨ i < seen ∨ seen + window ≤ i then none
  else
    let length := agreement input (seen - 1) i longestCopy
    if shortestCopy ≤ length then some (length, i + 1 - seen) else none

def tokensOnto (input : Array UInt8) (tokens : List Token) (places : Array Nat) (covered : Nat) :
    Nat → List Token
  | 0 => tokens
  | left + 1 =>
    let i := input.size - (left + 1)
    let key := keyAt input i
    let seen := places.getD key 0
    let places := places.setIfInBounds key (i + 1)
    if 0 < covered then tokensOnto input tokens places (covered - 1) left
    else
      match copyAt input i seen with
      | some (length, distance) =>
        tokensOnto input (.copy length distance :: tokens) places (length - 1) left
      | none => tokensOnto input (.byte (input.getD i 0) :: tokens) places 0 left

def tokenize (input : Array UInt8) : List Token :=
  (tokensOnto input [] (Array.replicate keys 0) 0 input.size).reverse

def spanOf (spans : List Span) (n : Nat) : Nat × Span :=
  let index := (spans.takeWhile (·.base ≤ n)).length - 1
  (index, spans.getD index ⟨0, 0⟩)

def wordTable (tree : CodeTree) (count : Nat) : Array Bits :=
  ((List.range count).map tree.word).toArray

structure WordTables where
  lengths : Array Bits
  distances : Array Bits

def WordTables.of (codes : Codes) : WordTables where
  lengths := wordTable codes.lengths 288
  distances := wordTable codes.distances 32

def Span.bits (span : Span) (n : Nat) : Bits := Bits.ofNat span.extraBits (n - span.base)

def tokenBits (tables : WordTables) : Token → Bits
  | .byte b => tables.lengths.getD b.toNat []
  | .copy length distance =>
    let (lengthIndex, lengthSpan) := spanOf lengthSpans length
    let (distanceIndex, distanceSpan) := spanOf distanceSpans distance
    tables.lengths.getD (firstLength + lengthIndex) [] ++ lengthSpan.bits length ++
      tables.distances.getD distanceIndex [] ++ distanceSpan.bits distance

def encodeTokens (tokens : List Token) : Bits :=
  let tables := WordTables.of .fixed
  Bits.ofNat 1 1 ++ Bits.ofNat 2 1 ++ tokens.flatMap (tokenBits tables) ++
    tables.lengths.getD endOfBlock []

def encode (bytes : Bytes) : Bits := encodeTokens (tokenize bytes.toArray)

end ArtifactVault.Deflate
