import ArtifactVault.Deflate.Alphabet

/-!
Decoding. The output is an array that copies reach back into; a stream that stops early keeps the
output made so far. Rounds are counted, since every round takes a bit from the input: a count of
one more than the bits left is never used up.
-/
namespace ArtifactVault.Deflate

structure Stop where
  fault : Fault
  output : Array UInt8
  deriving DecidableEq, Repr

structure Progress where
  output : Array UInt8
  bits : Bits
  deriving DecidableEq, Repr

def orStop {α : Type} (output : Array UInt8) : Except Fault α → Except Stop α
  | .ok value => .ok value
  | .error fault => .error ⟨fault, output⟩

def field (width : Nat) (bits : Bits) : Except Fault (Nat × Bits) :=
  match Bits.field? width bits with
  | some found => .ok found
  | none => .error .truncated

def Span.read (span : Span) (bits : Bits) : Except Fault (Nat × Bits) := do
  let (extra, bits) ← field span.extraBits bits
  return (span.base + extra, bits)

def byteBack (distance : Nat) (output : Array UInt8) : UInt8 :=
  if output.size < distance then 0 else output.getD (output.size - distance) 0

def copyBack (distance : Nat) : Nat → Array UInt8 → Array UInt8
  | 0, output => output
  | length + 1, output => copyBack distance length (output.push (byteBack distance output))

def copyFrom (codes : Codes) (lengths : Span) (p : Progress) : Except Stop Progress := do
  let (length, bits) ← orStop p.output (lengths.read p.bits)
  let (symbol, bits) ← orStop p.output (codes.distances.read bits)
  match distanceSpans[symbol]? with
  | none => throw ⟨.corrupt, p.output⟩
  | some distances =>
    let (distance, bits) ← orStop p.output (distances.read bits)
    return ⟨copyBack distance length p.output, bits⟩

inductive Meaning
  | byte (b : UInt8)
  | finish
  | copy (lengths : Span)
  | nothing
  deriving DecidableEq, Repr

def meaning (symbol : Nat) : Meaning :=
  if symbol < endOfBlock then .byte (UInt8.ofNat symbol)
  else if symbol = endOfBlock then .finish
  else
    match lengthSpans[symbol - firstLength]? with
    | some lengths => .copy lengths
    | none => .nothing

def symbols (codes : Codes) : Nat → Progress → Except Stop Progress
  | 0, p => .error ⟨.truncated, p.output⟩
  | rounds + 1, p =>
    match codes.lengths.read p.bits with
    | .error fault => .error ⟨fault, p.output⟩
    | .ok (symbol, bits) =>
      match meaning symbol with
      | .byte b => symbols codes rounds ⟨p.output.push b, bits⟩
      | .finish => .ok ⟨p.output, bits⟩
      | .copy lengths =>
        match copyFrom codes lengths ⟨p.output, bits⟩ with
        | .error stop => .error stop
        | .ok p => symbols codes rounds p
      | .nothing => .error ⟨.corrupt, p.output⟩

def copyStored : Nat → Progress → Except Stop Progress
  | 0, p => .ok p
  | count + 1, p =>
    match field 8 p.bits with
    | .error fault => .error ⟨fault, p.output⟩
    | .ok (byte, bits) => copyStored count ⟨p.output.push (UInt8.ofNat byte), bits⟩

def stored (p : Progress) : Except Stop Progress := do
  let (count, bits) ← orStop p.output (field 16 (Bits.align p.bits))
  let (complement, bits) ← orStop p.output (field 16 bits)
  if count + complement ≠ 0xffff then throw ⟨.corrupt, p.output⟩
  copyStored count ⟨p.output, bits⟩

def descriptionOrder : List Nat :=
  [16, 17, 18, 0, 8, 7, 9, 6, 10, 5, 11, 4, 12, 3, 13, 2, 14, 1, 15]

def fields (width : Nat) : Nat → Bits → Except Fault (List Nat × Bits)
  | 0, bits => .ok ([], bits)
  | count + 1, bits => do
    let (n, bits) ← field width bits
    let (ns, bits) ← fields width count bits
    return (n :: ns, bits)

def repeatSpan (symbol : Nat) : Span :=
  if symbol = 16 then ⟨3, 2⟩ else if symbol = 17 then ⟨3, 3⟩ else ⟨11, 7⟩

def wordLengths (tree : CodeTree) (wanted : Nat) :
    Nat → Array Nat → Bits → Except Fault (Array Nat × Bits)
  | 0, _, _ => .error .corrupt
  | rounds + 1, lengths, bits =>
    if lengths.size = wanted then .ok (lengths, bits)
    else if wanted < lengths.size then .error .corrupt
    else
      match tree.read bits with
      | .error fault => .error fault
      | .ok (symbol, bits) =>
        if symbol < 16 then wordLengths tree wanted rounds (lengths.push symbol) bits
        else if symbol = 16 ∧ lengths.isEmpty then .error .corrupt
        else
          match (repeatSpan symbol).read bits with
          | .error fault => .error fault
          | .ok (count, bits) =>
            let length := if symbol = 16 then lengths.getD (lengths.size - 1) 0 else 0
            wordLengths tree wanted rounds (lengths ++ Array.replicate count length) bits

def orCorrupt : Option CodeTree → Except Fault CodeTree
  | some tree => .ok tree
  | none => .error .corrupt

def description (bits : Bits) : Except Fault (Codes × Bits) := do
  let (lengthExtra, bits) ← field 5 bits
  let (distanceExtra, bits) ← field 5 bits
  let (orderExtra, bits) ← field 4 bits
  let lengthCount := firstLength + lengthExtra
  let distanceCount := 1 + distanceExtra
  if 286 < lengthCount ∨ 30 < distanceCount then throw .corrupt
  let (given, bits) ← fields 3 (4 + orderExtra) bits
  let described := (List.range 19).map fun symbol =>
    ((descriptionOrder.zip given).lookup symbol).getD 0
  let tree ← orCorrupt (CodeTree.complete? described)
  let wanted := lengthCount + distanceCount
  let (lengths, bits) ← wordLengths tree wanted (wanted + 2) #[] bits
  let distances ← orCorrupt (CodeTree.usable? (lengths.toList.drop lengthCount))
  let lengths ← orCorrupt (CodeTree.usable? (lengths.toList.take lengthCount))
  return (⟨lengths, distances⟩, bits)

def block (kind rounds : Nat) (p : Progress) : Except Stop Progress :=
  match kind with
  | 0 => stored p
  | 1 => symbols .fixed rounds p
  | 2 => do
    let (codes, bits) ← orStop p.output (description p.bits)
    symbols codes rounds ⟨p.output, bits⟩
  | _ => .error ⟨.corrupt, p.output⟩

def blocks : Nat → Progress → Except Stop Progress
  | 0, p => .error ⟨.truncated, p.output⟩
  | rounds + 1, p =>
    match field 1 p.bits with
    | .error fault => .error ⟨fault, p.output⟩
    | .ok (last, bits) =>
      match field 2 bits with
      | .error fault => .error ⟨fault, p.output⟩
      | .ok (kind, bits) =>
        match block kind (rounds + 1) ⟨p.output, bits⟩ with
        | .error stop => .error stop
        | .ok p => if last = 1 then .ok p else blocks rounds p

def decode (bits : Bits) : Except Stop Progress := blocks (bits.length + 1) ⟨#[], bits⟩

end ArtifactVault.Deflate
