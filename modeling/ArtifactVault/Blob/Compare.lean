import ArtifactVault.ArtifactId
import ArtifactVault.Blob.Basic

/-!
Comparing and inspecting blobs. Everything here looks at live bytes only, so storage, cursor and
mark make no difference.
-/
namespace ArtifactVault.Blob

def compare (a b : Blob) : Ordering :=
  let n := min a.content.length b.content.length
  match Bytes.order (a.content.take n) (b.content.take n) with
  | .eq => Ord.compare a.content.length b.content.length
  | unequal => unequal

def equals (a b : Blob) : Bool := a.content = b.content

def equalsBytes (b : Blob) (bytes : Bytes) : Bool := b.content = bytes

/-- Equality that visits every byte: the bits in which two contents differ are gathered. Contents
of different length, and empty ones, are unequal. -/
def constantTimeEquals (a b : Blob) : Bool :=
  if a.content.length ≠ b.content.length ∨ a.content.isEmpty then false
  else (List.zipWith (· ^^^ ·) a.content b.content).foldl (· ||| ·) 0 = 0

def contentHash (b : Blob) : UInt64 := hash b.content

def lineCount (b : Blob) : Nat :=
  let newlines := b.content.count 0x0a
  match b.content.getLast? with
  | some last => if last = 0x0a then newlines else newlines + 1
  | none => newlines

def hashNameAlgorithm? (b : Blob) : Option Algorithm := ArtifactVault.hashNameAlgorithm? b.content

def decimal (digits : Bytes) : Nat := digits.foldl (fun n d => 10 * n + (d.toNat - 0x30)) 0

def splitSign : Bytes → Bool × Bytes
  | 0x2d :: rest => (true, rest)
  | 0x2b :: rest => (false, rest)
  | digits => (false, digits)

def parseInt (b : Blob) : Option Int64 :=
  let (negative, digits) := splitSign b.content
  if digits.isEmpty || !digits.all Byte.isDigit then none
  else
    let magnitude := decimal digits
    if negative then
      if magnitude ≤ Int64.size / 2 then some (Int64.ofInt (-magnitude)) else none
    else
      if magnitude < Int64.size / 2 then some (Int64.ofInt magnitude) else none

def debugText (b : Blob) : String :=
  s!"Blob \x7b len: {b.used}, capacity: {b.capacity}, cursor: {b.cursor}, " ++
    s!"strategy: {b.ownership.label}, content: {Quoted.string b.lossyText} \x7d"

end ArtifactVault.Blob
