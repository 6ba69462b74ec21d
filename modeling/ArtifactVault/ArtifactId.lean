import ArtifactVault.Digest.Sha1
import ArtifactVault.Digest.Sha3
import ArtifactVault.Hex
import ArtifactVault.Text.Json
import ArtifactVault.Text.Quoted

/-!
Names of artifacts. An id is the digest of a content under one of two algorithms; the length of its
hex name tells the algorithm, so a name carries no other mark.
-/
namespace ArtifactVault

inductive Algorithm
  | sha1
  | sha3
  deriving DecidableEq, Repr

namespace Algorithm

def standard : Algorithm := .sha3

instance : Inhabited Algorithm := ⟨standard⟩

def all : List Algorithm := [.sha1, .sha3]

def digestLength : Algorithm → Nat
  | .sha1 => 20
  | .sha3 => 32

def hexLength (a : Algorithm) : Nat := a.digestLength * 2

def ofHexLength? (n : Nat) : Option Algorithm :=
  all.find? (·.hexLength = n)

def name : Algorithm → String
  | .sha1 => "sha1"
  | .sha3 => "sha3-256"

def ofName? (s : String) : Option Algorithm := all.find? (·.name = s)

def json (a : Algorithm) : String := Json.quote a.name

def ofJson? (text : String) : Option Algorithm := (Json.readName? text).bind ofName?

def label : Algorithm → String
  | .sha1 => "Sha1"
  | .sha3 => "Sha3_256"

def digest : Algorithm → Bytes → Bytes
  | .sha1, content => Sha1.digest content
  | .sha3, content => Sha3.digest content

theorem length_digest (a : Algorithm) (content : Bytes) :
    (a.digest content).length = a.digestLength := by
  cases a with
  | sha1 => exact Sha1.length_digest content
  | sha3 => exact Sha3.length_digest content

def rank : Algorithm → Nat
  | .sha1 => 0
  | .sha3 => 1

end Algorithm

def hashNameAlgorithm? (name : Bytes) : Option Algorithm :=
  match Algorithm.ofHexLength? name.length with
  | some a => if name.all Byte.isHexDigit then some a else none
  | none => none

inductive NameError
  | badDigit (byte : UInt8) (position : Nat)
  | oddDigits
  | wrongLength (expected actual : Nat)
  | unknownLength (digits : Nat)
  deriving DecidableEq, Repr

def NameError.message : NameError → String
  | .badDigit byte position =>
    let shown := Quoted.char (Char.ofNat byte.toNat)
    s!"invalid hex string: Invalid character {shown} at position {position}"
  | .oddDigits => "invalid hex string: Odd number of digits"
  | .wrongLength expected actual => s!"invalid byte length: expected {expected}, got {actual}"
  | .unknownLength digits => s!"{digits} hex digits does not name any supported hash algorithm"

def idSlots : Nat := 32

theorem Algorithm.digestLength_le (a : Algorithm) : a.digestLength ≤ idSlots := by
  cases a <;> decide

/-- A digest shorter than the slots stands in front, and what is left stays zero. -/
structure ArtifactId where
  algorithm : Algorithm
  slots : Bytes
  length_slots : slots.length = idSlots
  zero_tail : slots.drop algorithm.digestLength =
    List.replicate (idSlots - algorithm.digestLength) 0
  deriving DecidableEq, Repr

namespace ArtifactId

def ofRaw (a : Algorithm) (raw : Bytes) (sized : raw.length = a.digestLength) : ArtifactId where
  algorithm := a
  slots := raw ++ List.replicate (idSlots - raw.length) 0
  length_slots := by
    have fits := a.digestLength_le
    rw [List.length_append, List.length_replicate]
    omega
  zero_tail := by rw [← sized, List.drop_left]

def digest (id : ArtifactId) : Bytes := id.slots.take id.algorithm.digestLength

def compute (a : Algorithm) (content : Bytes) : ArtifactId :=
  ofRaw a (a.digest content) (a.length_digest content)

def ofDigest (a : Algorithm) (raw : Bytes) : Except NameError ArtifactId :=
  if h : raw.length = a.digestLength then .ok (ofRaw a raw h)
  else .error (.wrongLength a.digestLength raw.length)

def ofHex (name : Bytes) : Except NameError ArtifactId :=
  match Algorithm.ofHexLength? name.length with
  | none => .error (.unknownLength name.length)
  | some a =>
    match Hex.decode name with
    | .ok raw => ofDigest a raw
    | .error (.notADigit byte position) => .error (.badDigit byte position)
    | .error .oddLength => .error .oddDigits

def hex (id : ArtifactId) : String := Hex.encode id.digest

def shortHex (id : ArtifactId) : String := Hex.encode (id.slots.take 5)

def json (id : ArtifactId) : String := Json.quote id.hex

def ofJson? (text : String) : Option ArtifactId := do
  (ofHex (Utf8.ofString (← Json.readString? text))).toOption

def verifies (id : ArtifactId) (content : Bytes) : Bool := compute id.algorithm content = id

def debugText (id : ArtifactId) : String := s!"ArtifactId({id.algorithm.name}:{id.shortHex})"

def compare (x y : ArtifactId) : Ordering :=
  if x.algorithm.rank < y.algorithm.rank then .lt
  else if y.algorithm.rank < x.algorithm.rank then .gt
  else Bytes.order x.slots y.slots

def sort (ids : List ArtifactId) : List ArtifactId :=
  ids.mergeSort fun x y => (compare x y).isLE

end ArtifactId

end ArtifactVault
