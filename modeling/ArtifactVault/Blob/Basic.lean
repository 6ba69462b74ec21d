import ArtifactVault.Abort

/-!
Blobs: byte buffers with a store that is owned or borrowed, a live front part, a reading cursor and
a mark for text of the general formatter. Bytes past the live part are stale but stay in the model,
since growing can bring them back. `content` is the view everything else is stated through.
-/
namespace ArtifactVault

inductive Ownership
  | owned
  | borrowed
  deriving DecidableEq, Repr

def Ownership.label : Ownership → String
  | .owned => "Owned"
  | .borrowed => "Borrowed"

structure Blob where
  store : Bytes
  ownership : Ownership
  used : Nat
  cursor : Nat
  formatted : Bool
  deriving DecidableEq, Repr

namespace Blob

def empty : Blob := ⟨[0], .borrowed, 0, 0, false⟩

instance : Inhabited Blob := ⟨empty⟩

def capacity (b : Blob) : Nat := b.store.length

def content (b : Blob) : Bytes := b.store.take b.used

def isEmpty (b : Blob) : Bool := b.used = 0

def isPureSql (b : Blob) : Bool := !b.formatted

def isReset (b : Blob) : Bool :=
  b.used = 0 && b.cursor = 0 && b.ownership = .borrowed && b.store = [0]

structure WellFormed (b : Blob) : Prop where
  used_le : b.used ≤ b.capacity
  cursor_le : b.cursor ≤ b.used
  capacity_lt : b.capacity < sizeCeiling

def ofBytes (bytes : Bytes) : Except Abort Blob := do
  if bytes.isEmpty then return empty
  checkCeiling bytes.length .ofBytes
  return ⟨bytes, .owned, bytes.length, 0, false⟩

def borrow (bytes : Bytes) : Except Abort Blob := do
  checkCeiling bytes.length .borrow
  return ⟨bytes, .borrowed, bytes.length, 0, false⟩

def borrowUntilNul (bytes : Bytes) : Except Abort Blob :=
  borrow (bytes.takeWhile (· ≠ 0))

def setUsed (b : Blob) (n : Nat) : Blob := { b with used := n, cursor := min b.cursor n }

def overwrite (store : Bytes) (start : Nat) (bytes : Bytes) : Except Abort Bytes :=
  if start + bytes.length ≤ store.length then
    .ok (store.take start ++ bytes ++ store.drop (start + bytes.length))
  else .error .outOfRange

def write (b : Blob) (start : Nat) (bytes : Bytes) : Except Abort Blob :=
  match b.ownership with
  | .borrowed => .error .borrowedWrite
  | .owned => do
    let store ← overwrite b.store start bytes
    return { b with store }

def terminate (b : Blob) : Except Abort Blob := b.write b.used [0]

def lossyText (b : Blob) : String := Utf8.lossy b.content

end Blob

end ArtifactVault
