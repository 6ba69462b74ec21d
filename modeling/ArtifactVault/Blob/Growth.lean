import ArtifactVault.Blob.Basic

/-!
How blobs grow and shrink. A borrowed store that has to change its size is copied into an owned one
for good; an owned store grows with zeros and shrinks only when that frees more than `shrinkSlack`
bytes. Every operation that writes owns its store first and leaves a zero byte past the live part.
-/
namespace ArtifactVault.Blob

def shrinkSlack : Nat := 4000

def appendPad : Nat := 100

def saturate (n : Nat) : Nat := min n (wordLimit - 1)

def resizedStore (b : Blob) (size : Nat) : Bytes :=
  match b.ownership with
  | .owned =>
    if b.capacity < size then b.store ++ List.replicate (size - b.capacity) 0
    else if size + shrinkSlack < b.capacity then b.store.take size
    else b.store
  | .borrowed =>
    let kept := b.content.take size
    kept ++ List.replicate (size - kept.length) 0

def reallocate (b : Blob) (size : Nat) : Blob :=
  if size = 0 then { b with store := [0], ownership := .borrowed, used := 0, cursor := 0 }
  else
    let resized := { b with store := b.resizedStore size, ownership := .owned }
    if resized.capacity < resized.used then resized.setUsed resized.capacity else resized

def growForAppend (b : Blob) (extra : Nat) : Except Abort Blob := do
  let needed := b.used + extra
  if wordLimit ≤ needed then throw .lengthOverflow
  if b.capacity ≤ needed ∨ b.ownership = .borrowed then
    let target := saturate (needed + b.capacity + appendPad)
    checkCeiling target .append
    return b.reallocate target
  else return b

def extend (b : Blob) (bytes : Bytes) : Except Abort Blob := do
  let written ← b.write b.used (bytes ++ [0])
  return { written with used := b.used + bytes.length }

def append (b : Blob) (bytes : Bytes) : Except Abort Blob := do
  (← b.growForAppend bytes.length).extend bytes

def appendByte (b : Blob) (byte : UInt8) : Except Abort Blob :=
  if b.ownership = .owned ∧ b.used + 1 < b.capacity then b.extend [byte] else b.append [byte]

def appendRepeat (b : Blob) (byte : UInt8) (count : Nat) : Except Abort Blob := do
  (← b.growForAppend count).extend (List.replicate count byte)

def slice (store : Bytes) (start stop : Nat) : Except Abort Bytes :=
  if start ≤ stop ∧ stop ≤ store.length then .ok ((store.take stop).drop start)
  else .error .outOfRange

def appendFromSelf (b : Blob) (start stop : Nat) : Except Abort Blob := do
  if stop < start ∨ b.used < stop then throw (.selfRange start stop b.used)
  let grown ← b.growForAppend (stop - start)
  grown.extend (← slice grown.store start stop)

def offer (b : Blob) (bytes : Bytes) : Except Abort (Nat × Blob) := do
  return (bytes.length, ← b.append bytes)

def offerAll (b : Blob) (bytes : Bytes) : Except Abort Blob := b.append bytes

def resize (b : Blob) (n : Nat) : Except Abort Blob := do
  checkCeiling (saturate (n + 1)) .resize
  ((b.reallocate (n + 1)).setUsed n).terminate

def reserve (b : Blob) (minimum : Nat) : Except Abort Blob := do
  checkCeiling minimum .reserve
  if b.capacity < minimum then
    let grown := b.reallocate minimum
    if grown.used < grown.capacity then grown.terminate else return grown
  else return b

def withCapacity (minimum : Nat) : Except Abort Blob := empty.reserve minimum

def materialize (b : Blob) : Except Abort Blob := b.resize b.used

def terminated (b : Blob) : Except Abort (Bytes × Blob) :=
  if b.ownership = .borrowed ∧ b.used = 0 then .ok ([0], b)
  else do
    let held ←
      if b.ownership = .owned ∧ b.used < b.capacity then b.terminate else b.materialize
    return (← slice held.store 0 (held.used + 1), held)

def cString (b : Blob) : Except Abort (Bytes × Blob) := do
  let (bytes, held) ← b.terminated
  return (bytes.takeWhile (· ≠ 0), held)

def editable (b : Blob) : Except Abort Blob :=
  match b.ownership with
  | .borrowed => b.materialize
  | .owned => .ok b

def setByte (b : Blob) (index : Nat) (byte : UInt8) : Except Abort (Bool × Blob) := do
  let b ← b.editable
  if index < b.used then return (true, ← b.write index [byte]) else return (false, b)

def reset (b : Blob) : Blob := { b.reallocate 0 with formatted := false }

def truncate (b : Blob) (n : Nat) : Blob := if n < b.used then b.setUsed n else b

def trim (b : Blob) : Blob :=
  b.setUsed (b.content.reverse.dropWhile Byte.isSpace).length

def copyFrom (b source : Blob) : Except Abort Blob := b.reset.append source.content

def appendConsume (b source : Blob) : Except Abort (Blob × Blob) := do
  return (← b.append source.content, source.reset)

def toOwned (b : Blob) : Except Abort Blob := empty.append b.content

end ArtifactVault.Blob
