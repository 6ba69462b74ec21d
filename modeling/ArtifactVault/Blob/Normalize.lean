import ArtifactVault.Blob.Growth
import ArtifactVault.Text.CodePage
import ArtifactVault.Text.Utf16

/-!
Line ends and encodings, changed in the blob's own store. A transform that makes the content
longer counts the growth first and takes the room once; one that makes it shorter leaves stale
bytes behind its terminator.
-/
namespace ArtifactVault.Blob

def growInPlace (b : Blob) (n : Nat) : Except Abort Blob := do
  let grown ←
    if b.capacity ≤ n ∨ b.ownership = .borrowed then b.resize n else pure (b.setUsed n)
  grown.write n [0]

def makeWritable (b : Blob) : Except Abort Blob :=
  if b.ownership = .borrowed ∨ b.capacity ≤ b.used then b.materialize else .ok b

def ownedStore (b : Blob) : Except Abort (Array UInt8) :=
  match b.ownership with
  | .borrowed => .error .borrowedWrite
  | .owned => .ok b.store.toArray

def readAt (store : Array UInt8) (index : Nat) : Except Abort UInt8 :=
  match store[index]? with
  | some byte => .ok byte
  | none => .error .outOfRange

def writeAt (store : Array UInt8) (index : Nat) : Bytes → Except Abort (Array UInt8)
  | [] => .ok store
  | byte :: bytes =>
    if index < store.size then writeAt (store.setIfInBounds index byte) (index + 1) bytes
    else .error .outOfRange

def stepBack (index n : Nat) : Except Abort Nat :=
  if n ≤ index then .ok (index - n) else .error .outOfRange

/-- Puts what the front bytes of a store expand to in front of an index, last byte first, until the
bytes not yet read reach up to it: they are in their places. -/
def expandFrom (expand : UInt8 → Bytes) (store : Array UInt8) :
    (unread index : Nat) → Except Abort (Array UInt8)
  | 0, index => if 0 < index then .error .outOfRange else .ok store
  | unread + 1, index =>
    if index ≤ unread + 1 then .ok store
    else do
      let expansion := expand (← readAt store unread)
      let index ← stepBack index expansion.length
      expandFrom expand (← writeAt store index expansion) unread index

def expandInPlace (b : Blob) (growth : Nat) (expand : UInt8 → Bytes) : Except Abort Blob := do
  let grown ← b.growInPlace (b.used + growth)
  let store ← expandFrom expand (← grown.ownedStore) b.used (b.used + growth)
  return { grown with store := store.toList }

def withReturn (byte : UInt8) : Bytes := if byte = 0x0a then [0x0d, 0x0a] else [byte]

def addCarriageReturns (b : Blob) : Except Abort Blob :=
  let newlines := b.content.count 0x0a
  if newlines = 0 then .ok b else b.expandInPlace newlines withReturn

def noNewlineAt (store : Array UInt8) (length index : Nat) : Except Abort Bool :=
  if index < length then do return (← readAt store index) ≠ 0x0a else .ok true

/-- Moves the last `left` of the first `length` bytes of a store to an index, with each carriage
return dropped before a newline and turned into one elsewhere. Gives the index behind them, too. -/
def gatherFrom (length : Nat) (store : Array UInt8) (index : Nat) :
    (left : Nat) → Except Abort (Array UInt8 × Nat)
  | 0 => .ok (store, index)
  | left + 1 => do
    let place := length - (left + 1)
    let byte ← readAt store place
    if byte ≠ 0x0d then gatherFrom length (← writeAt store index [byte]) (index + 1) left
    else if ← noNewlineAt store length (place + 1) then
      gatherFrom length (← writeAt store index [0x0a]) (index + 1) left
    else gatherFrom length store index left

def newlinesOnly (b : Blob) : Except Abort Blob := do
  if b.content.contains 0x0d then
    let held ← b.makeWritable
    let (store, index) ← gatherFrom held.used (← held.ownedStore) 0 held.used
    let store ← writeAt store index [0]
    return { held with store := store.toList }.setUsed index
  else return b

def codePageBytes (byte : UInt8) : Bytes :=
  if byte < 0x80 then [byte]
  else
    let point := CodePage.codePoint byte
    if 0x800 ≤ point then
      [UInt8.ofNat (0xe0 ||| point >>> 12), UInt8.ofNat (0x80 ||| (point >>> 6 &&& 0x3f)),
        UInt8.ofNat (0x80 ||| (point &&& 0x3f))]
    else [UInt8.ofNat (0xc0 ||| point >>> 6), UInt8.ofNat (0x80 ||| (point &&& 0x3f))]

def transcodeCodePage (b : Blob) : Except Abort Blob :=
  let growth := (b.content.map CodePage.growth).foldr (· + ·) 0
  if growth = 0 then .ok b else b.expandInPlace growth codePageBytes

def utf8Mark : Bytes := [0xef, 0xbb, 0xbf]

def hasUtf8Mark (bytes : Bytes) : Bool := utf8Mark.isPrefixOf bytes

def stripUtf8Mark (b : Blob) : Except Abort (Bool × Blob) := do
  if hasUtf8Mark b.content then
    let held ← b.makeWritable
    let kept ← slice held.store utf8Mark.length held.used
    let moved ← held.write 0 kept
    let ended ← moved.write kept.length [0]
    return (true, ended.setUsed kept.length)
  else return (false, b)

/-- Makes the content UTF-8 without a mark: a UTF-8 mark is dropped, marked UTF-16 of either order
is decoded, and anything else that is not UTF-8 counts as Windows-1252 if `assumeCodePage`. -/
def normalize (b : Blob) (assumeCodePage : Bool) : Except Abort Blob := do
  let (stripped, b) ← b.stripUtf8Mark
  if stripped then return b
  match Utf16.markReversed? b.content with
  | some reversed =>
    let b ← if reversed then do (← b.editable).write 0 (Utf16.swapBytes b.content) else pure b
    ofBytes (Utf16.toUtf8 (b.content.drop 2))
  | none =>
    if assumeCodePage && !Utf8.isValid b.content then b.transcodeCodePage else return b

end ArtifactVault.Blob
