import ArtifactVault.Store.Packing

/-!
A store in memory: envelopes under their names, each name once. A name that is there keeps its
envelope.
-/
namespace ArtifactVault

structure MemoryStore where
  envelopes : List (ArtifactId × Bytes)
  settings : StoreSettings
  deriving DecidableEq, Repr

namespace MemoryStore

def empty (settings : StoreSettings) : MemoryStore := ⟨[], settings⟩

def envelope? (s : MemoryStore) (id : ArtifactId) : Option Bytes := s.envelopes.lookup id

def contains (s : MemoryStore) (id : ArtifactId) : Bool := (s.envelope? id).isSome

def insertNew (s : MemoryStore) (id : ArtifactId) (envelope : Bytes) : MemoryStore :=
  if s.contains id then s else { s with envelopes := (id, envelope) :: s.envelopes }

def put [Zlib.Encoder] (s : MemoryStore) (content : Blob) :
    Except Abort (ArtifactId × MemoryStore) := do
  let (id, envelope) ← Store.pack s.settings content
  return (id, s.insertNew id envelope.content)

def get (s : MemoryStore) (id : ArtifactId) : Except Abort (Except StoreError (Option Blob)) :=
  match s.envelope? id with
  | none => .ok (.ok none)
  | some envelope => do
    let outcome ← Store.unpack s.settings id (← Blob.borrow envelope)
    return outcome.map some

def delete (s : MemoryStore) (id : ArtifactId) : Bool × MemoryStore :=
  (s.contains id, { s with envelopes := s.envelopes.filter fun entry => entry.1 ≠ id })

def size (s : MemoryStore) : Nat := s.envelopes.length

def ids (s : MemoryStore) : List ArtifactId := ArtifactId.sort (s.envelopes.map (·.1))

def totalBytes (s : MemoryStore) : Nat := (s.envelopes.flatMap (·.2)).length

def debugText (s : MemoryStore) : String :=
  s!"InMemoryContentStore \x7b artifact_count: {s.size}, " ++
    s!"algorithm: {s.settings.algorithm.label} \x7d"

end MemoryStore

end ArtifactVault
