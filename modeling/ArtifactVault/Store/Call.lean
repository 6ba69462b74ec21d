import ArtifactVault.Store.Directory
import ArtifactVault.Store.Memory

/-!
One interface to stores of both kinds: a call, and its answer with the store and the tree after it.
-/
namespace ArtifactVault

inductive Store
  | memory (s : MemoryStore)
  | directory (s : DirectoryStore)
  deriving DecidableEq, Repr

namespace Store

inductive Call
  | put (content : Blob)
  | get (id : ArtifactId)
  | getRequired (id : ArtifactId)
  | contains (id : ArtifactId)
  | delete (id : ArtifactId)
  | size
  | isEmpty
  deriving DecidableEq, Repr

inductive Answer
  | id (id : ArtifactId)
  | content (found : Option Blob)
  | flag (b : Bool)
  | count (n : Nat)
  | failed (e : StoreError)
  deriving DecidableEq, Repr

structure State where
  store : Store
  files : FileTree
  deriving DecidableEq, Repr

def Answer.of {α : Type} (encode : α → Answer) : Except StoreError α → Answer
  | .ok value => encode value
  | .error e => .failed e

def required (id : ArtifactId) : Except StoreError (Option Blob) → Except StoreError (Option Blob)
  | .ok none => .error (.missing id)
  | outcome => outcome

def callMemory [Zlib.Encoder] (s : MemoryStore) : Call → Except Abort (Answer × MemoryStore)
  | .put content => do
    let (id, s) ← s.put content
    return (.id id, s)
  | .get id => do return (.of .content (← s.get id), s)
  | .getRequired id => do return (.of .content (required id (← s.get id)), s)
  | .contains id => .ok (.flag (s.contains id), s)
  | .delete id =>
    let (found, s) := s.delete id
    .ok (.flag found, s)
  | .size => .ok (.count s.size, s)
  | .isEmpty => .ok (.flag (s.size = 0), s)

def callDirectory [Zlib.Encoder] (s : DirectoryStore) (t : FileTree) :
    Call → Except Abort (Answer × FileTree)
  | .put content => do
    let (outcome, t) ← s.put t content
    return (.of .id outcome, t)
  | .get id => do return (.of .content (← s.get t id), t)
  | .getRequired id => do return (.of .content (required id (← s.get t id)), t)
  | .contains id => .ok (.flag (s.contains t id), t)
  | .delete id =>
    let (outcome, t) := s.delete t id
    .ok (.of .flag outcome, t)
  | .size => .ok (.of .count (s.size t), t)
  | .isEmpty => .ok (.of .flag ((s.size t).map (· = 0)), t)

def State.call [Zlib.Encoder] (state : State) (call : Call) : Except Abort (Answer × State) :=
  match state.store with
  | .memory s => do
    let (answer, s) ← callMemory s call
    return (answer, { state with store := .memory s })
  | .directory s => do
    let (answer, files) ← callDirectory s state.files call
    return (answer, { state with files })

def State.run [Zlib.Encoder] (state : State) : List Call → Except Abort (List Answer × State)
  | [] => .ok ([], state)
  | call :: calls => do
    let (answer, state) ← state.call call
    let (answers, state) ← state.run calls
    return (answer :: answers, state)

end Store

end ArtifactVault
