import ArtifactVault.FileTree.Disk
import ArtifactVault.Store.Directory

/-!
Calls on one store of files that run at the same time. Each call is cut where it asks the system for
something; between any two such steps any other call may take its own. The system chooses the number
of a temporary name and how much a read or a write moves, and it may fail any step of a put.
-/
namespace ArtifactVault.DirectoryStore
open FileTree

inductive Job
  | put (content : Blob)
  | get (id : ArtifactId)
  | delete (id : ArtifactId)
  deriving DecidableEq, Repr

inductive PutStage
  | looking
  | making
  | creating
  | writing (temporary : Bytes) (inode : Inode) (left : Bytes)
  | dropping (temporary : Bytes) (e : SystemError)
  | ended (outcome : Except StoreError ArtifactId)

inductive GetStage
  | looking
  | opening
  | sizing (handle : Node)
  | reading (handle : Node) (offset : Nat) (envelope : Blob)
  | ended (outcome : Except Abort (Except StoreError (Option Blob)))

inductive DeleteStage
  | removing
  | ended (outcome : Except StoreError Bool)

inductive Activity
  | aborted (cause : Abort)
  | putting (id : ArtifactId) (envelope : Bytes) (stage : PutStage)
  | getting (id : ArtifactId) (stage : GetStage)
  | deleting (id : ArtifactId) (stage : DeleteStage)

inductive Event
  | proceeds (choice : Nat)
  | fails (e : SystemError)
  deriving DecidableEq, Repr

inductive Turn
  | start (job : Job)
  | act (k : Nat) (event : Event)
  deriving DecidableEq, Repr

structure Scene where
  disk : Disk
  activities : List Activity

def PutStage.failed (e : SystemError) : PutStage := .ended (.error (.system e))

/-- One step of a put. A name that is taken is tried again with another number, and a write that is
interrupted is tried again. With nothing left to write the file is moved to its place; the temporary
file of a put that fails is removed, whether or not that succeeds. -/
def putStep (s : DirectoryStore) (d : Disk) (id : ArtifactId) (envelope : Bytes) :
    PutStage → Event → PutStage × Disk
  | .looking, .proceeds _ => (if d.names.pathExists (s.path id) then .ended (.ok id) else .making, d)
  | .looking, .fails _ => (.making, d)
  | .making, .proceeds _ =>
    match d.makeDirectories (s.shardPath id) with
    | (.ok _, d) => (.creating, d)
    | (.error e, d) => (.failed e, d)
  | .making, .fails e => (.failed e, d)
  | .creating, .proceeds n =>
    let temporary := join (s.shardPath id) (temporaryName n)
    match d.createNew temporary with
    | .ok (inode, d) => (.writing temporary inode envelope, d)
    | .error e => (if e = .alreadyExists then .creating else .failed e, d)
  | .creating, .fails e => (if e = .alreadyExists ∨ e = .interrupted then .creating else .failed e, d)
  | .writing temporary _ [], .proceeds _ =>
    match d.rename temporary (s.path id) with
    | .ok d => (.ended (.ok id), d)
    | .error e => (.dropping temporary e, d)
  | .writing temporary inode (byte :: left), .proceeds n =>
    if n = 0 then (.dropping temporary .writeZero, d)
    else (.writing temporary inode ((byte :: left).drop n), d.append inode ((byte :: left).take n))
  | .writing temporary inode left, .fails e =>
    (if e = .interrupted ∧ left ≠ [] then .writing temporary inode left else .dropping temporary e, d)
  | .dropping temporary e, .proceeds _ => (.failed e, (d.removeFile temporary).toOption.getD d)
  | .dropping _ e, .fails _ => (.failed e, d)
  | .ended outcome, _ => (.ended outcome, d)

namespace GetStage

def missed : SystemError → GetStage
  | .notFound => .ended (.ok (.ok none))
  | e => .ended (.ok (.error (.transfer (.system e))))

def finished (settings : StoreSettings) (id : ArtifactId) (envelope : Blob) : GetStage :=
  .ended (do return (← Store.unpack settings id envelope).map some)

end GetStage

def getStep (s : DirectoryStore) (d : Disk) (id : ArtifactId) (choice : Nat) : GetStage → GetStage
  | .looking =>
    match d.names.lookup .itself (s.path id) with
    | .ok _ => .opening
    | .error e => .missed e
  | .opening =>
    match d.names.lookup .target (s.path id) with
    | .ok handle => .sizing handle
    | .error e => .missed e
  | .sizing handle =>
    let size := Transfer.sizeOf (d.filled handle)
    if size = 0 then .finished s.settings id Blob.empty.reset
    else
      match Blob.empty.reset.reserve (Blob.saturate (size + 1)) with
      | .ok envelope => .reading handle 0 envelope
      | .error cause => .ended (.error cause)
  | .reading handle offset envelope =>
    match d.read handle offset (choice % Blob.chunk + 1) with
    | .ok [] => .finished s.settings id envelope
    | .ok bytes =>
      match envelope.append bytes with
      | .ok envelope => .reading handle (offset + bytes.length) envelope
      | .error cause => .ended (.error cause)
    | .error e => .ended (.ok (.error (.transfer (.system e))))
  | .ended outcome => .ended outcome

def deleteStep (s : DirectoryStore) (d : Disk) (id : ArtifactId) : DeleteStage → DeleteStage × Disk
  | .removing =>
    match d.removeFile (s.path id) with
    | .ok d => (.ended (.ok true), d)
    | .error .notFound => (.ended (.ok false), d)
    | .error e => (.ended (.error (.system e)), d)
  | .ended outcome => (.ended outcome, d)

def act (s : DirectoryStore) (d : Disk) (activity : Activity) (event : Event) : Activity × Disk :=
  match activity, event with
  | .putting id envelope stage, event =>
    let (stage, d) := s.putStep d id envelope stage event
    (.putting id envelope stage, d)
  | .getting id stage, .proceeds choice => (.getting id (s.getStep d id choice stage), d)
  | .deleting id stage, .proceeds _ =>
    let (stage, d) := s.deleteStep d id stage
    (.deleting id stage, d)
  | activity, _ => (activity, d)

def begun [Zlib.Encoder] (s : DirectoryStore) : Job → Activity
  | .put content =>
    match Store.pack s.settings content with
    | .ok (id, envelope) => .putting id envelope.content .looking
    | .error cause => .aborted cause
  | .get id => .getting id .looking
  | .delete id => .deleting id .removing

def turn [Zlib.Encoder] (s : DirectoryStore) (scene : Scene) : Turn → Scene
  | .start job => ⟨scene.disk, scene.activities ++ [s.begun job]⟩
  | .act k event =>
    match scene.activities[k]? with
    | some activity =>
      let (activity, disk) := s.act scene.disk activity event
      ⟨disk, scene.activities.set k activity⟩
    | none => scene

def run [Zlib.Encoder] (s : DirectoryStore) (d : Disk) (turns : List Turn) : Scene :=
  turns.foldl s.turn ⟨d, []⟩

end ArtifactVault.DirectoryStore
