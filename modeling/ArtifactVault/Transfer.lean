import ArtifactVault.Blob.Growth
import ArtifactVault.FileTree.Change
import ArtifactVault.Settings
import ArtifactVault.Stream.Reader
import ArtifactVault.Stream.Writer

/-!
Blobs in and out of files and standard streams. Reading replaces a blob by the whole of what is
read, writing adds nothing and leaves nothing out. The empty path and a single dash stand for
standard input and output.
-/
namespace ArtifactVault

structure Host where
  files : FileTree
  input : Source
  printed : Bytes
  deriving DecidableEq, Repr

def Host.empty : Host := ⟨.empty, [], []⟩

instance : Inhabited Host := ⟨Host.empty⟩

inductive TransferError
  | missing (path : Bytes)
  | shortWrite (path : Bytes) (written expected : Nat)
  | badSettings (detail : String)
  | system (e : SystemError)
  deriving DecidableEq, Repr

def TransferError.message : TransferError → String
  | .missing path => s!"cannot open file: {Utf8.lossy path}"
  | .shortWrite path written expected =>
    s!"short write to {Utf8.lossy path}: {written} of {expected} bytes"
  | .badSettings detail => s!"invalid configuration: {detail}"
  | .system e => s!"io error: {e.message}"

inductive LinkPolicy
  | follow
  | readLink
  | configured
  deriving DecidableEq, Repr

def LinkPolicy.follows (policy : LinkPolicy) (settings : FileSettings) : Bool :=
  match policy with
  | .follow => true
  | .readLink => false
  | .configured => !settings.allowLinks

namespace Transfer

def dash : Bytes := [0x2d]

def isStandardStream (path : Bytes) : Bool := path = [] || path = dash

def directorySize : Nat := 4096

def sizeOf : Node → Nat
  | .file content => content.length
  | .link target => target.length
  | .directory => directorySize

def sourceOf : Node → Source
  | .file content => .ofBytes content
  | .link target => .ofBytes target
  | .directory => [.fails .isADirectory]

def liftError {α : Type} : Except SystemError α → Except TransferError α
  | .ok value => .ok value
  | .error e => .error (.system e)

def readOpened (b : Blob) (node : Node) : Except Abort (Except TransferError Nat × Blob) := do
  if sizeOf node = 0 then return (.ok 0, b)
  let b ← b.reserve (Blob.saturate (sizeOf node + 1))
  let (outcome, b, _) ← b.collect none (sourceOf node)
  return (liftError outcome, b)

def readPath (t : FileTree) (b : Blob) (path : Bytes) (policy : LinkPolicy)
    (settings : FileSettings) : Except Abort (Except TransferError Nat × Blob) :=
  match t.lookup .itself path with
  | .error .notFound => .ok (.error (.missing path), b)
  | .error e => .ok (.error (.system e), b)
  | .ok node =>
    match node, policy.follows settings with
    | .link target, false => do
      let b ← b.reset.append target
      return (.ok b.used, b)
    | _, _ =>
      match t.lookup .target path with
      | .error .notFound => .ok (.error (.missing path), b.reset)
      | .error e => .ok (.error (.system e), b.reset)
      | .ok node => readOpened b.reset node

def load (host : Host) (b : Blob) (path : Bytes) (policy : LinkPolicy)
    (settings : FileSettings) : Except Abort (Except TransferError Nat × Blob × Host) := do
  if isStandardStream path then
    let (outcome, b, input) ← b.readStream settings.mostRead host.input
    return (liftError outcome, b, { host with input })
  else
    let (outcome, b) ← readPath host.files b path policy settings
    return (outcome, b, host)

def writeExact (w : Writer) (bytes path : Bytes) : Except TransferError Unit × Writer :=
  match w.writeExact bytes with
  | (.ok _, w) => (.ok (), w)
  | (.error (.stopped written), w) => (.error (.shortWrite path written bytes.length), w)
  | (.error (.failed e), w) => (.error (.system e), w)

def prepareParent (t : FileTree) (path : Bytes) : Except SystemError Unit × FileTree :=
  match FileTree.parent? path with
  | some above => t.makeDirectories above
  | none => (.ok (), t)

def writePath (t : FileTree) (bytes path : Bytes) : Except TransferError Nat × FileTree :=
  match prepareParent t path with
  | (.error e, t) => (.error (.system e), t)
  | (.ok _, t) =>
    match t.createFile path with
    | .error e => (.error (.system e), t)
    | .ok (place, t) =>
      let (outcome, w) := writeExact .unlimited bytes path
      (outcome.map fun _ => bytes.length, t.appendAt place w.taken)

def save (host : Host) (b : Blob) (path : Bytes) : Except TransferError Nat × Host :=
  if isStandardStream path then
    let (outcome, w) := writeExact .unlimited b.content dash
    (outcome.map fun _ => b.content.length, { host with printed := host.printed ++ w.taken })
  else
    let (outcome, files) := writePath host.files b.content path
    (outcome, { host with files })

def loadSettings (t : FileTree) (path : Bytes) : Except TransferError FileSettings :=
  match t.readText path with
  | .error .notFound => .ok .standard
  | .error e => .error (.system e)
  | .ok text =>
    match FileSettings.ofText? text with
    | some settings => .ok settings
    | none => .error (.badSettings "not a text of settings")

end Transfer

end ArtifactVault
