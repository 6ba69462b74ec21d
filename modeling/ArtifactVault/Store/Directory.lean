import ArtifactVault.Store.Packing

/-!
A store in a tree of files: one file for each artifact, in a directory named by the first two digits
of its name and called by the others. An envelope is written to a file of its own first and moved to
its place in one step, so nobody meets half of one.
-/
namespace ArtifactVault

structure DirectoryStore where
  root : Bytes
  settings : StoreSettings
  deriving DecidableEq, Repr

namespace DirectoryStore

def shardDigits : Nat := 2

def relativePath (id : ArtifactId) : Bytes :=
  let name := Utf8.ofString id.hex
  FileTree.join (name.take shardDigits) (name.drop shardDigits)

def shardPath (s : DirectoryStore) (id : ArtifactId) : Bytes :=
  FileTree.join s.root ((Utf8.ofString id.hex).take shardDigits)

def path (s : DirectoryStore) (id : ArtifactId) : Bytes :=
  FileTree.join (s.shardPath id) ((Utf8.ofString id.hex).drop shardDigits)

def prepare (t : FileTree) (root : Bytes) : Except StoreError Unit × FileTree :=
  match t.makeDirectories root with
  | (.ok _, t) => (.ok (), t)
  | (.error e, t) => (.error (.system e), t)

def temporaryName (n : Nat) : Bytes := Utf8.ofString s!".tmp{n}"

def freshPath (t : FileTree) (directory : Bytes) : Nat → Nat → Bytes
  | 0, n => FileTree.join directory (temporaryName n)
  | tries + 1, n =>
    let path := FileTree.join directory (temporaryName n)
    if (t.lookup .itself path).isOk then freshPath t directory tries (n + 1) else path

def liftError {α : Type} : Except SystemError α → Except StoreError α
  | .ok value => .ok value
  | .error e => .error (.system e)

def persist (t : FileTree) (temporary path : Bytes) : Except StoreError Unit × FileTree :=
  match t.rename temporary path with
  | .ok t => (.ok (), t)
  | .error e => (.error (.system e), ((t.removeFile temporary).toOption.getD t))

def install (t : FileTree) (shard path envelope : Bytes) : Except StoreError Unit × FileTree :=
  match t.makeDirectories shard with
  | (.error e, t) => (.error (.system e), t)
  | (.ok _, t) =>
    let temporary := freshPath t shard (t.entries.length + 1) 0
    match t.createFile temporary with
    | .error e => (.error (.system e), t)
    | .ok (place, t) => persist (t.appendAt place envelope) temporary path

def put [Zlib.Encoder] (s : DirectoryStore) (t : FileTree) (content : Blob) :
    Except Abort (Except StoreError ArtifactId × FileTree) := do
  let (id, envelope) ← Store.pack s.settings content
  if t.pathExists (s.path id) then return (.ok id, t)
  let (outcome, t) := install t (s.shardPath id) (s.path id) envelope.content
  return (outcome.map fun _ => id, t)

def get (s : DirectoryStore) (t : FileTree) (id : ArtifactId) :
    Except Abort (Except StoreError (Option Blob)) := do
  match ← Transfer.readPath t .empty (s.path id) .follow .standard with
  | (.error (.missing _), _) => return .ok none
  | (.error e, _) => return .error (.transfer e)
  | (.ok _, envelope) =>
    let outcome ← Store.unpack s.settings id envelope
    return outcome.map some

def contains (s : DirectoryStore) (t : FileTree) (id : ArtifactId) : Bool := t.isFile (s.path id)

def delete (s : DirectoryStore) (t : FileTree) (id : ArtifactId) :
    Except StoreError Bool × FileTree :=
  match t.removeFile (s.path id) with
  | .ok t => (.ok true, t)
  | .error .notFound => (.ok false, t)
  | .error e => (.error (.system e), t)

def hashNames (t : FileTree) (root : Place) (shard : Bytes) : List Bytes :=
  ((t.children (root ++ [shard])).map fun entry => shard ++ entry.1).filter fun name =>
    (hashNameAlgorithm? name).isSome

def size (s : DirectoryStore) (t : FileTree) : Except StoreError Nat := do
  let root ← liftError (t.resolve .target s.root)
  match t.node? root with
  | some .directory =>
    let shards := (t.children root).filter fun entry => entry.2 = .directory
    shards.forM fun entry => liftError (FileTree.checkPath (FileTree.join s.root entry.1))
    return (shards.flatMap fun entry => hashNames t root entry.1).length
  | some _ => throw (.system .notADirectory)
  | none => throw (.system .notFound)

end DirectoryStore

end ArtifactVault
