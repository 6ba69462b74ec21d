import ArtifactVault.FileTree.Change

/-!
A disk that several hands share. A name leads to an inode and the inode holds the bytes, so an open
file keeps its bytes when its name is moved, taken over or removed. `tree` is what one sees of it.
-/
namespace ArtifactVault

abbrev Inode := Bytes

/-- The files of `names` hold their inodes in place of their bytes. -/
structure Disk where
  names : FileTree
  inodes : List (Inode × Bytes)
  deriving DecidableEq, Repr

namespace Disk

def bytes (d : Disk) (inode : Inode) : Bytes := (d.inodes.lookup inode).getD []

def filled (d : Disk) : Node → Node
  | .file inode => .file (d.bytes inode)
  | node => node

def tree (d : Disk) : FileTree :=
  ⟨d.names.entries.map fun entry => (entry.1, d.filled entry.2)⟩

def inode? : Node → Option Inode
  | .file inode => some inode
  | _ => none

def unused (d : Disk) : Inode :=
  0 :: (d.inodes.map (·.1) ++ d.names.entries.filterMap fun entry => inode? entry.2).flatten

def makeDirectories (d : Disk) (path : Bytes) : Except SystemError Unit × Disk :=
  let (outcome, names) := d.names.makeDirectories path
  (outcome, { d with names })

def createNew (d : Disk) (path : Bytes) : Except SystemError (Inode × Disk) :=
  if (d.names.lookup .itself path).isOk then .error .alreadyExists
  else do
    let (place, names) ← d.names.createFile path
    return (d.unused, ⟨names.insert place (.file d.unused), (d.unused, []) :: d.inodes⟩)

def append (d : Disk) (inode : Inode) (more : Bytes) : Disk :=
  { d with inodes := (inode, d.bytes inode ++ more) :: d.inodes }

def read (d : Disk) (handle : Node) (offset count : Nat) : Except SystemError Bytes :=
  match handle with
  | .file inode => .ok (((d.bytes inode).drop offset).take count)
  | .link target => .ok ((target.drop offset).take count)
  | .directory => .error .isADirectory

def rename (d : Disk) (path target : Bytes) : Except SystemError Disk := do
  return { d with names := ← d.names.rename path target }

def removeFile (d : Disk) (path : Bytes) : Except SystemError Disk := do
  return { d with names := ← d.names.removeFile path }

end Disk

end ArtifactVault
