import ArtifactVault.FileTree.Disk
import ArtifactVault.Proofs.FileTree.Changes

/-! What a disk shows. The tree that one sees is the tree of names with bytes for inodes, and since
no path leads elsewhere for that, every step that changes names changes the tree in the same way. -/
namespace ArtifactVault.FileTree
open Keyed

section
variable {t : FileTree} {fill : Node → Node} {goal : Goal} {links : Nat} {place source target : Place}
  {names : List Bytes}

end

end ArtifactVault.FileTree

namespace ArtifactVault.Disk
open FileTree Keyed
variable {d : Disk} {inode other : Inode}

theorem unusedOther (mem : inode ∈ d.inodes.map (·.1) ++
    d.names.entries.filterMap fun entry => inode? entry.2) : inode ≠ d.unused := by
  have shorter := (List.sublist_flatten_of_mem mem).length_le
  intro same
  rw [same, unused, List.length_cons] at shorter
  omega

theorem unusedUnknown (known : inode ∈ d.inodes.map (·.1)) : inode ≠ d.unused :=
  unusedOther (List.mem_append_left _ known)

theorem bytesAppend (more : Bytes) : (d.append inode more).bytes other =
    if other = inode then d.bytes inode ++ more else d.bytes other := by
  unfold bytes append
  rw [lookupCons]
  split
  · rfl
  · rfl

def made (d : Disk) (place : Place) : Disk :=
  ⟨d.names.written place d.unused, (d.unused, []) :: d.inodes⟩

theorem bytesMade (place : Place) :
    (d.made place).bytes other = if other = d.unused then [] else d.bytes other := by
  unfold bytes made
  rw [lookupCons]
  split
  · rfl
  · rfl

theorem nodeMade {place : Place} (below : place ≠ []) (other : Place) :
    (d.made place).names.node? other =
      if other = place then some (.file d.unused) else d.names.node? other :=
  nodeWritten below other

end ArtifactVault.Disk
