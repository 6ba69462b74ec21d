import ArtifactVault.SystemError
import ArtifactVault.Text.Utf8

/-!
A tree of files, links and directories, kept as a list of places. A place is the names on the way
down from the top, which is always a directory. `node?` is the view that operations are stated by.
-/
namespace ArtifactVault

abbrev Place := List Bytes

inductive Node
  | file (content : Bytes)
  | link (target : Bytes)
  | directory
  deriving DecidableEq, Repr

structure FileTree where
  entries : List (Place × Node)
  deriving DecidableEq, Repr

namespace FileTree

def empty : FileTree := ⟨[]⟩

instance : Inhabited FileTree := ⟨empty⟩

def node? (t : FileTree) : Place → Option Node
  | [] => some .directory
  | place => t.entries.lookup place

def erase (t : FileTree) (place : Place) : FileTree :=
  ⟨t.entries.filter fun entry => entry.1 ≠ place⟩

def insert (t : FileTree) (place : Place) (node : Node) : FileTree :=
  ⟨(place, node) :: (t.erase place).entries⟩

def nameBelow? (directory place : Place) : Option Bytes :=
  match place.getLast? with
  | some name => if place = directory ++ [name] then some name else none
  | none => none

def children (t : FileTree) (directory : Place) : List (Bytes × Node) :=
  t.entries.filterMap fun entry =>
    (nameBelow? directory entry.1).map fun name => (name, entry.2)

def relocate (t : FileTree) (source target : Place) : FileTree :=
  ⟨t.entries.map fun entry =>
    if source.isPrefixOf entry.1 then (target ++ entry.1.drop source.length, entry.2) else entry⟩

def placeOrder : Place → Place → Ordering
  | [], [] => .eq
  | [], _ :: _ => .lt
  | _ :: _, [] => .gt
  | a :: as, b :: bs =>
    match Bytes.order a b with
    | .eq => placeOrder as bs
    | unequal => unequal

def Node.mark : Node → String
  | .file _ => ""
  | .link _ => "@"
  | .directory => "/"

def pathText (place : Place) : String :=
  "/".intercalate (place.map Utf8.lossy)

def listing (t : FileTree) : List String :=
  (t.entries.mergeSort fun x y => (placeOrder x.1 y.1).isLE).map fun entry =>
    pathText entry.1 ++ Node.mark entry.2

end FileTree

end ArtifactVault
