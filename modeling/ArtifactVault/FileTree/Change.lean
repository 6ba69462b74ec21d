import ArtifactVault.FileTree.Path

/-!
Steps that change a tree. Each is one call to the system, so a longer action can be cut between any
two of them.
-/
namespace ArtifactVault.FileTree

def makeDirectory (t : FileTree) (path : Bytes) : Except SystemError FileTree := do
  checkPath path
  let trimmed := withoutSlashes path
  if trimmed = [] then throw .alreadyExists
  let place ← t.resolve .itself trimmed
  match t.node? place with
  | some _ => throw .alreadyExists
  | none => return t.insert place .directory

def settle (t : FileTree) (path : Bytes) : Except SystemError FileTree →
    Except SystemError Unit × FileTree
  | .ok made => (.ok (), made)
  | .error e => (if t.isDirectory path then .ok () else .error e, t)

def makeDirectories (t : FileTree) (path : Bytes) : Except SystemError Unit × FileTree :=
  if path = [] then (.ok (), t)
  else
    match t.makeDirectory path with
    | .error .notFound =>
      match parent? path with
      | none => (.error .notFound, t)
      | some above =>
        if above.length < path.length then
          match makeDirectories t above with
          | (.error e, t) => (.error e, t)
          | (.ok _, t) => settle t path (t.makeDirectory path)
        else (.error .notFound, t)
    | outcome => settle t path outcome
  termination_by path.length

def createFile (t : FileTree) (path : Bytes) : Except SystemError (Place × FileTree) := do
  let place ← t.resolve .output path
  match t.node? place with
  | some .directory => throw .isADirectory
  | _ => return (place, t.insert place (.file []))

def appendAt (t : FileTree) (place : Place) (bytes : Bytes) : FileTree :=
  match t.node? place with
  | some (.file content) => t.insert place (.file (content ++ bytes))
  | _ => t

def readBytes (t : FileTree) (path : Bytes) : Except SystemError Bytes := do
  match ← t.lookup .target path with
  | .file content => return content
  | _ => throw .isADirectory

def readText (t : FileTree) (path : Bytes) : Except SystemError String := do
  match Utf8.decode (← t.readBytes path) with
  | .ok cs => return String.ofList cs
  | .error _ => throw .illFormedText

def makeLink (t : FileTree) (target path : Bytes) : Except SystemError FileTree := do
  checkPath target
  let place ← t.resolve .itself path
  match t.node? place with
  | some _ => throw .alreadyExists
  | none => return t.insert place (.link target)

def removeFile (t : FileTree) (path : Bytes) : Except SystemError FileTree := do
  let place ← t.resolve .itself path
  match t.node? place with
  | none => throw .notFound
  | some .directory => throw .isADirectory
  | some _ => return t.erase place

def removeAll (t : FileTree) (path : Bytes) : Except SystemError FileTree := do
  let place ← t.resolve .itself path
  match t.node? place with
  | none => throw .notFound
  | some _ => return ⟨t.entries.filter fun entry => !place.isPrefixOf entry.1⟩

def checkReplace (t : FileTree) (node : Node) (place : Place) : Except SystemError Unit :=
  match node, t.node? place with
  | _, none => .ok ()
  | .directory, some .directory =>
    if (t.children place).isEmpty then .ok () else .error .directoryNotEmpty
  | .directory, some _ => .error .notADirectory
  | _, some .directory => .error .isADirectory
  | _, some _ => .ok ()

def rename (t : FileTree) (path target : Bytes) : Except SystemError FileTree := do
  checkPath target
  let source ← t.resolve .itself path
  let place ← t.resolve .itself target
  match t.node? source with
  | none => throw .notFound
  | some node =>
    if source = place then return t
    t.checkReplace node place
    return (t.erase place).relocate source place

end ArtifactVault.FileTree
