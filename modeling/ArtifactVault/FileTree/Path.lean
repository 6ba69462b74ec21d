import ArtifactVault.FileTree.Basic

/-!
Paths as bytes and how they lead through a tree. A path is read step by step; a link met on the way
is followed, and one at its end unless the link itself is wanted, but no more than `mostLinks`.
-/
namespace ArtifactVault.FileTree

def slash : UInt8 := 0x2f

def dot : Bytes := [0x2e]

def dotDot : Bytes := [0x2e, 0x2e]

def isAbsolute (path : Bytes) : Bool := path.head? = some slash

def splitPath (path : Bytes) : List Bytes :=
  path.foldr (fun byte parts =>
    if byte = slash then [] :: parts
    else match parts with
      | [] => [[byte]]
      | part :: parts => (byte :: part) :: parts) [[]]

/-- The steps of a path. A slash at its end is one more step, without a name: it stays in the
directory that it asks for. -/
def steps (path : Bytes) : List Bytes :=
  (splitPath path).filter (· ≠ []) ++ (if path.getLast? = some slash then [[]] else [])

def mostLinks : Nat := 40

def longestName : Nat := 255

def longestPath : Nat := 4095

inductive Goal
  | itself
  | target
  | output
  deriving DecidableEq, Repr

/-- Where steps lead from a place, `links` more links being allowed. At the last step there may be
nothing; before it there must be a directory. -/
def walk (t : FileTree) (goal : Goal) (links : Nat) (place : Place) :
    List Bytes → Except SystemError Place
  | [] => .ok place
  | step :: rest =>
    match t.node? place with
    | some .directory =>
      if step = [] ∨ step = dot then walk t goal links place rest
      else if step = dotDot then walk t goal links place.dropLast rest
      else if goal = .output ∧ rest = [[]] then .error .isADirectory
      else if longestName < step.length then .error .nameTooLong
      else
        match t.node? (place ++ [step]) with
        | some (.link target) =>
          if rest = [] ∧ goal = .itself then .ok (place ++ [step])
          else
            match links with
            | 0 => .error .tooManyLinks
            | links + 1 =>
              walk t goal links (if isAbsolute target then [] else place) (steps target ++ rest)
        | some _ => walk t goal links (place ++ [step]) rest
        | none => if rest = [] then .ok (place ++ [step]) else .error .notFound
    | some _ => .error .notADirectory
    | none => .error .notFound
  termination_by path => (links, path.length)

def checkPath (path : Bytes) : Except SystemError Unit :=
  if path.contains 0 then .error .zeroInPath
  else if path = [] then .error .notFound
  else if longestPath < path.length then .error .nameTooLong
  else .ok ()

def resolve (t : FileTree) (goal : Goal) (path : Bytes) : Except SystemError Place := do
  checkPath path
  t.walk goal mostLinks [] (steps path)

def lookup (t : FileTree) (goal : Goal) (path : Bytes) : Except SystemError Node := do
  match t.node? (← t.resolve goal path) with
  | some node => return node
  | none => throw .notFound

def pathExists (t : FileTree) (path : Bytes) : Bool := (t.lookup .target path).isOk

def isFile (t : FileTree) (path : Bytes) : Bool :=
  match t.lookup .target path with
  | .ok (.file _) => true
  | _ => false

def isDirectory (t : FileTree) (path : Bytes) : Bool :=
  match t.lookup .target path with
  | .ok .directory => true
  | _ => false

def join (path name : Bytes) : Bytes :=
  if path = [] ∨ path.getLast? = some slash then path ++ name else path ++ slash :: name

def trimEnd : Bytes → Bytes
  | 0x2f :: rest => trimEnd rest
  | 0x2e :: 0x2f :: rest => trimEnd rest
  | path => path

def parent? (path : Bytes) : Option Bytes :=
  match trimEnd path.reverse with
  | [] => none
  | backwards =>
    match backwards.dropWhile (· ≠ slash) with
    | [] => some []
    | above =>
      match trimEnd above with
      | [] => some [slash]
      | above => some above.reverse

def withoutSlashes (path : Bytes) : Bytes := (path.reverse.dropWhile (· = slash)).reverse

end ArtifactVault.FileTree
