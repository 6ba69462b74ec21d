/-!
Values of a TOML document, and the tables they are gathered in. How a table came about decides what
may still be added to it: `within` goes down along keys, making the tables that are missing, and
refuses what the document has closed.
-/
namespace ArtifactVault.Toml

inductive Origin
  | headed
  | implied
  | dotted
  | inline
  deriving DecidableEq, Repr

inductive Value
  | boolean (b : Bool)
  | integer (n : Int)
  | float
  | dateTime
  | string (s : String)
  | array (items : List Value)
  | table (origin : Origin) (entries : List (String × Value))
  | tables (elements : List (List (String × Value)))
  deriving Repr, Inhabited

abbrev Entries := List (String × Value)

namespace Entries

def put (key : String) (value : Value) : Entries → Entries
  | [] => [(key, value)]
  | entry :: entries =>
    if entry.1 = key then (key, value) :: entries else entry :: put key value entries

def within (made : Origin) (change : Origin → Entries → Option Entries) :
    List String → Origin → Entries → Option Entries
  | [], origin, entries => change origin entries
  | key :: path, _, entries =>
    match entries.lookup key with
    | none => do
      let below ← within made change path made []
      return entries.put key (.table made below)
    | some (.table origin below) =>
      if origin = .inline ∨ (made = .dotted ∧ origin = .headed) then none
      else do
        let below ← within made change path origin below
        return entries.put key (.table origin below)
    | some (.tables elements) => do
      let last ← elements.getLast?
      let last ← within made change path .headed last
      return entries.put key (.tables (elements.dropLast ++ [last]))
    | some _ => none

def addNew (isDotted : Bool) (key : String) (value : Value) (origin : Origin) (entries : Entries) :
    Option Entries :=
  if isDotted = (origin = .dotted) ∧ (entries.lookup key).isNone then some (entries.put key value)
  else none

def add (origin : Origin) (entries : Entries) (path : List String) (value : Value) :
    Option Entries := do
  let key ← path.getLast?
  let above := path.dropLast
  entries.within .dotted (addNew (!above.isEmpty) key value) above origin

def addAll (origin : Origin) (pairs : List (List String × Value)) (entries : Entries) :
    Option Entries :=
  pairs.foldlM (fun entries pair => entries.add origin pair.1 pair.2) entries

def addTable (path : List String) (pairs : List (List String × Value)) (entries : Entries) :
    Option Entries := do
  let key ← path.getLast?
  let fill := fun _ (entries : Entries) =>
    match entries.lookup key with
    | none => do return entries.put key (.table .headed (← addAll .headed pairs []))
    | some (.table .implied below) => do
      return entries.put key (.table .headed (← addAll .headed pairs below))
    | some _ => none
  entries.within .implied fill path.dropLast .headed

def addElement (path : List String) (pairs : List (List String × Value)) (entries : Entries) :
    Option Entries := do
  let key ← path.getLast?
  let fill := fun _ (entries : Entries) =>
    match entries.lookup key with
    | none => do return entries.put key (.tables [← addAll .headed pairs []])
    | some (.tables elements) => do
      return entries.put key (.tables (elements ++ [← addAll .headed pairs []]))
    | some _ => none
  entries.within .implied fill path.dropLast .headed

end Entries

end ArtifactVault.Toml
