import ArtifactVault.Toml.Number
import ArtifactVault.Toml.Text
import ArtifactVault.Toml.Value

/-!
Reading TOML documents. A document is a list of sections, each a header and the pairs below it; the
tables are built from them section by section. Values nest no deeper than `deepest`.
-/
namespace ArtifactVault.Toml

def isRunChar (c : Char) : Bool :=
  ('0' ≤ c && c ≤ '9') || ('a' ≤ c && c ≤ 'z') || ('A' ≤ c && c ≤ 'Z') ||
    c = '+' || c = '-' || c = '.' || c = '_' || c = ':'

def scalar? (run : List Char) : Option Value :=
  if run = ['t', 'r', 'u', 'e'] then some (.boolean true)
  else if run = ['f', 'a', 'l', 's', 'e'] then some (.boolean false)
  else if isDateTime run then some .dateTime
  else if isFloat run then some .float
  else (integer? run).map .integer

def scalar : Reader Value := fun cs =>
  let run := cs.takeWhile isRunChar
  let rest := cs.drop run.length
  let time := (rest.drop 1).takeWhile isRunChar
  if isDate run ∧ rest.head? = some ' ' ∧ time ≠ [] then
    if isTimeOfDate time then some (.dateTime, rest.drop (1 + time.length)) else none
  else (scalar? run).map fun value => (value, rest)

def skipLines : Nat → List Char → Option (List Char)
  | 0, cs => some cs
  | fuel + 1, cs =>
    match skipBlanks cs with
    | '#' :: cs =>
      match cs.dropWhile isPlain with
      | [] => some []
      | cs =>
        match lineEnd cs with
        | some cs => skipLines fuel cs
        | none => none
    | cs =>
      match lineEnd cs with
      | some cs => skipLines fuel cs
      | none => some cs

def arrayRest (value : Reader Value) : Nat → List Value → Reader (List Value)
  | 0, _, _ => none
  | fuel + 1, read, cs => do
    let cs ← skipLines cs.length cs
    match expect ']' cs with
    | some cs => return (read.reverse, cs)
    | none =>
      let (item, cs) ← value cs
      let cs ← skipLines cs.length cs
      match expect ',' cs with
      | some cs => arrayRest value fuel (item :: read) cs
      | none =>
        let cs ← expect ']' cs
        return ((item :: read).reverse, cs)

def pair (value : Reader Value) : Reader (List String × Value) := fun cs => do
  let (path, cs) ← key cs
  let cs ← expect '=' cs
  let (item, cs) ← value (skipBlanks cs)
  return ((path, item), cs)

def pairsRest (value : Reader Value) : Nat → List (List String × Value) →
    Reader (List (List String × Value))
  | 0, _, _ => none
  | fuel + 1, read, cs => do
    let (entry, cs) ← pair value cs
    let cs := skipBlanks cs
    match expect ',' cs with
    | some cs => pairsRest value fuel (entry :: read) cs
    | none =>
      let cs ← expect '\x7d' cs
      return ((entry :: read).reverse, cs)

def inlineTable (value : Reader Value) : Reader Value := fun cs => do
  let cs := skipBlanks cs
  let (pairs, cs) ← match expect '\x7d' cs with
    | some cs => some ([], cs)
    | none => pairsRest value (cs.length + 1) [] cs
  let entries ← Entries.addAll .inline pairs []
  return (.table .inline entries, cs)

def simple : Reader Value := fun cs =>
  match cs.head? with
  | some '"' => (string true cs).map fun (s, rest) => (.string s, rest)
  | some '\'' => (string true cs).map fun (s, rest) => (.string s, rest)
  | _ => scalar cs

def value : Nat → Reader Value
  | 0, cs => simple cs
  | depth + 1, cs =>
    match cs with
    | '[' :: rest =>
      (arrayRest (value depth) (rest.length + 1) [] rest).map fun (items, rest) =>
        (.array items, rest)
    | '\x7b' :: rest => inlineTable (value depth) rest
    | _ => simple cs

inductive Header
  | top
  | table (path : List String)
  | element (path : List String)
  deriving DecidableEq, Repr

structure Section where
  header : Header
  pairs : List (List String × Value)

def header : Reader Header := fun cs => do
  let cs ← expect '[' cs
  match expect '[' cs with
  | some cs =>
    let (path, cs) ← key cs
    let cs ← expect ']' cs
    let cs ← expect ']' cs
    return (.element path, ← restOfLine cs)
  | none =>
    let (path, cs) ← key cs
    let cs ← expect ']' cs
    return (.table path, ← restOfLine cs)

def sectionsOnto (current : Section) (done : List Section) :
    Nat → List Char → Option (List Section)
  | 0, _ => none
  | fuel + 1, cs =>
    match skipBlanks cs with
    | [] => some (current :: done)
    | '#' :: _ => do sectionsOnto current done fuel (← restOfLine cs)
    | '\n' :: _ => do sectionsOnto current done fuel (← restOfLine cs)
    | '\r' :: _ => do sectionsOnto current done fuel (← restOfLine cs)
    | '[' :: _ => do
      let (header, cs) ← header (skipBlanks cs)
      sectionsOnto ⟨header, []⟩ (current :: done) fuel cs
    | cs => do
      let (entry, cs) ← pair (value deepest) cs
      sectionsOnto { current with pairs := entry :: current.pairs } done fuel (← restOfLine cs)

def addSection (entries : Entries) (s : Section) : Option Entries :=
  match s.header with
  | .top => entries.addAll .headed s.pairs.reverse
  | .table path => entries.addTable path s.pairs.reverse
  | .element path => entries.addElement path s.pairs.reverse

def byteOrderMark : Char := '\uFEFF'

def document? (text : String) : Option Entries := do
  let cs := text.toList
  let cs := if cs.head? = some byteOrderMark then cs.drop 1 else cs
  let sections ← sectionsOnto ⟨.top, []⟩ [] (cs.length + 1) cs
  sections.reverse.foldlM addSection []

end ArtifactVault.Toml
