/-!
The parts of a TOML document below values: blanks, comments, line ends, strings and keys. A reader
takes characters from the front and gives what it read with the rest.
-/
namespace ArtifactVault.Toml

abbrev Reader (α : Type) := List Char → Option (α × List Char)

def isBlank (c : Char) : Bool := c = ' ' || c = '\t'

def skipBlanks (cs : List Char) : List Char := cs.dropWhile isBlank

def isPlain (c : Char) : Bool := c = '\t' || (' ' ≤ c && c ≠ '\x7f')

def expect (c : Char) : List Char → Option (List Char)
  | [] => none
  | d :: cs => if c = d then some cs else none

def lineEnd : List Char → Option (List Char)
  | '\n' :: cs => some cs
  | '\r' :: '\n' :: cs => some cs
  | _ => none

def skipComment : List Char → List Char
  | '#' :: cs => cs.dropWhile isPlain
  | cs => cs

def restOfLine (cs : List Char) : Option (List Char) :=
  match skipComment (skipBlanks cs) with
  | [] => some []
  | cs => lineEnd cs

def hexValue? (c : Char) : Option Nat :=
  if '0' ≤ c ∧ c ≤ '9' then some (c.toNat - 0x30)
  else if 'a' ≤ c ∧ c ≤ 'f' then some (c.toNat - 0x57)
  else if 'A' ≤ c ∧ c ≤ 'F' then some (c.toNat - 0x37)
  else none

def ofHexDigits? (digits : List Char) : Option Char := do
  let values ← digits.mapM hexValue?
  let n := values.foldl (fun n v => 16 * n + v) 0
  if n.isValidChar then some (Char.ofNat n) else none

def escaped : Reader Char
  | 'b' :: cs => some ('\x08', cs)
  | 't' :: cs => some ('\t', cs)
  | 'n' :: cs => some ('\n', cs)
  | 'f' :: cs => some ('\x0c', cs)
  | 'r' :: cs => some ('\r', cs)
  | '"' :: cs => some ('"', cs)
  | '\\' :: cs => some ('\\', cs)
  | 'u' :: cs =>
    if cs.length < 4 then none else (ofHexDigits? (cs.take 4)).map fun c => (c, cs.drop 4)
  | 'U' :: cs =>
    if cs.length < 8 then none else (ofHexDigits? (cs.take 8)).map fun c => (c, cs.drop 8)
  | _ => none

def endsLine (cs : List Char) : Bool := (lineEnd (skipBlanks cs)).isSome

structure StringKind where
  quote : Char
  isLong : Bool

def StringKind.hasEscapes (kind : StringKind) : Bool := kind.quote = '"'

def stringRest (kind : StringKind) : Nat → (skipping : Bool) → List Char → Reader (List Char)
  | 0, _, _, _ => none
  | fuel + 1, skipping, read, cs =>
    match cs with
    | [] => none
    | c :: rest =>
      let quotes := (cs.takeWhile (· = kind.quote)).length
      if kind.isLong ∧ (lineEnd cs).isSome then
        let read := if skipping then read else '\n' :: read
        stringRest kind fuel skipping read ((lineEnd cs).getD [])
      else if skipping ∧ isBlank c then stringRest kind fuel true read rest
      else if c = kind.quote then
        if ¬kind.isLong then some (read.reverse, rest)
        else if quotes < 3 then stringRest kind fuel false (c :: read) rest
        else
          let inside := min 2 (quotes - 3)
          some ((List.replicate inside c ++ read).reverse, cs.drop (inside + 3))
      else if kind.hasEscapes ∧ c = '\\' then
        if kind.isLong ∧ endsLine rest then stringRest kind fuel true read rest
        else
          match escaped rest with
          | some (d, rest) => stringRest kind fuel false (d :: read) rest
          | none => none
      else if isPlain c then stringRest kind fuel false (c :: read) rest
      else none

def string (long : Bool) : Reader String := fun cs => do
  let quote ← cs.head?
  if quote ≠ '"' ∧ quote ≠ '\'' then none
  let isLong := long && (List.replicate 3 quote).isPrefixOf cs
  let cs := cs.drop (if isLong then 3 else 1)
  let cs := if isLong then (lineEnd cs).getD cs else cs
  let (read, cs) ← stringRest ⟨quote, isLong⟩ (cs.length + 1) false [] cs
  return (String.ofList read, cs)

def isKeyChar (c : Char) : Bool :=
  ('a' ≤ c && c ≤ 'z') || ('A' ≤ c && c ≤ 'Z') || ('0' ≤ c && c ≤ '9') || c = '_' || c = '-'

def keyPart : Reader String := fun cs =>
  match cs.head? with
  | some '"' => string false cs
  | some '\'' => string false cs
  | _ =>
    let part := cs.takeWhile isKeyChar
    if part.isEmpty then none else some (String.ofList part, cs.drop part.length)

def deepest : Nat := 79

def keyParts : Nat → Reader (List String)
  | 0, _ => none
  | fuel + 1, cs => do
    let (part, cs) ← keyPart (skipBlanks cs)
    let cs := skipBlanks cs
    match expect '.' cs with
    | none => return ([part], cs)
    | some cs =>
      let (parts, cs) ← keyParts fuel cs
      return (part :: parts, cs)

def key : Reader (List String) := keyParts deepest

end ArtifactVault.Toml
