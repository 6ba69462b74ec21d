import ArtifactVault.Text.Utf8

/-!
The part of JSON that names need: a string between quotes, written with the short escapes and
`\u00xx` for other controls, and read with every escape of the format.
-/
namespace ArtifactVault.Json

def shortEscape? (c : Char) : Option Char :=
  match c with
  | '"' => some '"'
  | '\\' => some '\\'
  | '\x08' => some 'b'
  | '\x0c' => some 'f'
  | '\n' => some 'n'
  | '\r' => some 'r'
  | '\t' => some 't'
  | _ => none

def hexDigit (n : Nat) : Char := if n < 10 then Char.ofNat (0x30 + n) else Char.ofNat (0x57 + n)

def escape (c : Char) : List Char :=
  match shortEscape? c with
  | some e => ['\\', e]
  | none =>
    if c.toNat < 0x20 then ['\\', 'u', '0', '0', hexDigit (c.toNat / 16), hexDigit (c.toNat % 16)]
    else [c]

def quoteChars (cs : List Char) : List Char := '"' :: cs.flatMap escape ++ ['"']

def quote (s : String) : String := String.ofList (quoteChars s.toList)

def isBlank (c : Char) : Bool := c = ' ' || c = '\t' || c = '\n' || c = '\r'

def skipBlanks (cs : List Char) : List Char := cs.dropWhile isBlank

def hexValue? (c : Char) : Option Nat :=
  if '0' ≤ c ∧ c ≤ '9' then some (c.toNat - 0x30)
  else if 'a' ≤ c ∧ c ≤ 'f' then some (c.toNat - 0x57)
  else if 'A' ≤ c ∧ c ≤ 'F' then some (c.toNat - 0x37)
  else none

def unit? (a b c d : Char) : Option Nat := do
  return 4096 * (← hexValue? a) + 256 * (← hexValue? b) + 16 * (← hexValue? c) + (← hexValue? d)

def isHighSurrogate (n : Nat) : Bool := 0xd800 ≤ n && n ≤ 0xdbff

def isLowSurrogate (n : Nat) : Bool := 0xdc00 ≤ n && n ≤ 0xdfff

def shortUnescape? (c : Char) : Option Char :=
  match c with
  | '"' => some '"'
  | '\\' => some '\\'
  | '/' => some '/'
  | 'b' => some '\x08'
  | 'f' => some '\x0c'
  | 'n' => some '\n'
  | 'r' => some '\r'
  | 't' => some '\t'
  | _ => none

def stringTail? : List Char → Option (List Char × List Char)
  | [] => none
  | '"' :: rest => some ([], rest)
  | '\\' :: 'u' :: a :: b :: c :: d :: rest =>
    match unit? a b c d with
    | none => none
    | some n =>
      if isHighSurrogate n then
        match rest with
        | '\\' :: 'u' :: e :: f :: g :: h :: rest =>
          match unit? e f g h with
          | none => none
          | some m =>
            if isLowSurrogate m then
              (stringTail? rest).map fun (cs, tail) =>
                (Char.ofNat (0x10000 + (n - 0xd800) * 1024 + (m - 0xdc00)) :: cs, tail)
            else none
        | _ => none
      else if isLowSurrogate n then none
      else (stringTail? rest).map fun (cs, tail) => (Char.ofNat n :: cs, tail)
  | '\\' :: e :: rest =>
    match shortUnescape? e with
    | none => none
    | some c => (stringTail? rest).map fun (cs, tail) => (c :: cs, tail)
  | c :: rest =>
    if c.toNat < 0x20 ∨ c = '\\' then none
    else (stringTail? rest).map fun (cs, tail) => (c :: cs, tail)

def string? (cs : List Char) : Option (List Char × List Char) :=
  match skipBlanks cs with
  | '"' :: rest => stringTail? rest
  | _ => none

def readString? (text : String) : Option String := do
  let (cs, rest) ← string? text.toList
  if (skipBlanks rest).isEmpty then some (String.ofList cs) else none

def expect? (wanted : List Char) (cs : List Char) : Option (List Char) :=
  let cs := skipBlanks cs
  if wanted.isPrefixOf cs then some (cs.drop wanted.length) else none

def readName? (text : String) : Option String :=
  match readString? text with
  | some name => some name
  | none => do
    let cs ← expect? ['\x7b'] text.toList
    let (name, cs) ← string? cs
    let cs ← expect? [':'] cs
    let cs ← expect? ['n', 'u', 'l', 'l'] cs
    let cs ← expect? ['\x7d'] cs
    if (skipBlanks cs).isEmpty then some (String.ofList name) else none

end ArtifactVault.Json
