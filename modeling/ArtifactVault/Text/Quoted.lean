import ArtifactVault.Text.Unprintable

/-!
Quoted text for diagnostics: a string between double quotes, or a character between single ones.
Only the quote in use is escaped; unprintable characters are shown by number.
-/
namespace ArtifactVault.Quoted

def codePoint (c : Char) : List Char := Nat.toDigits 16 c.toNat

def escape (quote c : Char) : List Char :=
  if c = '\x00' then ['\\', '0']
  else if c = '\t' then ['\\', 't']
  else if c = '\r' then ['\\', 'r']
  else if c = '\n' then ['\\', 'n']
  else if c = '\\' ∨ c = quote then ['\\', c]
  else if Unprintable.contains c then '\\' :: 'u' :: '\x7b' :: codePoint c ++ ['\x7d']
  else [c]

def string (s : String) : String :=
  String.ofList ('"' :: s.toList.flatMap (escape '"') ++ ['"'])

def char (c : Char) : String :=
  String.ofList ('\'' :: escape '\'' c ++ ['\''])

end ArtifactVault.Quoted
