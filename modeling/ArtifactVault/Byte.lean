/-!
Bytes and their ASCII classes. Every byte carries a set of flags and a classifier asks for some of
them; `disagreements` compares the classifiers with the plain ranges. Bytes from 0x80 on belong to
no class, whatever the locale.
-/
namespace ArtifactVault

abbrev Bytes := List UInt8

def Bytes.ascii (cs : List Char) : Bytes := cs.map fun c => UInt8.ofNat c.toNat

def Bytes.order : Bytes → Bytes → Ordering
  | [], [] => .eq
  | [], _ :: _ => .lt
  | _ :: _, [] => .gt
  | a :: as, b :: bs => if a < b then .lt else if b < a then .gt else Bytes.order as bs

namespace Byte

inductive Class
  | space
  | digit
  | upper
  | lower
  | upperHex
  | lowerHex
  deriving DecidableEq, Repr

def classes (b : UInt8) : List Class :=
  (if b = 0x20 ∨ (0x09 ≤ b ∧ b ≤ 0x0d) then [.space] else []) ++
  (if 0x30 ≤ b ∧ b ≤ 0x39 then [.digit] else []) ++
  (if 0x41 ≤ b ∧ b ≤ 0x5a then [.upper] else []) ++
  (if 0x61 ≤ b ∧ b ≤ 0x7a then [.lower] else []) ++
  (if 0x41 ≤ b ∧ b ≤ 0x46 then [.upperHex] else []) ++
  (if 0x61 ≤ b ∧ b ≤ 0x66 then [.lowerHex] else [])

def inAny (wanted : List Class) (b : UInt8) : Bool :=
  (classes b).any (wanted.contains ·)

def isSpace (b : UInt8) : Bool := inAny [.space] b

def isDigit (b : UInt8) : Bool := inAny [.digit] b

def isUpper (b : UInt8) : Bool := inAny [.upper] b

def isLower (b : UInt8) : Bool := inAny [.lower] b

def isAlpha (b : UInt8) : Bool := inAny [.upper, .lower] b

def isAlnum (b : UInt8) : Bool := inAny [.upper, .lower, .digit] b

def isHexDigit (b : UInt8) : Bool := inAny [.digit, .upperHex, .lowerHex] b

def isLowerHexDigit (b : UInt8) : Bool := inAny [.digit, .lowerHex] b

def isUpperHexDigit (b : UInt8) : Bool := inAny [.digit, .upperHex] b

def toLower (b : UInt8) : UInt8 := if isUpper b then b + 32 else b

def toUpper (b : UInt8) : UInt8 := if isLower b then b - 32 else b

end Byte

structure PlainRanges where
  space : Bool
  digit : Bool
  upper : Bool
  lower : Bool
  upperHex : Bool
  lowerHex : Bool
  deriving DecidableEq, Repr

namespace Byte

def plainRanges (b : UInt8) : PlainRanges where
  space := [32, 9, 10, 11, 12, 13].contains b.toNat
  digit := 48 ≤ b.toNat && b.toNat ≤ 57
  upper := 65 ≤ b.toNat && b.toNat ≤ 90
  lower := 97 ≤ b.toNat && b.toNat ≤ 122
  upperHex := 65 ≤ b.toNat && b.toNat ≤ 70
  lowerHex := 97 ≤ b.toNat && b.toNat ≤ 102

def agrees (b : UInt8) : Bool :=
  let p := plainRanges b
  isSpace b == p.space && isDigit b == p.digit && isUpper b == p.upper && isLower b == p.lower &&
  isAlpha b == (p.upper || p.lower) && isAlnum b == (p.upper || p.lower || p.digit) &&
  isHexDigit b == (p.digit || p.upperHex || p.lowerHex) &&
  isLowerHexDigit b == (p.digit || p.lowerHex) && isUpperHexDigit b == (p.digit || p.upperHex) &&
  toLower b == (if p.upper then b ||| 0x20 else b) &&
  toUpper b == (if p.lower then b &&& 0xdf else b)

def all : Bytes := (List.range 256).map UInt8.ofNat

def disagreements : Bytes := all.filter (!agrees ·)

end Byte

end ArtifactVault
