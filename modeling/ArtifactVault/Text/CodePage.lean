import ArtifactVault.Byte

/-!
Windows-1252. Only the bytes 0x80 to 0x9f differ from their own code points; of these the five
without a character keep their own value too.
-/
namespace ArtifactVault.CodePage

def high : Array Nat :=
  #[0x20ac, 0x0081, 0x201a, 0x0192, 0x201e, 0x2026, 0x2020, 0x2021,
    0x02c6, 0x2030, 0x0160, 0x2039, 0x0152, 0x008d, 0x017d, 0x008f,
    0x0090, 0x2018, 0x2019, 0x201c, 0x201d, 0x2022, 0x2013, 0x2014,
    0x02dc, 0x2122, 0x0161, 0x203a, 0x0153, 0x009d, 0x017e, 0x0178]

def codePoint (b : UInt8) : Nat :=
  if 0x80 ≤ b ∧ b ≤ 0x9f then high.getD (b.toNat - 0x80) b.toNat else b.toNat

def char (b : UInt8) : Char := Char.ofNat (codePoint b)

def growth (b : UInt8) : Nat :=
  if 0x80 ≤ b ∧ b ≤ 0x9f ∧ 0x800 ≤ high.getD (b.toNat - 0x80) 0 then 2
  else if 0x80 ≤ b then 1
  else 0

end ArtifactVault.CodePage
