import ArtifactVault.Byte

/-!
UTF-8 over byte strings. `head` says what stands at the front of a string: a character, the longest
ill-formed part that a character could have begun with, or a character cut off by the end.
`decode` refuses the first fault, `lossy` writes U+FFFD for each. `encode` is the other side:
`Valid` asks for nothing but being an encoding.
-/
namespace ArtifactVault.Utf8

def encodeChar (c : Char) : Bytes :=
  let v := c.toNat
  if v < 0x80 then [UInt8.ofNat v]
  else if v < 0x800 then [UInt8.ofNat (0xc0 + v / 64), UInt8.ofNat (0x80 + v % 64)]
  else if v < 0x10000 then
    [UInt8.ofNat (0xe0 + v / 4096), UInt8.ofNat (0x80 + v / 64 % 64), UInt8.ofNat (0x80 + v % 64)]
  else
    [UInt8.ofNat (0xf0 + v / 262144), UInt8.ofNat (0x80 + v / 4096 % 64),
      UInt8.ofNat (0x80 + v / 64 % 64), UInt8.ofNat (0x80 + v % 64)]

def encode (cs : List Char) : Bytes := cs.flatMap encodeChar

def ofString (s : String) : Bytes := encode s.toList

def Valid (bs : Bytes) : Prop := ∃ cs, encode cs = bs

def isContinuation (b : UInt8) : Bool := 0x80 ≤ b && b ≤ 0xbf

def secondOfThree (lead b : UInt8) : Bool :=
  if lead = 0xe0 then 0xa0 ≤ b && b ≤ 0xbf
  else if lead = 0xed then 0x80 ≤ b && b ≤ 0x9f
  else isContinuation b

def secondOfFour (lead b : UInt8) : Bool :=
  if lead = 0xf0 then 0x90 ≤ b && b ≤ 0xbf
  else if lead = 0xf4 then 0x80 ≤ b && b ≤ 0x8f
  else isContinuation b

def bits (b : UInt8) (modulus : Nat) : Nat := b.toNat % modulus

inductive Head
  | char (c : Char) (width : Nat)
  | fault (width : Nat)
  | cut
  deriving DecidableEq, Repr

def head (lead : UInt8) (rest : Bytes) : Head :=
  if lead < 0x80 then .char (Char.ofNat lead.toNat) 1
  else if 0xc2 ≤ lead ∧ lead ≤ 0xdf then
    match rest with
    | [] => .cut
    | b :: _ =>
      if isContinuation b then .char (Char.ofNat (bits lead 32 * 64 + bits b 64)) 2 else .fault 1
  else if 0xe0 ≤ lead ∧ lead ≤ 0xef then
    match rest with
    | [] => .cut
    | b :: rest =>
      if secondOfThree lead b then
        match rest with
        | [] => .cut
        | c :: _ =>
          if isContinuation c then
            .char (Char.ofNat (bits lead 16 * 4096 + bits b 64 * 64 + bits c 64)) 3
          else .fault 2
      else .fault 1
  else if 0xf0 ≤ lead ∧ lead ≤ 0xf4 then
    match rest with
    | [] => .cut
    | b :: rest =>
      if secondOfFour lead b then
        match rest with
        | [] => .cut
        | c :: rest =>
          if isContinuation c then
            match rest with
            | [] => .cut
            | d :: _ =>
              if isContinuation d then
                .char (Char.ofNat
                  (bits lead 8 * 262144 + bits b 64 * 4096 + bits c 64 * 64 + bits d 64)) 4
              else .fault 3
          else .fault 2
      else .fault 1
  else .fault 1

structure Fault where
  offset : Nat
  width : Option Nat
  deriving DecidableEq, Repr

def Fault.message (f : Fault) : String :=
  match f.width with
  | some n => s!"invalid utf-8 sequence of {n} bytes from index {f.offset}"
  | none => s!"incomplete utf-8 byte sequence from index {f.offset}"

def firstFaultFrom? (offset : Nat) : Bytes → Option Fault
  | [] => none
  | b :: rest =>
    match head b rest with
    | .char _ width => firstFaultFrom? (offset + width) (rest.drop (width - 1))
    | .fault width => some ⟨offset, some width⟩
    | .cut => some ⟨offset, none⟩
  termination_by bs => bs.length
  decreasing_by simp only [List.length_drop, List.length_cons]; omega

def firstFault? (bs : Bytes) : Option Fault := firstFaultFrom? 0 bs

def readOnto (read : List Char) : Bytes → List Char
  | [] => read
  | b :: rest =>
    match head b rest with
    | .char c width => readOnto (c :: read) (rest.drop (width - 1))
    | .fault width => readOnto ('\uFFFD' :: read) (rest.drop (width - 1))
    | .cut => '\uFFFD' :: read
  termination_by bs => bs.length
  decreasing_by all_goals simp only [List.length_drop, List.length_cons]; omega

def lossyChars (bs : Bytes) : List Char := (readOnto [] bs).reverse

def decode (bs : Bytes) : Except Fault (List Char) :=
  match firstFault? bs with
  | some fault => .error fault
  | none => .ok (lossyChars bs)

def isValid (bs : Bytes) : Bool := (firstFault? bs).isNone

def lossy (bs : Bytes) : String := String.ofList (lossyChars bs)

end ArtifactVault.Utf8
