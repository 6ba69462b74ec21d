import ArtifactVault.Text.Utf8

/-!
Shells and the bytes they may see. Each flavour classes a byte as safe, as in need of quoting, as
the lead of a character of several bytes, or as illegal; `scan` reads an argument by these classes.
-/
namespace ArtifactVault.Shell

inductive Flavor
  | posix
  | windows
  deriving DecidableEq, Repr

def Flavor.host : Flavor := .posix

def Flavor.special : Flavor → Bytes
  | .posix =>
    Bytes.ascii [' ', '!', '"', '#', '$', '%', '&', '\'', '(', ')', '*', ';', '<', '>', '?', '[',
      '\\', ']', '^', '\x60', '\x7b', '|', '\x7d', '~']
  | .windows =>
    Bytes.ascii [' ', '"', '%', '&', '\'', '(', ')', ';', '<', '>', '^', '|', '\x60', '!']

def Flavor.dashGuard : Flavor → Bytes
  | .posix => Bytes.ascii ['.', '/']
  | .windows => Bytes.ascii ['.', '\\']

inductive Role
  | safe
  | quoted
  | illegal
  | lead (continuations : Nat)
  deriving DecidableEq, Repr

def Flavor.role (flavor : Flavor) (b : UInt8) : Role :=
  if flavor.special.contains b then .quoted
  else if b ≤ 0x1f ∨ b = 0x7f then .illegal
  else if b < 0x80 then .safe
  else if 0xc0 ≤ b ∧ b ≤ 0xdf then .lead 1
  else if 0xe0 ≤ b ∧ b ≤ 0xef then .lead 2
  else if 0xf0 ≤ b ∧ b ≤ 0xf7 then .lead 3
  else .illegal

inductive ScanFault
  | byte (b : UInt8)
  | text
  deriving DecidableEq, Repr

def scan (flavor : Flavor) (quoting : Bool) : Bytes → Except ScanFault Bool
  | [] => .ok quoting
  | b :: rest =>
    match flavor.role b with
    | .safe => scan flavor quoting rest
    | .quoted => scan flavor true rest
    | .illegal => .error (.byte b)
    | .lead n =>
      let continuations := rest.take n
      if continuations.length = n ∧ continuations.all Utf8.isContinuation then
        scan flavor true (rest.drop n)
      else .error .text
  termination_by bs => bs.length
  decreasing_by all_goals simp only [List.length_drop, List.length_cons]; omega

end ArtifactVault.Shell
