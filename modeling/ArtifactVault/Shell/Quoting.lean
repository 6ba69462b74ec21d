import ArtifactVault.Blob.Compose
import ArtifactVault.Shell.Flavor

/-!
Quoting arguments onto a command line. Controls and ill-formed UTF-8 end the run, since an argument
that cannot be quoted safely must reach no shell; a file name that begins with a dash gets a guard.
POSIX arguments stand between single quotes, or are escaped byte by byte when they hold one;
Windows arguments stand between double quotes, each inside doubled.
-/
namespace ArtifactVault.Shell

def commandWord (line : Bytes) : Bytes :=
  (line.dropWhile Byte.isSpace).takeWhile (!Byte.isSpace ·)

def check (flavor : Flavor) (argument : Bytes) (command : Option Bytes) : Except Abort Bool :=
  match scan flavor false argument with
  | .ok quoting => .ok quoting
  | .error (.byte b) => .error (.argumentByte argument command b)
  | .error .text => .error (.argumentText argument command)

def guardOf (flavor : Flavor) (argument : Bytes) (isFilename : Bool) : Bytes :=
  if isFilename && argument.head? = some 0x2d then flavor.dashGuard else []

def defuse (flavor : Flavor) (argument : Bytes) : Except Abort Bytes := do
  let _ ← check flavor argument none
  return guardOf flavor argument true ++ argument

def appendSeparator (b : Blob) : Except Abort Blob :=
  match b.content.getLast? with
  | some last => if Byte.isSpace last then .ok b else b.appendByte 0x20
  | none => .ok b

def appendEscaped (escape? : UInt8 → Option UInt8) (b : Blob) (byte : UInt8) : Except Abort Blob :=
  match escape? byte with
  | some before => do (← b.appendByte before).appendByte byte
  | none => b.appendByte byte

def posixEscape? (byte : UInt8) : Option UInt8 :=
  match Flavor.posix.role byte with
  | .quoted => some 0x5c
  | .lead _ => some 0x5c
  | _ => none

def windowsEscape? (byte : UInt8) : Option UInt8 := if byte = 0x22 then some 0x22 else none

def appendQuoted (b : Blob) (flavor : Flavor) (shield argument : Bytes) : Except Abort Blob :=
  match flavor with
  | .posix =>
    if argument.contains 0x27 then do
      argument.foldlM (appendEscaped posixEscape?) (← b.append shield)
    else do
      let b ← b.appendByte 0x27
      let b ← b.append shield
      let b ← b.append argument
      b.appendByte 0x27
  | .windows => do
    let b ← b.appendByte 0x22
    let b ← b.append shield
    let b ← argument.foldlM (appendEscaped windowsEscape?) b
    b.appendByte 0x22

def appendArgument (b : Blob) (flavor : Flavor) (argument : Bytes) (isFilename : Bool) :
    Except Abort Blob := do
  let quoting ← check flavor argument (some (commandWord b.content))
  let b ← appendSeparator b.mark
  let shield := guardOf flavor argument isFilename
  if quoting || argument.isEmpty then appendQuoted b flavor shield argument
  else (← b.append shield).append argument

end ArtifactVault.Shell
