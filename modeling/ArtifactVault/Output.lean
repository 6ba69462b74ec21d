import ArtifactVault.Blob.Compose
import ArtifactVault.Stream.Writer

/-!
Where generated bytes go: a blob that is kept for later, or a channel that passes them on. What is
written is the same; only a channel can fail, and only a blob keeps the mark of formatted text.
-/
namespace ArtifactVault

inductive Output
  | buffer (b : Blob)
  | channel (w : Writer)
  deriving DecidableEq, Repr

namespace Output

def isBuffered : Output → Bool
  | buffer _ => true
  | channel _ => false

def deliver (out : Output) (toBuffer : Blob → Except Abort Blob)
    (toChannel : Writer → Except SystemError Unit × Writer) :
    Except Abort (Except SystemError Unit × Output) :=
  match out with
  | buffer b => do return (.ok (), buffer (← toBuffer b))
  | channel w =>
    let (outcome, w) := toChannel w
    .ok (outcome, channel w)

def append (out : Output) (bytes : Bytes) : Except Abort (Except SystemError Unit × Output) :=
  out.deliver (·.append bytes) (·.writeAll bytes)

def appendText (out : Output) (text : String) : Except Abort (Except SystemError Unit × Output) :=
  out.append (Utf8.ofString text)

def writeTexts (w : Writer) : List String → Except SystemError Unit × Writer
  | [] => (.ok (), w)
  | text :: texts =>
    match w.writeAll (Utf8.ofString text) with
    | (.ok _, w) => writeTexts w texts
    | (.error e, w) => (.error e, w)

def appendFormatted (out : Output) (pieces : List String) :
    Except Abort (Except SystemError Unit × Output) :=
  out.deliver (·.appendFormatted pieces) (writeTexts · pieces)

def write (out : Output) (bytes : Bytes) : Except Abort (Except SystemError Nat × Output) :=
  match out with
  | buffer b => do return (.ok bytes.length, buffer (← b.append bytes))
  | channel w =>
    let (outcome, w) := w.write bytes
    .ok (outcome, channel w)

def writeAll (out : Output) (bytes : Bytes) : Except Abort (Except SystemError Unit × Output) :=
  if bytes.isEmpty then .ok (.ok (), out) else out.append bytes

def writeFormatted (out : Output) (pieces : List String) :
    Except Abort (Except SystemError Unit × Output) := out.appendFormatted pieces

def flush : Output → Output
  | buffer b => buffer b
  | channel w => channel w.flush

end Output

end ArtifactVault
