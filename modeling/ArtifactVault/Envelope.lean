import ArtifactVault.Blob.Growth
import ArtifactVault.Zlib

/-!
Compression envelopes: the length of the content as four bytes, most significant first, then the
framed stream. A stream may fall short of the length it declares but not go beyond it, and nothing
more is read of one that does.
-/
namespace ArtifactVault.Envelope

def headerLength : Nat := 4

inductive Fault
  | corrupt (stream : Deflate.Fault)
  | longerThanDeclared (declared : Nat)
  | declaredTooLarge (declared : Nat)
  deriving DecidableEq, Repr

def Fault.message : Fault → String
  | .corrupt .corrupt => "corrupt compressed stream: corrupt deflate stream"
  | .corrupt .truncated => "corrupt compressed stream: incomplete deflate stream"
  | .longerThanDeclared declared =>
    s!"stream inflates past its declared length of {declared} bytes"
  | .declaredTooLarge declared =>
    s!"declared length of {declared} bytes exceeds the blob size limit"

def declaredLength? : Bytes → Option Nat
  | b0 :: b1 :: b2 :: b3 :: _ => some (Zlib.ofWord b0 b1 b2 b3)
  | _ => none

def wrapAll [Zlib.Encoder] (parts : List Bytes) : Except Abort Blob := do
  let total := parts.flatten.length
  if UInt32.size ≤ total then throw (.headerOverflow total)
  Blob.ofBytes (Zlib.word total ++ Zlib.Encoder.encode parts)

def wrap [Zlib.Encoder] (b : Blob) : Except Abort Blob := wrapAll [b.content]

def wrapPair [Zlib.Encoder] (first second : Blob) : Except Abort Blob :=
  wrapAll [first.content, second.content]

/-- Bytes of a stream that are read at a time, and bytes of its content that are made at a time. -/
def stride : Nat := 32768

def madeBeforeFault (framed : Bytes) : Nat → Nat
  | 0 => 0
  | strides + 1 =>
    match Zlib.decode (framed.take ((strides + 1) * stride)) with
    | .truncated content => content.length
    | _ => madeBeforeFault framed strides

/-- How much has been handed out when a reader comes upon a fault behind `made` bytes. What is made
is handed out when a stride of it is full and goes on, and when a stride of the stream is used
up. -/
def handedOut (framed : Bytes) (made : Nat) : Nat :=
  max ((made - 1) / stride * stride) (madeBeforeFault framed (framed.length / stride))

def contentOf (declared : Nat) (framed : Bytes) : Except Fault Bytes :=
  match Zlib.decode framed with
  | .complete content =>
    if declared < content.length then .error (.longerThanDeclared declared) else .ok content
  | .truncated content =>
    if declared < content.length then .error (.longerThanDeclared declared)
    else .error (.corrupt .truncated)
  | .corrupt content =>
    if declared < handedOut framed content.length then .error (.longerThanDeclared declared)
    else .error (.corrupt .corrupt)

def unwrapBytes (envelope : Bytes) : Except Fault Bytes :=
  if envelope.length ≤ headerLength then .ok []
  else
    let declared := (declaredLength? envelope).getD 0
    if sizeCeiling ≤ declared + 1 then .error (.declaredTooLarge declared)
    else contentOf declared (envelope.drop headerLength)

def unwrapInto (envelope destination : Blob) : Except Abort (Except Fault Nat × Blob) :=
  match unwrapBytes envelope.content with
  | .ok bytes => do return (.ok bytes.length, ← Blob.ofBytes bytes)
  | .error fault => .ok (.error fault, destination.reset)

def unwrap (envelope : Blob) : Except Abort (Except Fault Blob) := do
  match ← unwrapInto envelope .empty with
  | (.ok _, content) => return .ok content
  | (.error fault, _) => return .error fault

def unwrapInPlace (envelope : Blob) : Except Abort (Except Fault Nat × Blob) := do
  match ← unwrapInto envelope .empty with
  | (.ok length, content) => return (.ok length, content)
  | (.error fault, _) => return (.error fault, envelope)

end ArtifactVault.Envelope
