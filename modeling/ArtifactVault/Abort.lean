import ArtifactVault.Text.Utf8

/-!
Causes that end a run. Sizes at the ceiling, arguments no shell may see and reads of text as what
it is not are never reported to a caller; the last two causes of a broken blob are listed so that
their absence can be stated.
-/
namespace ArtifactVault

def sizeCeiling : Nat := 0x7fff0000

def wordLimit : Nat := UInt64.size

inductive SizeRequest
  | ofBytes
  | borrow
  | append
  | resize
  | reserve
  deriving DecidableEq, Repr

def SizeRequest.label : SizeRequest → String
  | .ofBytes => "from_vec"
  | .borrow => "borrowed"
  | .append => "append"
  | .resize => "resize"
  | .reserve => "reserve"

inductive Abort
  | ceiling (request : SizeRequest) (size : Nat)
  | lengthOverflow
  | selfRange (start stop length : Nat)
  | formattedSql
  | illFormedSql (fault : Utf8.Fault)
  | argumentByte (argument : Bytes) (command : Option Bytes) (byte : UInt8)
  | argumentText (argument : Bytes) (command : Option Bytes)
  | headerOverflow (total : Nat)
  | borrowedWrite
  | outOfRange
  deriving DecidableEq, Repr

namespace Abort

def hexByte (b : UInt8) : String :=
  String.ofList [Nat.digitChar (b.toNat / 16), Nat.digitChar (b.toNat % 16)]

def target : Option Bytes → String
  | some command => s!" to the \"{Utf8.lossy command}\" command"
  | none => ""

def message : Abort → String
  | .ceiling request size =>
    s!"{request.label}: a blob of {size} bytes would reach the {sizeCeiling}-byte size limit"
  | .lengthOverflow => "append: blob length overflow"
  | .selfRange start stop length =>
    s!"append_from_self: range {start}..{stop} outside blob of {length} bytes"
  | .formattedSql => "sql_text: blob was built with the general formatter and is not pure SQL"
  | .illFormedSql fault => s!"sql_text: blob is not valid UTF-8: {fault.message}"
  | .argumentByte argument command byte =>
    s!"the [{Utf8.lossy argument}] argument{target command} contains a character " ++
      s!"(ascii 0x{hexByte byte}) that is not allowed in shell arguments"
  | .argumentText argument command =>
    s!"the [{Utf8.lossy argument}] argument{target command} contains an illegal UTF-8 character"
  | .headerOverflow total => s!"compress: {total} bytes of input do not fit the envelope header"
  | .borrowedWrite => "attempt to write into borrowed blob storage"
  | .outOfRange => "access outside a blob"

end Abort

def checkCeiling (size : Nat) (request : SizeRequest) : Except Abort Unit :=
  if sizeCeiling ≤ size then .error (.ceiling request size) else .ok ()

end ArtifactVault
