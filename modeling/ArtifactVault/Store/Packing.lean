import ArtifactVault.ArtifactId
import ArtifactVault.Envelope
import ArtifactVault.Transfer

/-!
What every store does with an artifact: its content is named and wrapped on the way in, and
unwrapped, hashed again and compared with its name on the way out.
-/
namespace ArtifactVault

inductive StoreError
  | missing (id : ArtifactId)
  | mismatch (id computed : ArtifactId)
  | corrupt (id : ArtifactId) (fault : Envelope.Fault)
  | badSettings (detail : String)
  | transfer (e : TransferError)
  | system (e : SystemError)
  deriving DecidableEq, Repr

def StoreError.message : StoreError → String
  | .missing id => s!"artifact not found: {id.hex}"
  | .mismatch id computed => s!"hash mismatch for {id.hex}: content hashes to {computed.hex}"
  | .corrupt id fault => s!"corrupt artifact {id.hex}: {fault.message}"
  | .badSettings detail => s!"invalid store configuration: {detail}"
  | .transfer e => e.message
  | .system e => s!"I/O error: {e.message}"

namespace Store

def pack [Zlib.Encoder] (settings : StoreSettings) (content : Blob) :
    Except Abort (ArtifactId × Blob) := do
  let envelope ← Envelope.wrap content
  return (.compute settings.algorithm content.content, envelope)

def verify (settings : StoreSettings) (id : ArtifactId) (content : Blob) :
    Except StoreError Blob :=
  if settings.verifyReads && !id.verifies content.content then
    .error (.mismatch id (.compute id.algorithm content.content))
  else .ok content

def unpack (settings : StoreSettings) (id : ArtifactId) (envelope : Blob) :
    Except Abort (Except StoreError Blob) := do
  match ← Envelope.unwrap envelope with
  | .error fault => return .error (.corrupt id fault)
  | .ok content => return verify settings id content

end Store

end ArtifactVault
