import ArtifactVault.Blob.Session
import ArtifactVault.Envelope
import ArtifactVault.Transfer

/-!
Whole lives of blobs. Beside the actions on registers there are events that bring bytes in from
elsewhere: content is wrapped and unwrapped, streams and files are read. What an event needs from
outside it brings along, and its reply holds what is left of that. A life ends at the first abort.
-/
namespace ArtifactVault.Lifetime
open Blob

inductive Event
  | act (action : Action)
  | inspect (source : Nat)
  | wrap (target source : Nat)
  | wrapPair (target first second : Nat)
  | unwrap (target source : Nat)
  | unwrapInPlace (target : Nat)
  | readStream (target : Nat) (limit : Option Nat) (source : Source)
  | load (target : Nat) (host : Host) (path : Bytes) (policy : LinkPolicy) (settings : FileSettings)

inductive Reply
  | answer (value : Answer)
  | storage (capacity : Nat) (ownership : Ownership) (isReset : Bool)
  | wrapped
  | unwrapped (outcome : Except Envelope.Fault Nat)
  | received (outcome : Except SystemError Nat) (rest : Source)
  | loaded (outcome : Except TransferError Nat) (host : Host)

def occur [Zlib.Encoder] (blobs : Registers) : Event → Except Abort (Reply × Registers)
  | .act action => do
    let (answer, after) ← Blob.act blobs action
    return (.answer answer, after)
  | .inspect source =>
    let b := blobs source
    .ok (.storage b.capacity b.ownership b.isReset, blobs)
  | .wrap target source => return (.wrapped, blobs.set target (← Envelope.wrap (blobs source)))
  | .wrapPair target first second =>
    return (.wrapped, blobs.set target (← Envelope.wrapPair (blobs first) (blobs second)))
  | .unwrap target source => do
    let (outcome, content) ← Envelope.unwrapInto (blobs source) (blobs target)
    return (.unwrapped outcome, blobs.set target content)
  | .unwrapInPlace target => do
    let (outcome, content) ← Envelope.unwrapInPlace (blobs target)
    return (.unwrapped outcome, blobs.set target content)
  | .readStream target limit source => do
    let (outcome, read, rest) ← (blobs target).readStream limit source
    return (.received outcome rest, blobs.set target read)
  | .load target host path policy settings => do
    let (outcome, read, host) ← Transfer.load host (blobs target) path policy settings
    return (.loaded outcome host, blobs.set target read)

def live [Zlib.Encoder] (blobs : Registers) (events : List Event) : Except Abort Registers :=
  events.foldlM (fun blobs event => do return (← occur blobs event).2) blobs

end ArtifactVault.Lifetime
