import ArtifactVault.Blob.Cursor
import ArtifactVault.Blob.Normalize
import ArtifactVault.Shell.Quoting

/-!
Programs over blobs. Registers hold blobs, and an operation makes, changes, reads or pairs them;
a run ends at the first operation that aborts.
-/
namespace ArtifactVault.Blob

inductive Creation
  | new
  | ofBytes (bytes : Bytes)
  | borrow (bytes : Bytes)
  | borrowUntilNul (bytes : Bytes)
  | withCapacity (minimum : Nat)

def Creation.make : Creation → Except Abort Blob
  | .new => .ok empty
  | .ofBytes bytes => Blob.ofBytes bytes
  | .borrow bytes => Blob.borrow bytes
  | .borrowUntilNul bytes => Blob.borrowUntilNul bytes
  | .withCapacity minimum => Blob.withCapacity minimum

inductive Adjustment
  | reset
  | truncate (n : Nat)
  | trim
  | seek (offset : Int) (whence : Whence)
  | rewind

def Adjustment.apply (b : Blob) : Adjustment → Blob
  | .reset => b.reset
  | .truncate n => b.truncate n
  | .trim => b.trim
  | .seek offset whence => b.seek offset whence
  | .rewind => b.rewind

inductive Edit
  | append (bytes : Bytes)
  | appendByte (byte : UInt8)
  | appendRepeat (byte : UInt8) (count : Nat)
  | appendFromSelf (start stop : Nat)
  | resize (n : Nat)
  | reserve (minimum : Nat)
  | materialize
  | terminated
  | cString
  | setByte (index : Nat) (byte : UInt8)

def Edit.apply (b : Blob) : Edit → Except Abort Blob
  | .append bytes => b.append bytes
  | .appendByte byte => b.appendByte byte
  | .appendRepeat byte count => b.appendRepeat byte count
  | .appendFromSelf start stop => b.appendFromSelf start stop
  | .resize n => b.resize n
  | .reserve minimum => b.reserve minimum
  | .materialize => b.materialize
  | .terminated => return (← b.terminated).2
  | .cString => return (← b.cString).2
  | .setByte index byte => return (← b.setByte index byte).2

inductive TextEdit
  | writeText (text : String)
  | formatted (pieces : List String)
  | html (text : String)
  | json (text : String)
  | sql (statement : String)
  | sqlEscaped (text : String)
  | sqlString (text : Option String)
  | sqlIdentifier (name : String)
  | sqlInt (value : Int64)
  | sqlText
  | argument (flavor : Shell.Flavor) (bytes : Bytes) (isFilename : Bool)
  | addCarriageReturns
  | newlinesOnly
  | transcodeCodePage
  | stripUtf8Mark
  | normalize (assumeCodePage : Bool)

def TextEdit.apply (b : Blob) : TextEdit → Except Abort Blob
  | .writeText text => b.writeText text
  | .formatted pieces => b.appendFormatted pieces
  | .html text => b.appendHtml text
  | .json text => b.appendJson text
  | .sql statement => b.appendSql statement
  | .sqlEscaped text => b.appendSqlEscaped text
  | .sqlString text => b.appendSqlString text
  | .sqlIdentifier name => b.appendSqlIdentifier name
  | .sqlInt value => b.appendSqlInt value
  | .sqlText => do let _ ← b.sqlText; return b
  | .argument flavor bytes isFilename => Shell.appendArgument b flavor bytes isFilename
  | .addCarriageReturns => b.addCarriageReturns
  | .newlinesOnly => b.newlinesOnly
  | .transcodeCodePage => b.transcodeCodePage
  | .stripUtf8Mark => return (← b.stripUtf8Mark).2
  | .normalize assumeCodePage => b.normalize assumeCodePage

inductive Reader
  | extract (n : Nat)
  | extractLines (n : Nat)
  | line
  | token
  | sqlToken
  | tail

def Reader.read (b : Blob) : Reader → Except Abort (Option Blob × Blob)
  | .extract n => do
    let (found, after) ← b.extract n
    return (some found, after)
  | .extractLines n => return (some (← b.extractLines n), b)
  | .line => b.line
  | .token => b.token
  | .sqlToken => b.sqlToken
  | .tail => return (some (← b.tail), b)

inductive Transfer
  | copyFrom
  | appendConsume
  | toOwned
  | copyLines (n : Nat)
  | stripCommentLines

def Transfer.apply (b source : Blob) : Transfer → Except Abort (Blob × Blob)
  | .copyFrom => return (← b.copyFrom source, source)
  | .appendConsume => b.appendConsume source
  | .toOwned => return (← source.toOwned, source)
  | .copyLines n => do
    let (_, source, b) ← source.copyLines b n
    return (b, source)
  | .stripCommentLines => do
    let (source, b) ← source.stripCommentLines b
    return (b, source)

inductive Operation
  | create (target : Nat) (creation : Creation)
  | adjust (target : Nat) (adjustment : Adjustment)
  | edit (target : Nat) (change : Edit)
  | text (target : Nat) (change : TextEdit)
  | read (target source : Nat) (reader : Reader)
  | transfer (target source : Nat) (transfer : Transfer)
  | copy (target source : Nat)
  | swap (left right : Nat)
  | resetAll (targets : List Nat)

abbrev Registers := Nat → Blob

def blank : Registers := fun _ => empty

def Registers.set (blobs : Registers) (target : Nat) (b : Blob) : Registers :=
  fun register => if register = target then b else blobs register

def step (blobs : Registers) : Operation → Except Abort Registers
  | .create target creation => return blobs.set target (← creation.make)
  | .adjust target adjustment => .ok (blobs.set target (adjustment.apply (blobs target)))
  | .edit target change => return blobs.set target (← change.apply (blobs target))
  | .text target change => return blobs.set target (← change.apply (blobs target))
  | .read target source reader => do
    let (found, after) ← reader.read (blobs source)
    return (blobs.set source after).set target (found.getD empty)
  | .transfer target source transfer => do
    let (changed, after) ← transfer.apply (blobs target) (blobs source)
    return (blobs.set source after).set target changed
  | .copy target source => .ok (blobs.set target (blobs source))
  | .swap left right => .ok ((blobs.set left (blobs right)).set right (blobs left))
  | .resetAll targets =>
    .ok (targets.foldl (fun blobs target => blobs.set target (blobs target).reset) blobs)

def run (blobs : Registers) (program : List Operation) : Except Abort Registers :=
  program.foldlM step blobs

def Operation.canAbort : Operation → Bool
  | .create .. | .edit .. | .text .. | .transfer .. => true
  | .adjust .. | .read .. | .copy .. | .swap .. | .resetAll .. => false

end ArtifactVault.Blob
