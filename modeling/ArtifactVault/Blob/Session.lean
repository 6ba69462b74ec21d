import ArtifactVault.Blob.Compare
import ArtifactVault.Blob.Program

/-!
Sessions over blobs: what each operation answers, and the questions that change nothing. Capacity
and strategy, which tell how the bytes are held, are no questions here. A session shows every answer
with the registers after it, up to the first abort.
-/
namespace ArtifactVault.Blob

inductive Answer
  | nothing
  | bytes (value : Bytes)
  | text (value : String)
  | flag (value : Bool)
  | count (value : Nat)
  | order (value : Ordering)
  | number (value : Option Int64)
  | algorithm (value : Option Algorithm)
  | hash (value : UInt64)
  deriving DecidableEq

def Adjustment.answer (b : Blob) : Adjustment → Answer
  | .seek offset whence => .count (b.seek offset whence).cursor
  | .reset | .truncate _ | .trim | .rewind => .nothing

def Edit.answer (b : Blob) : Edit → Except Abort Answer
  | .terminated => return .bytes (← b.terminated).1
  | .cString => return .bytes (← b.cString).1
  | .setByte index byte => return .flag (← b.setByte index byte).1
  | .append _ | .appendByte _ | .appendRepeat .. | .appendFromSelf .. | .resize _ | .reserve _
  | .materialize => .ok .nothing

def TextEdit.answer (b : Blob) : TextEdit → Except Abort Answer
  | .sqlText => return .text (← b.sqlText)
  | .stripUtf8Mark => return .flag (← b.stripUtf8Mark).1
  | .writeText _ | .formatted _ | .html _ | .json _ | .sql _ | .sqlEscaped _ | .sqlString _
  | .sqlIdentifier _ | .sqlInt _ | .argument .. | .addCarriageReturns | .newlinesOnly
  | .transcodeCodePage | .normalize _ => .ok .nothing

def Reader.answer (b : Blob) (reader : Reader) : Except Abort Answer :=
  return .flag (← reader.read b).1.isSome

def Transfer.answer (b source : Blob) : Transfer → Except Abort Answer
  | .copyLines n => return .count (← source.copyLines b n).1
  | .copyFrom | .appendConsume | .toOwned | .stripCommentLines => .ok .nothing

def Operation.answer (blobs : Registers) : Operation → Except Abort Answer
  | .adjust target adjustment => .ok (adjustment.answer (blobs target))
  | .edit target change => change.answer (blobs target)
  | .text target change => change.answer (blobs target)
  | .read _ source reader => reader.answer (blobs source)
  | .transfer target source kind => kind.answer (blobs target) (blobs source)
  | .create .. | .copy .. | .swap .. | .resetAll _ => .ok .nothing

inductive Query
  | content
  | length
  | isEmpty
  | position
  | isPureSql
  | lossyText
  | lineCount
  | hashName
  | parseInt
  | equalsBytes (bytes : Bytes)
  | contentHash

def Query.answer (b : Blob) : Query → Answer
  | .content => .bytes b.content
  | .length => .count b.used
  | .isEmpty => .flag b.isEmpty
  | .position => .count b.cursor
  | .isPureSql => .flag b.isPureSql
  | .lossyText => .text b.lossyText
  | .lineCount => .count b.lineCount
  | .hashName => .algorithm b.hashNameAlgorithm?
  | .parseInt => .number b.parseInt
  | .equalsBytes bytes => .flag (b.equalsBytes bytes)
  | .contentHash => .hash b.contentHash

inductive Comparison
  | order
  | equals
  | constantTimeEquals

def Comparison.answer (left right : Blob) : Comparison → Answer
  | .order => .order (left.compare right)
  | .equals => .flag (left.equals right)
  | .constantTimeEquals => .flag (left.constantTimeEquals right)

inductive Action
  | operate (operation : Operation)
  | ask (source : Nat) (query : Query)
  | compare (left right : Nat) (comparison : Comparison)

def act (blobs : Registers) : Action → Except Abort (Answer × Registers)
  | .operate operation => return (← operation.answer blobs, ← step blobs operation)
  | .ask source query => .ok (query.answer (blobs source), blobs)
  | .compare left right comparison =>
    .ok (comparison.answer (blobs left) (blobs right), blobs)

structure Session where
  steps : List (Answer × Registers)
  abort : Option Abort

def session (blobs : Registers) : List Action → Session
  | [] => ⟨[], none⟩
  | action :: rest =>
    match act blobs action with
    | .error cause => ⟨[], some cause⟩
    | .ok (answer, after) =>
      let later := session after rest
      ⟨(answer, after) :: later.steps, later.abort⟩

end ArtifactVault.Blob
