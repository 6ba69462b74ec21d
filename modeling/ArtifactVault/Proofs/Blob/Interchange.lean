import ArtifactVault.Blob.Session
import ArtifactVault.Proofs.Blob.Run
import ArtifactVault.Proofs.Blob.Twins

/-! Owned and borrowed blobs are interchangeable. Registers are paired if each holds twins; an action
answers alike over paired registers and leaves them paired, and so does every session. The one
operation that can tell stores apart is a resize that lengthens, which shows stale bytes. -/
namespace ArtifactVault.Blob

section
variable {b c source other : Blob}

theorem Twins.part (twins : Twins b c) (start stop : Nat) : c.part start stop = b.part start stop := by
  unfold Blob.part
  rw [twins.content]

theorem extractBlind (n : Nat) : Blind Answered (·.extract n) := by
  intro b c twins
  have inside := twins.left.cursor_le
  simp only [extractInside twins.left, extractInside twins.right, twins.cursor, twins.used,
    twins.part]
  exact .values ⟨rfl, twins.moved (by omega)⟩

theorem Twins.linesPart (twins : Twins b c) (n : Nat) : c.linesPart n = b.linesPart n := by
  unfold Blob.linesPart
  rw [twins.part, twins.content, twins.cursor]

theorem lineBlind : Blind Answered line := by
  intro b c twins
  rw [lineInside twins.left, lineInside twins.right, twins.content, twins.cursor]
  refine alikeBind (extractBlind _ b c twins) fun first second answered => ?_
  exact .values ⟨by rw [answered.1], answered.2⟩

theorem tokenByBlind {length : Bytes → Nat} (short : ∀ bytes, length bytes ≤ bytes.length) :
    Blind Answered (tokenBy length) := by
  intro b c twins
  have start : c.tokenStart = b.tokenStart := by
    unfold tokenStart
    rw [twins.content, twins.cursor]
  have stop : c.tokenStop length = b.tokenStop length := by
    unfold tokenStop
    rw [twins.content, start]
  rw [tokenByInside twins.left short, tokenByInside twins.right short, start, stop, twins.part,
    twins.content]
  exact .values ⟨rfl, twins.moved (behindSpaces twins.left (tokenStopInside twins.left short))⟩

theorem Twins.tail (twins : Twins b c) : c.tail = b.tail := by
  rw [tailInside twins.left, tailInside twins.right, twins.part, twins.cursor, twins.used]

theorem readerBlind (reader : Reader) : Blind Answered reader.read := by
  intro b c twins
  cases reader with
  | extract n =>
    exact alikeBind (extractBlind n b c twins) fun _ _ answered =>
      .values ⟨congrArg some answered.1, answered.2⟩
  | extractLines n =>
    simp only [Reader.read, extractLinesInside twins.left, extractLinesInside twins.right,
      twins.linesPart]
    exact alikeBind (alikeSame _) fun _ _ same => .values ⟨congrArg some same, twins⟩
  | line => exact lineBlind b c twins
  | token => exact tokenByBlind wordLengthLe b c twins
  | sqlToken => exact tokenByBlind sqlTokenLengthLe b c twins
  | tail =>
    simp only [Reader.read, twins.tail]
    exact alikeBind (alikeSame _) fun _ _ same => .values ⟨congrArg some same, twins⟩

theorem adjustmentTwins (twins : Twins b c) (adjustment : Adjustment) :
    Twins (adjustment.apply b) (adjustment.apply c) := by
  cases adjustment with
  | reset => exact .refl resetWellFormed
  | truncate n =>
    simp only [Adjustment.apply, truncate, twins.used]
    split
    · exact twins.cut (Nat.le_of_lt (by assumption))
    · exact twins
  | trim =>
    simp only [Adjustment.apply, trim, twins.content]
    exact twins.cut (trimInside twins.left)
  | seek offset whence =>
    have place : c.seek offset whence = c.moveTo (b.seek offset whence).cursor := by
      simp only [seek, moveTo, twins.cursor, twins.used]
    simp only [Adjustment.apply, place]
    exact twins.moved (Nat.min_le_right _ _)
  | rewind => exact twins.moved (Nat.zero_le _)

theorem adjustmentAnswer (twins : Twins b c) (adjustment : Adjustment) :
    adjustment.answer c = adjustment.answer b := by
  cases adjustment with
  | seek offset whence =>
    exact congrArg Answer.count (adjustmentTwins twins (.seek offset whence)).cursor
  | reset | truncate | trim | rewind => rfl

def Edit.lengthens (b : Blob) : Edit → Bool
  | .resize n => b.used < n
  | _ => false

theorem editAlike (twins : Twins b c) {change : Edit} (keeps : change.lengthens b = false) :
    Alike Twins (change.apply b) (change.apply c) := by
  cases change with
  | append bytes => exact appendBlind bytes b c twins
  | appendByte byte => exact appendByteBlind byte b c twins
  | appendRepeat byte count => exact appendRepeatBlind byte count b c twins
  | appendFromSelf start stop => exact appendFromSelfBlind start stop b c twins
  | resize n => exact resizeAlike twins (Nat.le_of_not_lt (of_decide_eq_false keeps))
  | reserve minimum => exact reserveBlind minimum b c twins
  | materialize => exact materializeBlind b c twins
  | terminated => exact terminatedBlind.blob b c twins
  | cString => exact cStringBlind.blob b c twins
  | setByte index byte => exact (setByteBlind index byte).blob b c twins

theorem editAnswer (change : Edit) : Blind (· = ·) (change.answer ·) := by
  cases change with
  | terminated => exact terminatedBlind.answer Answer.bytes
  | cString => exact cStringBlind.answer Answer.bytes
  | setByte index byte => exact (setByteBlind index byte).answer Answer.flag
  | append | appendByte | appendRepeat | appendFromSelf | resize | reserve | materialize =>
    exact fun _ _ _ => .values rfl

theorem textEditBlind (change : TextEdit) : Blind Twins (change.apply ·) := by
  cases change with
  | writeText text => exact writeTextBlind text
  | formatted pieces => exact .fold writeTextBlind pieces
  | html text => exact (piecesBuilt htmlEntity? _).blind.marked
  | json text => exact (appendBlind _).marked
  | sql statement => exact appendBlind _
  | sqlEscaped text => exact (appendSqlEscapedBuilt text).blind
  | sqlString text => exact (appendSqlStringBuilt text).blind
  | sqlIdentifier name => exact (appendSqlIdentifierBuilt name).blind
  | sqlInt value => exact appendBlind _
  | sqlText =>
    exact fun b c twins => alikeBind (sqlTextBlind b c twins) fun _ _ _ => .values twins
  | argument flavor bytes isFilename => exact appendArgumentBlind flavor bytes isFilename
  | addCarriageReturns => exact addCarriageReturnsBlind
  | newlinesOnly => exact newlinesOnlyBlind
  | transcodeCodePage => exact transcodeCodePageBlind
  | stripUtf8Mark => exact stripUtf8MarkBlind.blob
  | normalize assumeCodePage => exact normalizeBlind assumeCodePage

theorem textEditAnswer (change : TextEdit) : Blind (· = ·) (change.answer ·) := by
  cases change with
  | sqlText => exact sqlTextBlind.andThen fun _ _ same => .values (congrArg Answer.text same)
  | stripUtf8Mark => exact stripUtf8MarkBlind.answer Answer.flag
  | writeText | formatted | html | json | sql | sqlEscaped | sqlString | sqlIdentifier | sqlInt
  | argument | addCarriageReturns | newlinesOnly | transcodeCodePage | normalize =>
    exact fun _ _ _ => .values rfl

theorem copyLinesAlike (twins : Twins b c) (sources : Twins source other) (n : Nat) :
    Alike (fun first second => first.1 = second.1 ∧ Twins first.2.1 second.2.1 ∧
        Twins first.2.2 second.2.2) (source.copyLines b n) (other.copyLines c n) := by
  rw [copyLinesInside sources.left, copyLinesInside sources.right, sources.linesPart,
    sources.cursor]
  exact alikeBind (appendBlind _ b c twins) fun _ _ extended =>
    .values ⟨rfl, sources.moved (linesPartInside sources.left n), extended⟩

theorem stripCommentLinesAlike (twins : Twins b c) (sources : Twins source other) :
    Alike (fun first second => Twins first.1 second.1 ∧ Twins first.2 second.2)
      (source.stripCommentLines b) (other.stripCommentLines c) := by
  have lines : other.keptLines = source.keptLines := by
    rw [keptLines, keptLines, linesAhead, linesAhead, sources.content, sources.cursor]
  rw [stripCommentLinesInside sources.left, stripCommentLinesInside sources.right, lines,
    sources.used]
  exact alikeBind (Blind.fold appendBlind _ b c twins) fun _ _ extended =>
    .values ⟨sources.moved (Nat.le_refl _), extended⟩

theorem transferAlike (twins : Twins b c) (sources : Twins source other) (transfer : Transfer) :
    Alike (fun first second => Twins first.1 second.1 ∧ Twins first.2 second.2)
      (transfer.apply b source) (transfer.apply c other) := by
  cases transfer with
  | copyFrom =>
    simp only [Transfer.apply, copyFrom, sources.content]
    exact alikeBind (appendBlind _ b.reset c.reset (.refl resetWellFormed)) fun _ _ copied =>
      .values ⟨copied, sources⟩
  | appendConsume =>
    simp only [Transfer.apply, appendConsume, sources.content]
    exact alikeBind (appendBlind _ b c twins) fun _ _ extended =>
      .values ⟨extended, .refl resetWellFormed⟩
  | toOwned =>
    simp only [Transfer.apply, toOwned, sources.content]
    exact alikeBind (appendBlind _ empty empty (.refl emptyWellFormed)) fun _ _ copied =>
      .values ⟨copied, sources⟩
  | copyLines n =>
    exact alikeBind (copyLinesAlike twins sources n) fun _ _ copied =>
      .values ⟨copied.2.2, copied.2.1⟩
  | stripCommentLines =>
    exact alikeBind (stripCommentLinesAlike twins sources) fun _ _ stripped =>
      .values ⟨stripped.2, stripped.1⟩

theorem transferAnswer (twins : Twins b c) (sources : Twins source other) (transfer : Transfer) :
    Alike (· = ·) (transfer.answer b source) (transfer.answer c other) := by
  cases transfer with
  | copyLines n =>
    exact alikeBind (copyLinesAlike twins sources n) fun _ _ copied =>
      .values (congrArg Answer.count copied.1)
  | copyFrom | appendConsume | toOwned | stripCommentLines => exact .values rfl

theorem queryAnswer (twins : Twins b c) (query : Query) : query.answer c = query.answer b := by
  cases query with
  | length => exact congrArg Answer.count twins.used
  | isEmpty => simp only [Query.answer, isEmpty, twins.used]
  | position => exact congrArg Answer.count twins.cursor
  | isPureSql => simp only [Query.answer, isPureSql, twins.formatted]
  | content => exact congrArg Answer.bytes twins.content
  | lossyText => simp only [Query.answer, lossyText, twins.content]
  | lineCount => simp only [Query.answer, lineCount, twins.content]
  | hashName => simp only [Query.answer, hashNameAlgorithm?, twins.content]
  | parseInt => simp only [Query.answer, parseInt, twins.content]
  | equalsBytes bytes => simp only [Query.answer, equalsBytes, twins.content]
  | contentHash => simp only [Query.answer, contentHash, twins.content]

theorem comparisonAnswer (twins : Twins b c) (others : Twins source other)
    (comparison : Comparison) : comparison.answer c other = comparison.answer b source := by
  cases comparison with
  | order => simp only [Comparison.answer, compare, twins.content, others.content]
  | equals => simp only [Comparison.answer, equals, twins.content, others.content]
  | constantTimeEquals =>
    simp only [Comparison.answer, constantTimeEquals, twins.content, others.content]

end

def Paired (blobs others : Registers) : Prop := ∀ register, Twins (blobs register) (others register)

section
variable {blobs others : Registers}

theorem Paired.set {b c : Blob} (paired : Paired blobs others) (target : Nat) (twins : Twins b c) :
    Paired (blobs.set target b) (others.set target c) := by
  intro register
  unfold Registers.set
  split
  · exact twins
  · exact paired register

theorem Paired.resetAll (paired : Paired blobs others) (targets : List Nat) :
    Paired (targets.foldl (fun blobs target => blobs.set target (blobs target).reset) blobs)
      (targets.foldl (fun others target => others.set target (others target).reset) others) := by
  intro register
  rw [resetAllAt, resetAllAt]
  split
  · exact .refl emptyWellFormed
  · exact paired register

def Operation.lengthens (blobs : Registers) : Operation → Bool
  | .edit target change => change.lengthens (blobs target)
  | _ => false

theorem creationAlike (creation : Creation) : Alike Twins creation.make creation.make :=
  alikeMade (soundMono (creationSound creation) fun _ made => made.wellFormed)

theorem stepAlike (paired : Paired blobs others) {operation : Operation}
    (keeps : operation.lengthens blobs = false) :
    Alike Paired (step blobs operation) (step others operation) := by
  cases operation with
  | create target creation =>
    exact alikeBind (creationAlike creation) fun _ _ twins => .values (paired.set target twins)
  | adjust target adjustment =>
    exact .values (paired.set target (adjustmentTwins (paired target) adjustment))
  | edit target change =>
    exact alikeBind (editAlike (paired target) keeps) fun _ _ twins =>
      .values (paired.set target twins)
  | text target change =>
    exact alikeBind (textEditBlind change _ _ (paired target)) fun _ _ twins =>
      .values (paired.set target twins)
  | read target source reader =>
    -- The part that was read is one blob in both runs, which is its own twin.
    have views (answer : Option Blob × Blob)
        (done : reader.read (blobs source) = .ok answer) : (answer.1.getD empty).WellFormed := by
      obtain ⟨found, after, known, read⟩ := readerRead (paired source).left reader
      cases done.symm.trans known
      obtain ⟨bytes, fresh⟩ := read.found
      exact fresh.wellFormed
    refine alikeBind (alikeAlso (readerBlind reader _ _ (paired source)) views) ?_
    rintro ⟨found, after⟩ ⟨_, other⟩ ⟨wf, rfl, twins⟩
    exact .values ((paired.set source twins).set target (.refl wf))
  | transfer target source transfer =>
    exact alikeBind (transferAlike (paired target) (paired source) transfer) fun _ _ twins =>
      .values ((paired.set source twins.2).set target twins.1)
  | copy target source => exact .values (paired.set target (paired source))
  | swap left right => exact .values ((paired.set left (paired right)).set right (paired left))
  | resetAll targets => exact .values (paired.resetAll targets)

theorem operationAnswer (paired : Paired blobs others) (operation : Operation) :
    Alike (· = ·) (operation.answer blobs) (operation.answer others) := by
  cases operation with
  | adjust target adjustment => exact .values (adjustmentAnswer (paired target) adjustment).symm
  | edit target change => exact editAnswer change _ _ (paired target)
  | text target change => exact textEditAnswer change _ _ (paired target)
  | read target source reader =>
    exact (readerBlind reader).answer (Answer.flag ·.isSome) _ _ (paired source)
  | transfer target source transfer =>
    exact transferAnswer (paired target) (paired source) transfer
  | create | copy | swap | resetAll => exact .values rfl

def Action.lengthens (blobs : Registers) : Action → Bool
  | .operate operation => operation.lengthens blobs
  | _ => false

theorem actAlike (paired : Paired blobs others) {action : Action}
    (keeps : action.lengthens blobs = false) :
    Alike (fun first second => first.1 = second.1 ∧ Paired first.2 second.2)
      (act blobs action) (act others action) := by
  cases action with
  | operate operation =>
    exact alikeBind (operationAnswer paired operation) fun _ _ same =>
      alikeBind (stepAlike paired keeps) fun _ _ still => .values ⟨same, still⟩
  | ask source query => exact .values ⟨(queryAnswer (paired source) query).symm, paired⟩
  | compare left right comparison =>
    exact .values ⟨(comparisonAnswer (paired left) (paired right) comparison).symm, paired⟩

end

def NeverLengthens (blobs : Registers) : List Action → Prop
  | [] => True
  | action :: rest => action.lengthens blobs = false ∧
      ∀ answer after, act blobs action = .ok (answer, after) → NeverLengthens after rest

theorem sessionCons (blobs : Registers) (action : Action) (rest : List Action) :
    session blobs (action :: rest) =
      match act blobs action with
      | .error cause => ⟨[], some cause⟩
      | .ok answered =>
        let later := session answered.2 rest
        ⟨answered :: later.steps, later.abort⟩ := by
  rw [session]
  cases act blobs action <;> rfl

def Session.AtCeiling (done : Session) : Prop :=
  ∃ request size, done.abort = some (.ceiling request size)

/-- Sessions over blobs that differ in storage alone show equal answers and equal blobs after every
step, and end in the same abort, if any, as long as neither meets the ceiling. -/
theorem storageIsNeverSeen {blobs others : Registers} {actions : List Action}
    (paired : ∀ register, Twins (blobs register) (others register))
    (keeps : NeverLengthens blobs actions)
    (left : ¬ (session blobs actions).AtCeiling) (right : ¬ (session others actions).AtCeiling) :
    List.Forall₂ (fun first second => first.1 = second.1 ∧
        ∀ register, Twins (first.2 register) (second.2 register))
      (session blobs actions).steps (session others actions).steps ∧
    (session blobs actions).abort = (session others actions).abort := by
  induction actions generalizing blobs others with
  | nil => exact ⟨.nil, rfl⟩
  | cons action rest ih =>
    have alike := actAlike paired keeps.1
    have later := keeps.2
    rw [sessionCons] at left right ⊢
    rw [sessionCons]
    generalize act blobs action = first at alike later left ⊢
    generalize act others action = second at alike right ⊢
    cases alike with
    | refused cause => exact ⟨.nil, rfl⟩
    | leftCeiling => exact absurd ⟨_, _, rfl⟩ left
    | rightCeiling => exact absurd ⟨_, _, rfl⟩ right
    | @values first second agree =>
      obtain ⟨steps, ended⟩ := ih agree.2 (later _ _ rfl) left right
      exact ⟨.cons agree steps, ended⟩

def lettersBorrowed : Registers := blank.set 0 ⟨[0x61, 0x62], .borrowed, 2, 0, false⟩

def lettersOverStale : Registers := blank.set 0 ⟨[0x61, 0x62, 0x7a, 0x7a], .owned, 2, 0, false⟩

def lettersSession : List Action :=
  [.operate (.edit 0 (.resize 1)), .operate (.edit 0 (.append [0x63])), .ask 0 .content]

theorem lettersPaired : Paired lettersBorrowed lettersOverStale := by
  have pair : Twins ⟨[0x61, 0x62], .borrowed, 2, 0, false⟩
      ⟨[0x61, 0x62, 0x7a, 0x7a], .owned, 2, 0, false⟩ :=
    ⟨⟨by decide, by decide, by decide⟩, ⟨by decide, by decide, by decide⟩, rfl, rfl, rfl⟩
  exact Paired.set (fun _ => .refl emptyWellFormed) 0 pair

theorem lettersNeverLengthen : NeverLengthens lettersBorrowed lettersSession := by
  refine ⟨rfl, ?_⟩
  rintro _ _ ⟨⟩
  refine ⟨rfl, ?_⟩
  rintro _ _ ⟨⟩
  exact ⟨rfl, fun _ _ _ => trivial⟩

theorem lettersAgree :
    (session lettersBorrowed lettersSession).abort = none ∧
    List.Forall₂ (fun first second => first.1 = second.1 ∧
        ∀ register, Twins (first.2 register) (second.2 register))
      (session lettersBorrowed lettersSession).steps
      (session lettersOverStale lettersSession).steps := by
  have left : (session lettersBorrowed lettersSession).abort = none := rfl
  have right : (session lettersOverStale lettersSession).abort = none := rfl
  have agree := storageIsNeverSeen lettersPaired lettersNeverLengthen
    (by rintro ⟨request, size, reached⟩; cases left.symm.trans reached)
    (by rintro ⟨request, size, reached⟩; cases right.symm.trans reached)
  exact ⟨left, agree.1⟩

example : (((lettersBorrowed 0).resize 3).toOption.map content,
    ((lettersOverStale 0).resize 3).toOption.map content) =
    (some [0x61, 0x62, 0], some [0x61, 0x62, 0x7a]) := by decide

end ArtifactVault.Blob
