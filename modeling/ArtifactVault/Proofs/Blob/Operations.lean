import ArtifactVault.Blob.Program
import ArtifactVault.Proofs.Blob.Lines
import ArtifactVault.Proofs.Blob.Normalize
import ArtifactVault.Proofs.Shell.Quoting

/-! What each operation leaves of a well-formed blob: it is well formed again, and its mark of
formatted text is told by the operation. The general formatter and the escapers set the mark, and
what replaces the blob clears it; nothing looks at the bytes for it. -/
namespace ArtifactVault.Blob
variable {b : Blob}

def TextEdit.inscribes : TextEdit → Bool
  | .writeText _ | .html _ | .json _ | .argument .. => true
  | .formatted pieces => !pieces.isEmpty
  | .sql _ | .sqlEscaped _ | .sqlString _ | .sqlIdentifier _ | .sqlInt _ | .sqlText
  | .addCarriageReturns | .newlinesOnly | .transcodeCodePage | .stripUtf8Mark | .normalize _ => false

def TextEdit.renews (b : Blob) : TextEdit → Bool
  | .normalize _ => !(hasUtf8Mark b.content || (Utf16.markReversed? b.content).isNone)
  | _ => false

def Adjustment.renews : Adjustment → Bool
  | .reset => true
  | .truncate _ | .trim | .seek .. | .rewind => false

def Transfer.renews : Transfer → Bool
  | .copyFrom | .toOwned => true
  | .appendConsume | .copyLines _ | .stripCommentLines => false

def Transfer.drains : Transfer → Bool
  | .appendConsume => true
  | .copyFrom | .toOwned | .copyLines _ | .stripCommentLines => false

structure Bearing (mark : Bool) (e : Blob) : Prop where
  wellFormed : e.WellFormed
  formatted : e.formatted = mark

theorem SameContent.bearing {e : Blob} (same : SameContent b e) : Bearing b.formatted e :=
  ⟨same.wellFormed, same.formatted⟩

theorem Rewritten.bearing {bytes : Bytes} {e : Blob} (rewritten : Rewritten b bytes e) :
    Bearing b.formatted e :=
  ⟨rewritten.wellFormed, rewritten.formatted⟩

theorem Extended.bearing {bytes : Bytes} {e : Blob} (extended : Extended b bytes e) :
    Bearing b.formatted e :=
  ⟨extended.wellFormed, extended.formatted⟩

theorem Written.bearing {bytes : Bytes} {e : Blob} (written : Written b bytes e) :
    Bearing b.formatted e :=
  ⟨written.wellFormed, written.formatted⟩

theorem Fresh.bearing {bytes : Bytes} {e : Blob} (fresh : Fresh bytes e) : Bearing false e :=
  ⟨fresh.wellFormed, fresh.formatted⟩

theorem appendFormattedMarked {pieces : List String} (wf : b.WellFormed) (marked : b.formatted = true) :
    b.appendFormatted pieces = pieces.foldlM (fun b text => b.append (Utf8.ofString text)) b := by
  induction pieces generalizing b with
  | nil => rfl
  | cons text pieces ih =>
    rw [appendFormatted, List.foldlM_cons, List.foldlM_cons, writeText, markMarked marked]
    refine okBindCongr fun e done => ?_
    have written := (appendAppends (Utf8.ofString text)).sound b wf
    simp only [done] at written
    exact ih written.wellFormed (written.formatted.trans marked)

theorem inscriptionBuilt {change : TextEdit} {e : Blob} (wf : b.WellFormed)
    (inscribes : change.inscribes = true) (done : change.apply b = .ok e) :
    ∃ act bytes, Built act bytes ∧ act b.mark = .ok e := by
  cases change with
  | writeText text => exact ⟨_, _, .append _, done⟩
  | html text => exact ⟨_, _, piecesBuilt htmlEntity? _, done⟩
  | json text => exact ⟨_, _, .append _, done⟩
  | formatted pieces =>
    cases pieces with
    | nil => cases inscribes
    | cons text pieces =>
      have each := Built.each (fun text => .append (Utf8.ofString text)) (text :: pieces)
      refine ⟨_, _, each, ?_⟩
      rw [← appendFormattedMarked (markWellFormed wf) rfl]
      exact done
  | argument flavor bytes isFilename =>
    rw [TextEdit.apply, Shell.appendArgumentEq] at done
    obtain ⟨quoting, -, done⟩ := okBind done
    exact ⟨_, _, Shell.addedBuilt flavor b.content quoting bytes isFilename, done⟩
  | _ => cases inscribes

theorem creationSound (creation : Creation) : Sound (Bearing false) creation.make := by
  cases creation with
  | new => exact emptyFresh.bearing
  | ofBytes bytes => exact soundMono (ofBytesSound bytes) fun _ => Fresh.bearing
  | borrow bytes => exact soundMono (borrowSound bytes) fun _ => Fresh.bearing
  | borrowUntilNul bytes => exact soundMono (borrowSound _) fun _ => Fresh.bearing
  | withCapacity minimum =>
    exact soundMono (reserveBounded emptyWellFormed minimum).sound fun _ reserved =>
      reserved.1.bearing

theorem adjustmentBearing (wf : b.WellFormed) (adjustment : Adjustment) :
    Bearing (!adjustment.renews && b.formatted) (adjustment.apply b) := by
  cases adjustment with
  | reset => exact ⟨resetWellFormed, rfl⟩
  | truncate n =>
    refine ⟨truncateWellFormed wf n, ?_⟩
    simp only [Adjustment.apply, truncate]
    split <;> rfl
  | trim => exact ⟨trimWellFormed wf, rfl⟩
  | seek offset whence =>
    obtain ⟨n, inside, moved⟩ := seekInside b offset whence
    have wfMoved := moveToWellFormed wf inside
    rw [← moved] at wfMoved
    exact ⟨wfMoved, rfl⟩
  | rewind => exact ⟨moveToWellFormed wf (Nat.zero_le _), rfl⟩

theorem editSound (wf : b.WellFormed) (change : Edit) :
    Sound (Bearing b.formatted) (change.apply b) := by
  cases change with
  | append bytes => exact soundMono (appendAppending wf bytes).sound fun _ => Extended.bearing
  | appendByte byte => exact soundMono (appendByteAppending wf byte).sound fun _ => Extended.bearing
  | appendRepeat byte count =>
    exact soundMono (appendRepeatAppending wf byte count).sound fun _ => Extended.bearing
  | appendFromSelf start stop =>
    exact soundMono (appendFromSelfSound wf start stop) fun _ => Extended.bearing
  | resize n =>
    exact soundMono (resizeBounded wf n).sound fun _ resized =>
      ⟨resized.wellFormed, resized.formatted⟩
  | reserve minimum =>
    exact soundMono (reserveBounded wf minimum).sound fun _ reserved => reserved.1.bearing
  | materialize => exact soundMono (materializeBounded wf).sound fun _ made => made.1.bearing
  | terminated => exact soundBind (terminatedBounded wf).sound fun _ answer => answer.2.bearing
  | cString =>
    refine soundBind (soundBind (terminatedBounded wf).sound fun answer held => ?_) fun _ held => held
    exact held.2.bearing
  | setByte index byte =>
    exact soundBind (setByteBounded wf index byte).sound fun _ answer => answer.2.bearing

theorem textEditSound (wf : b.WellFormed) (change : TextEdit) :
    Sound (Bearing (change.inscribes || (!change.renews b && b.formatted))) (change.apply b) := by
  have written {act : Blob → Except Abort Blob} {bytes : Bytes} (built : Built act bytes) :
      Sound (Bearing b.formatted) (act b) :=
    soundMono (built.appends.sound b wf) fun _ => Written.bearing
  cases change with
  | writeText text => exact soundMono (writeTextSound wf text) fun _ => Written.bearing
  | formatted pieces =>
    exact soundMono (appendFormattedSound wf pieces) fun _ written => ⟨written.1, written.2⟩
  | html text => exact soundMono (appendHtmlSound wf text) fun _ => Written.bearing
  | json text => exact soundMono (appendJsonSound wf text) fun _ => Written.bearing
  | sql statement => exact written (appendSqlBuilt statement)
  | sqlEscaped text => exact written (appendSqlEscapedBuilt text)
  | sqlString text => exact written (appendSqlStringBuilt text)
  | sqlIdentifier name => exact written (appendSqlIdentifierBuilt name)
  | sqlInt value => exact written (appendSqlIntBuilt value)
  | sqlText => exact soundBind (sqlTextSound b) fun _ _ => ⟨wf, rfl⟩
  | argument flavor bytes isFilename =>
    refine soundMono (Shell.appendArgumentSound wf flavor bytes isFilename) ?_
    rintro e ⟨quoting, _, written⟩
    exact written.bearing
  | addCarriageReturns =>
    exact soundMono (addCarriageReturnsBounded wf).sound fun _ => Rewritten.bearing
  | newlinesOnly => exact soundMono (newlinesOnlyBounded wf).sound fun _ => Rewritten.bearing
  | transcodeCodePage =>
    exact soundMono (transcodeCodePageBounded wf).sound fun _ => Rewritten.bearing
  | stripUtf8Mark => exact soundBind (stripUtf8MarkBounded wf).sound fun _ answer => answer.2.bearing
  | normalize assumeCodePage =>
    refine soundMono (normalizeSound wf assumeCodePage) fun _ made => ⟨made.1, ?_⟩
    rw [made.2, TextEdit.inscribes, TextEdit.renews, Bool.not_not, Bool.false_or]

theorem readerRead (wf : b.WellFormed) (reader : Reader) :
    ∃ found after, reader.read b = .ok (found, after) ∧ Read b found after := by
  have stays {bytes : Bytes} {v : Blob} (fresh : Fresh bytes v) : Read b (some v) b :=
    ⟨by rintro w ⟨⟩; exact ⟨bytes, fresh⟩, b.cursor, wf.cursor_le, rfl⟩
  cases reader with
  | extract n =>
    obtain ⟨v, after, extracted, read⟩ := extractRead wf n
    exact ⟨some v, after, by simp only [Reader.read, extracted]; rfl, read⟩
  | extractLines n =>
    exact ⟨_, b, by simp only [Reader.read, extractLinesInside wf]; rfl, stays (partFresh wf _ _)⟩
  | line => exact lineRead wf
  | token => exact tokenByRead wf wordLengthLe
  | sqlToken => exact tokenByRead wf sqlTokenLengthLe
  | tail => exact ⟨_, b, by simp only [Reader.read, tailInside wf]; rfl, stays (partFresh wf _ _)⟩

theorem transferSound {source : Blob} (wf : b.WellFormed) (sourceWf : source.WellFormed)
    (transfer : Transfer) :
    Sound (fun answer => Bearing (!transfer.renews && b.formatted) answer.1 ∧
        Bearing (!transfer.drains && source.formatted) answer.2)
      (transfer.apply b source) := by
  have read {n : Nat} {after : Blob} (moved : after = source.moveTo n) (inside : n ≤ source.used) :
      Bearing source.formatted after := by
    subst moved
    exact ⟨moveToWellFormed sourceWf inside, rfl⟩
  cases transfer with
  | copyFrom =>
    exact soundBind (copyFromSound b source) fun _ copied => ⟨copied.bearing, sourceWf, rfl⟩
  | appendConsume =>
    refine soundMono (appendConsumeSound wf source) fun answer consumed => ⟨consumed.1.bearing, ?_⟩
    rw [consumed.2]
    exact ⟨resetWellFormed, rfl⟩
  | toOwned => exact soundBind (toOwnedSound source) fun _ copied => ⟨copied.bearing, sourceWf, rfl⟩
  | copyLines n =>
    exact soundBind (copyLinesSound sourceWf wf n) fun _ ⟨moved, written⟩ =>
      ⟨written.bearing, read moved (linesPartInside sourceWf n)⟩
  | stripCommentLines =>
    exact soundBind (stripCommentLinesSound sourceWf wf) fun _ ⟨moved, written⟩ =>
      ⟨written.bearing, read moved (Nat.le_refl _)⟩

end ArtifactVault.Blob
