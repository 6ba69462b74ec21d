import ArtifactVault.Proofs.Blob.Run
import ArtifactVault.Proofs.Blob.Tails

/-! Marks and stores. Whatever writes into a blob leaves it an owned store, also when it writes no
bytes, and what leaves it a borrowed one gives up the mark. So a blob that is marked is owned. -/
namespace ArtifactVault.Blob
variable {b e f : Blob} {blobs after : Registers}

def Acquired (b e : Blob) : Prop := e.ownership = .owned ∨ e = b

theorem Acquired.trans (first : Acquired b e) (second : Acquired e f) : Acquired b f := by
  rcases second with owned | same
  · exact .inl owned
  · rw [same]
    exact first

theorem writeOwned {start : Nat} {bytes : Bytes} (wrote : b.write start bytes = .ok e) :
    e.ownership = .owned := by
  obtain ⟨owned, -, rfl⟩ := writtenInside wrote
  exact owned

theorem ownedStoreOwned {store : Array UInt8} (given : b.ownedStore = .ok store) :
    b.ownership = .owned := by
  unfold ownedStore at given
  split at given
  · cases given
  · assumption

theorem reallocateOwned {size : Nat} (positive : 0 < size) :
    (b.reallocate size).ownership = .owned := by
  simp only [reallocate, if_neg (Nat.ne_of_gt positive)]
  split <;> rfl

theorem extendOwned {bytes : Bytes} (done : b.extend bytes = .ok e) : e.ownership = .owned := by
  obtain ⟨written, wrote, same⟩ := okBind done
  have owned : written.ownership = .owned := writeOwned wrote
  cases same
  exact owned

theorem appendOwned {bytes : Bytes} (done : b.append bytes = .ok e) : e.ownership = .owned := by
  obtain ⟨grown, -, extended⟩ := okBind done
  exact extendOwned extended

theorem appendByteOwned {byte : UInt8} (done : b.appendByte byte = .ok e) : e.ownership = .owned := by
  unfold appendByte at done
  split at done
  · exact extendOwned done
  · exact appendOwned done

theorem appendFromSelfOwned {start stop : Nat} (done : b.appendFromSelf start stop = .ok e) :
    e.ownership = .owned := by
  by_cases outside : stop < start ∨ b.used < stop
  · rw [appendFromSelf, if_pos outside] at done
    cases done
  · rw [appendFromSelfEq (by omega) (by omega)] at done
    obtain ⟨grown, -, done⟩ := okBind done
    obtain ⟨bytes, -, extended⟩ := okBind done
    exact extendOwned extended

theorem resizeOwned {n : Nat} (resized : b.resize n = .ok e) : e.ownership = .owned := by
  obtain ⟨_, -, ended⟩ := okBind resized
  exact writeOwned ended

theorem reserveAcquired {minimum : Nat} (done : b.reserve minimum = .ok e) : Acquired b e := by
  obtain ⟨_, -, done⟩ := okBind done
  split at done
  · rename_i grows
    dsimp only at done
    split at done
    · exact .inl (writeOwned done)
    · cases done
      exact .inl (reallocateOwned (Nat.zero_lt_of_lt grows))
  · cases done
    exact .inr rfl

theorem terminatedAcquired {answer : Bytes × Blob} (done : b.terminated = .ok answer) :
    Acquired b answer.2 := by
  unfold terminated at done
  split at done
  · cases done
    exact .inr rfl
  · dsimp only at done
    split at done
    · obtain ⟨held, made, done⟩ := okBind done
      obtain ⟨bytes, -, same⟩ := okBind done
      cases same
      exact .inl (writeOwned made)
    · obtain ⟨held, made, done⟩ := okBind done
      obtain ⟨bytes, -, same⟩ := okBind done
      cases same
      exact .inl (resizeOwned made)

theorem editableOwned (done : b.editable = .ok e) : e.ownership = .owned := by
  unfold editable at done
  split at done
  · exact resizeOwned done
  · rename_i owned
    cases done
    exact owned

theorem setByteOwned {index : Nat} {byte : UInt8} {answer : Bool × Blob}
    (done : b.setByte index byte = .ok answer) : answer.2.ownership = .owned := by
  obtain ⟨held, made, done⟩ := okBind done
  split at done
  · obtain ⟨written, wrote, same⟩ := okBind done
    cases same
    exact writeOwned wrote
  · cases done
    exact editableOwned made

theorem editAcquired {change : Edit} (done : change.apply b = .ok e) : Acquired b e := by
  cases change with
  | append bytes => exact .inl (appendOwned done)
  | appendByte byte => exact .inl (appendByteOwned done)
  | appendRepeat byte count =>
    rw [Edit.apply, appendRepeatAlike] at done
    exact .inl (appendOwned done)
  | appendFromSelf start stop => exact .inl (appendFromSelfOwned done)
  | resize n => exact .inl (resizeOwned done)
  | reserve minimum => exact reserveAcquired done
  | materialize => exact .inl (resizeOwned done)
  | terminated =>
    obtain ⟨answer, ended, same⟩ := okBind done
    cases same
    exact terminatedAcquired ended
  | cString =>
    obtain ⟨answer, ended, same⟩ := okBind done
    obtain ⟨pair, terminated, whole⟩ := okBind ended
    have acquired : Acquired b pair.2 := terminatedAcquired terminated
    cases whole
    cases same
    exact acquired
  | setByte index byte =>
    obtain ⟨answer, set, same⟩ := okBind done
    cases same
    exact .inl (setByteOwned set)

theorem Built.acquired {act : Blob → Except Abort Blob} {bytes : Bytes} (built : Built act bytes)
    (done : act b = .ok e) : Acquired b e := by
  induction built generalizing b e with
  | nothing =>
    cases done
    exact .inr rfl
  | append bytes => exact .inl (appendOwned done)
  | byte byte => exact .inl (appendByteOwned done)
  | andThen _ _ first second =>
    obtain ⟨middle, began, ended⟩ := okBind done
    exact (first began).trans (second ended)

theorem foldOwned {α : Type} {act : Blob → α → Except Abort Blob}
    (each : ∀ b item e, act b item = .ok e → e.ownership = .owned) {items : List α}
    (filled : items ≠ []) (done : items.foldlM act b = .ok e) : e.ownership = .owned := by
  induction items generalizing b with
  | nil => exact absurd rfl filled
  | cons item items ih =>
    rw [List.foldlM_cons] at done
    obtain ⟨next, began, done⟩ := okBind done
    cases items with
    | nil =>
      cases done
      exact each b item e began
    | cons => exact ih (List.cons_ne_nil _ _) done

theorem piecesFilled (replacement? : UInt8 → Option Bytes) (bytes : Bytes) :
    pieces replacement? bytes ≠ [] := by
  cases bytes with
  | nil => exact List.cons_ne_nil _ _
  | cons byte bytes =>
    simp only [pieces, List.foldr_cons]
    split
    · exact List.cons_ne_nil _ _
    · split <;> exact List.cons_ne_nil _ _

theorem appendTextOwned {flavor : Shell.Flavor} {quoting : Bool} {argument : Bytes}
    {isFilename : Bool} (done : Shell.appendText b flavor quoting argument isFilename = .ok e) :
    e.ownership = .owned := by
  unfold Shell.appendText at done
  split at done
  · cases flavor with
    | posix =>
      simp only [Shell.appendQuoted] at done
      split at done
      · obtain ⟨shielded, began, done⟩ := okBind done
        rcases (Built.each (Shell.appendEscapedBuilt _) argument).acquired done with owned | same
        · exact owned
        · rw [same]
          exact appendOwned began
      · obtain ⟨opened, -, done⟩ := okBind done
        obtain ⟨shielded, -, done⟩ := okBind done
        obtain ⟨held, -, done⟩ := okBind done
        exact appendByteOwned done
    | windows =>
      obtain ⟨opened, -, done⟩ := okBind done
      obtain ⟨shielded, -, done⟩ := okBind done
      obtain ⟨held, -, done⟩ := okBind done
      exact appendByteOwned done
  · obtain ⟨shielded, -, done⟩ := okBind done
    exact appendOwned done

theorem inscriptionOwned {change : TextEdit} (inscribes : change.inscribes = true)
    (done : change.apply b = .ok e) : e.ownership = .owned := by
  cases change with
  | writeText text => exact appendOwned done
  | html text => exact foldOwned (fun _ _ _ => appendOwned) (piecesFilled _ _) done
  | json text => exact appendOwned done
  | formatted pieces =>
    have filled : pieces ≠ [] := by
      rintro rfl
      cases inscribes
    exact foldOwned (fun _ _ _ => appendOwned) filled done
  | argument flavor bytes isFilename =>
    rw [TextEdit.apply, Shell.appendArgumentEq] at done
    obtain ⟨quoting, -, done⟩ := okBind done
    obtain ⟨separated, -, done⟩ := okBind done
    exact appendTextOwned done
  | _ => cases inscribes

theorem expandInPlaceOwned {growth : Nat} {expand : UInt8 → Bytes}
    (done : b.expandInPlace growth expand = .ok e) : e.ownership = .owned := by
  obtain ⟨grown, -, done⟩ := okBind done
  obtain ⟨store, held, done⟩ := okBind done
  obtain ⟨left, -, same⟩ := okBind done
  have owned : grown.ownership = .owned := ownedStoreOwned held
  cases same
  exact owned

theorem addCarriageReturnsAcquired (done : b.addCarriageReturns = .ok e) : Acquired b e := by
  simp only [addCarriageReturns] at done
  split at done
  · cases done
    exact .inr rfl
  · exact .inl (expandInPlaceOwned done)

theorem transcodeCodePageAcquired (done : b.transcodeCodePage = .ok e) : Acquired b e := by
  simp only [transcodeCodePage] at done
  split at done
  · cases done
    exact .inr rfl
  · exact .inl (expandInPlaceOwned done)

theorem newlinesOnlyAcquired (done : b.newlinesOnly = .ok e) : Acquired b e := by
  unfold newlinesOnly at done
  split at done
  · obtain ⟨held, -, done⟩ := okBind done
    obtain ⟨store, whole, done⟩ := okBind done
    obtain ⟨gathered, -, done⟩ := okBind done
    obtain ⟨ended, -, same⟩ := okBind done
    have owned : held.ownership = .owned := ownedStoreOwned whole
    cases same
    exact .inl owned
  · cases done
    exact .inr rfl

theorem stripUtf8MarkAcquired {answer : Bool × Blob} (done : b.stripUtf8Mark = .ok answer) :
    Acquired b answer.2 := by
  unfold stripUtf8Mark at done
  split at done
  · obtain ⟨held, -, done⟩ := okBind done
    obtain ⟨bytes, -, done⟩ := okBind done
    obtain ⟨moved, -, done⟩ := okBind done
    obtain ⟨ended, wrote, same⟩ := okBind done
    have owned : ended.ownership = .owned := writeOwned wrote
    cases same
    exact .inl owned
  · cases done
    exact .inr rfl

def MarkOwned (b : Blob) : Prop := b.formatted = true → b.ownership = .owned

theorem markOwnedUnmarked (unmarked : b.formatted = false) : b.MarkOwned := by
  intro marked
  cases unmarked.symm.trans marked

theorem MarkOwned.acquired (held : b.MarkOwned) (acquired : Acquired b e) : e.MarkOwned := by
  rcases acquired with owned | same
  · exact fun _ => owned
  · rw [same]
    exact held

theorem normalizeMarkOwned {assumeCodePage : Bool} (held : b.MarkOwned)
    (done : b.normalize assumeCodePage = .ok e) : e.MarkOwned := by
  rw [normalizeEq] at done
  obtain ⟨answer, stripped, done⟩ := okBind done
  have kept : answer.2.MarkOwned := held.acquired (stripUtf8MarkAcquired stripped)
  split at done
  · cases done
    exact kept
  · unfold decodeMarked at done
    split at done
    · obtain ⟨ordered, -, decoded⟩ := okBind done
      have fresh := ofBytesSound (Utf16.toUtf8 (ordered.content.drop 2))
      rw [decoded] at fresh
      exact markOwnedUnmarked fresh.formatted
    · split at done
      · exact kept.acquired (transcodeCodePageAcquired done)
      · cases done
        exact kept

theorem textEditMarkOwned {change : TextEdit} (held : b.MarkOwned)
    (done : change.apply b = .ok e) : e.MarkOwned := by
  have inscription (inscribes : change.inscribes = true) : e.MarkOwned :=
    fun _ => inscriptionOwned inscribes done
  have built {act : Blob → Except Abort Blob} {bytes : Bytes} (built : Built act bytes)
      (done : act b = .ok e) : e.MarkOwned := held.acquired (built.acquired done)
  cases change with
  | writeText | html | json | argument => exact inscription rfl
  | formatted pieces =>
    cases pieces with
    | nil =>
      cases done
      exact held
    | cons => exact inscription rfl
  | sql statement => exact built (appendSqlBuilt statement) done
  | sqlEscaped text => exact built (appendSqlEscapedBuilt text) done
  | sqlString text => exact built (appendSqlStringBuilt text) done
  | sqlIdentifier name => exact built (appendSqlIdentifierBuilt name) done
  | sqlInt value => exact built (appendSqlIntBuilt value) done
  | sqlText =>
    obtain ⟨_, -, same⟩ := okBind done
    cases same
    exact held
  | addCarriageReturns => exact held.acquired (addCarriageReturnsAcquired done)
  | newlinesOnly => exact held.acquired (newlinesOnlyAcquired done)
  | transcodeCodePage => exact held.acquired (transcodeCodePageAcquired done)
  | stripUtf8Mark =>
    obtain ⟨answer, stripped, same⟩ := okBind done
    cases same
    exact held.acquired (stripUtf8MarkAcquired stripped)
  | normalize assumeCodePage => exact normalizeMarkOwned held done

theorem adjustmentMarkOwned (held : b.MarkOwned) (adjustment : Adjustment) :
    (adjustment.apply b).MarkOwned := by
  cases adjustment with
  | reset => exact markOwnedUnmarked rfl
  | truncate n =>
    simp only [Adjustment.apply, truncate]
    split
    · exact held
    · exact held
  | trim | seek | rewind => exact held

theorem transferMarkOwned {source : Blob} {transfer : Transfer} {answer : Blob × Blob}
    (sourceWf : source.WellFormed) (held : b.MarkOwned) (sourceHeld : source.MarkOwned)
    (done : transfer.apply b source = .ok answer) : answer.1.MarkOwned ∧ answer.2.MarkOwned := by
  have appended {extended : Blob} {bytes : Bytes} {receiver : Blob}
      (made : receiver.append bytes = .ok extended) : extended.MarkOwned := fun _ => appendOwned made
  cases transfer with
  | copyFrom | toOwned =>
    obtain ⟨copied, made, same⟩ := okBind done
    cases same
    exact ⟨appended made, sourceHeld⟩
  | appendConsume =>
    obtain ⟨extended, made, same⟩ := okBind done
    cases same
    exact ⟨appended made, markOwnedUnmarked rfl⟩
  | copyLines n =>
    obtain ⟨whole, copied, same⟩ := okBind done
    cases same
    rw [copyLinesInside sourceWf] at copied
    obtain ⟨extended, made, same⟩ := okBind copied
    cases same
    exact ⟨appended made, sourceHeld⟩
  | stripCommentLines =>
    obtain ⟨whole, copied, same⟩ := okBind done
    cases same
    rw [stripCommentLinesInside sourceWf] at copied
    obtain ⟨extended, made, same⟩ := okBind copied
    cases same
    exact ⟨held.acquired ((Built.each .append _).acquired made), sourceHeld⟩

theorem stepMarkOwned (kept : Kept blobs) (held : ∀ register, (blobs register).MarkOwned)
    {operation : Operation} (done : step blobs operation = .ok after) :
    ∀ register, (after register).MarkOwned := by
  cases operation with
  | create target creation =>
    obtain ⟨made, created, same⟩ := okBind done
    cases same
    have fresh := creationSound creation
    rw [created] at fresh
    exact setEach held (markOwnedUnmarked fresh.formatted)
  | adjust target adjustment =>
    cases done
    exact setEach held (adjustmentMarkOwned (held target) adjustment)
  | edit target change =>
    obtain ⟨edited, applied, same⟩ := okBind done
    cases same
    exact setEach held ((held target).acquired (editAcquired applied))
  | text target change =>
    obtain ⟨edited, applied, same⟩ := okBind done
    cases same
    exact setEach held (textEditMarkOwned (held target) applied)
  | read target source reader =>
    obtain ⟨found, moved, read, reads⟩ := readerRead (kept source) reader
    obtain ⟨bytes, fresh⟩ := reads.found
    obtain ⟨n, -, rfl⟩ := reads.moved
    simp only [step, read] at done
    cases done
    have stays : ((blobs source).moveTo n).MarkOwned := held source
    exact setEach (setEach held stays) (markOwnedUnmarked fresh.formatted)
  | transfer target source transfer =>
    obtain ⟨answer, transferred, same⟩ := okBind done
    cases same
    obtain ⟨changed, read⟩ :=
      transferMarkOwned (kept source) (held target) (held source) transferred
    exact setEach (setEach held read) changed
  | copy target source =>
    cases done
    exact setEach held (held source)
  | swap left right =>
    cases done
    exact setEach (setEach held (held right)) (held left)
  | resetAll targets =>
    cases done
    exact resetAllEach targets held (markOwnedUnmarked rfl)

end ArtifactVault.Blob
