import ArtifactVault.Proofs.Blob.Compose
import ArtifactVault.Proofs.Blob.Cursor
import ArtifactVault.Proofs.Blob.Normalize
import ArtifactVault.Proofs.Shell.Quoting

/-! Blobs that differ in storage alone. An action is blind if it ends alike on any two of them:
with related values, in the same abort, or at the ceiling, which the stores do reach at different
times. Actions on one store are blind by what is known of a single run; the rest are made of those. -/
namespace ArtifactVault.Blob

structure Twins (b c : Blob) : Prop where
  left : b.WellFormed
  right : c.WellFormed
  content : c.content = b.content
  cursor : c.cursor = b.cursor
  formatted : c.formatted = b.formatted

section
variable {b c : Blob}

theorem Twins.used (twins : Twins b c) : c.used = b.used := by
  rw [← lengthContent twins.right, twins.content, lengthContent twins.left]

theorem Twins.refl (wf : b.WellFormed) : Twins b b := ⟨wf, wf, rfl, rfl, rfl⟩

theorem Twins.mark (twins : Twins b c) : Twins b.mark c.mark :=
  ⟨markWellFormed twins.left, markWellFormed twins.right, twins.content, twins.cursor, rfl⟩

theorem Twins.rewritten {bytes : Bytes} {e f : Blob} (twins : Twins b c)
    (first : Rewritten b bytes e) (second : Rewritten c bytes f) : Twins e f := by
  refine ⟨first.wellFormed, second.wellFormed, second.content.trans first.content.symm, ?_, ?_⟩
  · rw [first.cursor, second.cursor, twins.cursor]
  · rw [first.formatted, second.formatted, twins.formatted]

theorem Twins.same {e f : Blob} (twins : Twins b c) (first : SameContent b e)
    (second : SameContent c f) : Twins e f := by
  have third := second.rewritten twins.right
  rw [twins.content] at third
  exact twins.rewritten (first.rewritten twins.left) third

theorem Twins.extended {bytes : Bytes} {e f : Blob} (twins : Twins b c)
    (first : Extended b bytes e) (second : Extended c bytes f) : Twins e f := by
  refine ⟨first.wellFormed, second.wellFormed, ?_, ?_, ?_⟩
  · rw [first.content, second.content, twins.content]
  · rw [first.cursor, second.cursor, twins.cursor]
  · rw [first.formatted, second.formatted, twins.formatted]

theorem Twins.moved (twins : Twins b c) {n : Nat} (inside : n ≤ b.used) :
    Twins (b.moveTo n) (c.moveTo n) :=
  ⟨moveToWellFormed twins.left inside, moveToWellFormed twins.right (twins.used ▸ inside),
    twins.content, rfl, twins.formatted⟩

theorem Twins.cut (twins : Twins b c) {n : Nat} (inside : n ≤ b.used) :
    Twins (b.setUsed n) (c.setUsed n) := by
  have leftLe := twins.left.used_le
  have rightLe := twins.right.used_le
  have used := twins.used
  refine ⟨setUsedWellFormed (by omega) twins.left.capacity_lt,
    setUsedWellFormed (by omega) twins.right.capacity_lt, ?_, ?_, twins.formatted⟩
  · rw [setUsedContent inside, setUsedContent (used ▸ inside), twins.content]
  · simp only [setUsed, twins.cursor]

end

def Blind {α : Type} (related : α → α → Prop) (action : Blob → Except Abort α) : Prop :=
  ∀ b c, Twins b c → Alike related (action b) (action c)

def Answered {α : Type} (first second : α × Blob) : Prop :=
  first.1 = second.1 ∧ Twins first.2 second.2

section
variable {α β : Type} {related : α → α → Prop} {action : Blob → Except Abort α}

theorem Blind.andThen {rest : α → Except Abort β} {after : β → β → Prop}
    (blind : Blind related action)
    (each : ∀ value other, related value other → Alike after (rest value) (rest other)) :
    Blind after (fun b => action b >>= rest) :=
  fun b c twins => alikeBind (blind b c twins) each

theorem Blind.fold {act : Blob → α → Except Abort Blob} (one : ∀ item, Blind Twins (act · item))
    (items : List α) : Blind Twins (fun b => items.foldlM act b) := by
  induction items with
  | nil => exact fun b c twins => .values twins
  | cons item items ih =>
    simp only [List.foldlM_cons]
    exact (one item).andThen ih

theorem Blind.answer {action : Blob → Except Abort (α × Blob)} (blind : Blind Answered action)
    (wrap : α → β) : Blind (· = ·) (fun b => do return wrap (← action b).1) :=
  blind.andThen fun _ _ answered => .values (congrArg wrap answered.1)

theorem Blind.blob {action : Blob → Except Abort (α × Blob)} (blind : Blind Answered action) :
    Blind Twins (fun b => do return (← action b).2) :=
  blind.andThen fun _ _ answered => .values answered.2

theorem Blind.marked {act : Blob → Except Abort Blob} (blind : Blind Twins act) :
    Blind Twins (fun b => act b.mark) :=
  fun b c twins => blind b.mark c.mark twins.mark

end

theorem alikeMade {made : Except Abort Blob} (sound : Sound WellFormed made) :
    Alike Twins made made := by
  cases made with
  | error cause => exact .refused cause
  | ok b => exact .values (.refl sound)

theorem alikeAppending {b c : Blob} {bytes : Bytes} {left right : Except Abort Blob}
    (twins : Twins b c) (first : Appending b bytes left) (second : Appending c bytes right) :
    Alike Twins left right := by
  unfold Appending at first second
  rw [twins.used] at second
  by_cases exceeds : wordLimit ≤ b.used + bytes.length
  · rw [if_pos exceeds] at first second
    rw [first, second]
    exact .refused .lengthOverflow
  · rw [if_neg exceeds] at first second
    exact alikeBounded first second fun _ _ => twins.extended

theorem blindAppending {act : Blob → Except Abort Blob} {bytes : Bytes}
    (appends : ∀ b : Blob, b.WellFormed → Appending b bytes (act b)) : Blind Twins act :=
  fun b c twins => alikeAppending twins (appends b twins.left) (appends c twins.right)

theorem blindRewriting {act : Blob → Except Abort Blob} (rewrite : Bytes → Bytes)
    (rewrites : ∀ b : Blob, b.WellFormed → Bounded (Rewritten b (rewrite b.content)) (act b)) :
    Blind Twins act := by
  intro b c twins
  have second := rewrites c twins.right
  rw [twins.content] at second
  exact alikeBounded (rewrites b twins.left) second fun _ _ => twins.rewritten

theorem appendBlind (bytes : Bytes) : Blind Twins (·.append bytes) :=
  blindAppending fun _ wf => appendAppending wf bytes

theorem appendByteBlind (byte : UInt8) : Blind Twins (·.appendByte byte) :=
  blindAppending fun _ wf => appendByteAppending wf byte

theorem appendRepeatBlind (byte : UInt8) (count : Nat) : Blind Twins (·.appendRepeat byte count) :=
  blindAppending fun _ wf => appendRepeatAppending wf byte count

theorem appendFromSelfBlind (start stop : Nat) : Blind Twins (·.appendFromSelf start stop) := by
  intro b c twins
  by_cases outside : stop < start ∨ b.used < stop
  · have first : b.appendFromSelf start stop = .error (.selfRange start stop b.used) := by
      rw [appendFromSelf, if_pos outside]
      rfl
    have second : c.appendFromSelf start stop = .error (.selfRange start stop b.used) := by
      rw [appendFromSelf, twins.used, if_pos outside]
      rfl
    simp only [first, second]
    exact .refused _
  · have inside : stop ≤ b.used := by omega
    have ordered : start ≤ stop := by omega
    simp only [appendFromSelfAlike twins.left ordered inside,
      appendFromSelfAlike twins.right ordered (twins.used ▸ inside), twins.content]
    exact appendBlind _ b c twins

theorem resizeAlike {b c : Blob} {n : Nat} (twins : Twins b c) (shorter : n ≤ b.used) :
    Alike Twins (b.resize n) (c.resize n) := by
  refine alikeBounded (resizeBounded twins.left n) (resizeBounded twins.right n) ?_
  intro e f first second
  have other := second.rewritten twins.right (twins.used ▸ shorter)
  rw [twins.content] at other
  exact twins.rewritten (first.rewritten twins.left shorter) other

theorem reserveBlind (minimum : Nat) : Blind Twins (·.reserve minimum) :=
  blindRewriting id fun _ wf =>
    boundedMono (reserveBounded wf minimum) fun _ reserved => reserved.1.rewritten wf

theorem materializeBlind : Blind Twins materialize :=
  blindRewriting id fun _ wf =>
    boundedMono (materializeBounded wf) fun _ made => made.1.rewritten wf

theorem terminatedBlind : Blind Answered terminated := fun _ _ twins =>
  alikeBounded (terminatedBounded twins.left) (terminatedBounded twins.right)
    fun _ _ first second =>
      ⟨by rw [first.1, second.1, twins.content], twins.same first.2 second.2⟩

theorem cStringBlind : Blind Answered cString :=
  terminatedBlind.andThen fun _ _ answered =>
    .values ⟨congrArg (List.takeWhile _) answered.1, answered.2⟩

theorem setByteBlind (index : Nat) (byte : UInt8) : Blind Answered (·.setByte index byte) := by
  intro b c twins
  have second := setByteBounded twins.right index byte
  rw [twins.content, twins.used] at second
  exact alikeBounded (setByteBounded twins.left index byte) second fun _ _ first second =>
    ⟨first.1.trans second.1.symm, twins.rewritten first.2 second.2⟩

theorem Built.blind {act : Blob → Except Abort Blob} {bytes : Bytes} (built : Built act bytes) :
    Blind Twins act := by
  induction built with
  | nothing => exact fun b c twins => .values twins
  | append bytes => exact appendBlind bytes
  | byte byte => exact appendByteBlind byte
  | andThen _ _ first second => exact first.andThen second

theorem writeTextBlind (text : String) : Blind Twins (·.writeText text) :=
  (appendBlind _).marked

theorem Twins.sqlText {b c : Blob} (twins : Twins b c) : c.sqlText = b.sqlText := by
  unfold Blob.sqlText
  rw [twins.content, twins.formatted]

theorem sqlTextBlind : Blind (· = ·) sqlText := by
  intro b c twins
  rw [twins.sqlText]
  exact alikeSame _

theorem appendArgumentBlind (flavor : Shell.Flavor) (argument : Bytes) (isFilename : Bool) :
    Blind Twins (Shell.appendArgument · flavor argument isFilename) := by
  intro b c twins
  simp only [Shell.appendArgumentEq, twins.content]
  refine alikeBind (alikeSame _) fun quoting _ same => ?_
  cases same
  exact (Shell.addedBuilt flavor b.content quoting argument isFilename).blind.marked b c twins

theorem addCarriageReturnsBlind : Blind Twins addCarriageReturns :=
  blindRewriting (·.flatMap withReturn) fun _ => addCarriageReturnsBounded

theorem newlinesOnlyBlind : Blind Twins newlinesOnly :=
  blindRewriting withNewlines fun _ => newlinesOnlyBounded

theorem transcodeCodePageBlind : Blind Twins transcodeCodePage :=
  blindRewriting (·.flatMap codePageBytes) fun _ => transcodeCodePageBounded

theorem reorderedBlind (reversed : Bool) : Blind Twins (·.reordered reversed) :=
  blindRewriting (fun bytes => if reversed then Utf16.swapBytes bytes else bytes)
    fun _ wf => reorderedBounded wf reversed

theorem stripUtf8MarkBlind : Blind Answered stripUtf8Mark := by
  intro b c twins
  have second := stripUtf8MarkBounded twins.right
  rw [twins.content] at second
  exact alikeBounded (stripUtf8MarkBounded twins.left) second fun _ _ first second =>
    ⟨first.1.trans second.1.symm, twins.rewritten first.2 second.2⟩

theorem decodeMarkedBlind (assumeCodePage : Bool) : Blind Twins (·.decodeMarked assumeCodePage) := by
  intro b c twins
  simp only [decodeMarked, twins.content]
  split
  · rename_i reversed _
    refine alikeBind (reorderedBlind reversed b c twins) fun e f twins => ?_
    rw [twins.content]
    exact alikeMade (soundMono (ofBytesSound _) fun _ fresh => fresh.wellFormed)
  · split
    · exact transcodeCodePageBlind b c twins
    · exact .values twins

theorem normalizeBlind (assumeCodePage : Bool) : Blind Twins (·.normalize assumeCodePage) := by
  simp only [normalizeEq]
  refine stripUtf8MarkBlind.andThen fun first second answered => ?_
  rw [answered.1]
  split
  · exact .values answered.2
  · exact decodeMarkedBlind assumeCodePage _ _ answered.2

end ArtifactVault.Blob
