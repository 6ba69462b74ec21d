import ArtifactVault.Blob.Cursor
import ArtifactVault.Proofs.Blob.Append

/-! Reading from the cursor on never fails in a well-formed blob: every part that a reader asks for
lies within the live bytes, and the cursor moves to a place within them. `Read` says what every
reader gives, so runs need not look into the readers. -/
namespace ArtifactVault.Blob
variable {b : Blob}

def part (b : Blob) (start stop : Nat) : Bytes := (b.content.take stop).drop start

def viewOf (bytes : Bytes) : Blob := ⟨bytes, .borrowed, bytes.length, 0, false⟩

def moveTo (b : Blob) (n : Nat) : Blob := { b with cursor := n }

theorem moveToWellFormed {n : Nat} (wf : b.WellFormed) (inside : n ≤ b.used) :
    (b.moveTo n).WellFormed :=
  ⟨wf.used_le, inside, wf.capacity_lt⟩

theorem lengthPart (wf : b.WellFormed) (start stop : Nat) :
    (b.part start stop).length = min stop b.used - start := by
  simp only [part, List.length_drop, List.length_take, lengthContent wf]

theorem partAhead {start : Nat} {front rest : Bytes}
    (ahead : b.content.drop start = front ++ rest) : b.part start (start + front.length) = front := by
  rw [part, List.drop_take, ahead, Nat.add_sub_cancel_left, List.take_left]

theorem dropAhead {start : Nat} {front rest : Bytes}
    (ahead : b.content.drop start = front ++ rest) : b.content.drop (start + front.length) = rest := by
  rw [← List.drop_drop, ahead, List.drop_left]

theorem usedBelow (wf : b.WellFormed) : b.used < sizeCeiling :=
  Nat.lt_of_le_of_lt wf.used_le wf.capacity_lt

theorem viewOfFresh {bytes : Bytes} (below : bytes.length < sizeCeiling) :
    Fresh bytes (viewOf bytes) :=
  ⟨⟨Nat.le_refl _, Nat.zero_le _, below⟩, List.take_length, rfl, rfl⟩

theorem partFresh (wf : b.WellFormed) (start stop : Nat) :
    Fresh (b.part start stop) (viewOf (b.part start stop)) := by
  have below := usedBelow wf
  refine viewOfFresh ?_
  rw [lengthPart wf]
  omega

theorem borrowBelow {bytes : Bytes} (below : bytes.length < sizeCeiling) :
    borrow bytes = .ok (viewOf bytes) := by
  unfold borrow checkCeiling
  rw [if_neg (Nat.not_le_of_lt below)]
  rfl

theorem viewInside {start stop : Nat} (wf : b.WellFormed) (ordered : start ≤ stop)
    (inside : stop ≤ b.used) : b.view start stop = .ok (viewOf (b.part start stop)) := by
  have below := (partFresh wf start stop).wellFormed.capacity_lt
  unfold view
  rw [sliceInside ordered (by rw [lengthContent wf]; exact inside)]
  exact borrowBelow below

theorem remainingInside (wf : b.WellFormed) : b.remaining = .ok (b.content.drop b.cursor) := by
  unfold remaining
  rw [sliceInside wf.cursor_le (Nat.le_of_eq (lengthContent wf).symm), ← lengthContent wf,
    List.take_length]

theorem lengthRemaining (wf : b.WellFormed) :
    (b.content.drop b.cursor).length = b.used - b.cursor := by
  rw [List.length_drop, lengthContent wf]

theorem moveToEnd (wf : b.WellFormed) (ended : b.content.drop b.cursor = []) :
    b.moveTo b.used = b := by
  have left := lengthRemaining wf
  have inside := wf.cursor_le
  rw [ended, List.length_nil] at left
  have here : b.used = b.cursor := by omega
  rw [here]
  rfl

theorem linesLengthBounds (taken n : Nat) (bytes : Bytes) :
    taken ≤ linesLength taken n bytes ∧ linesLength taken n bytes ≤ taken + bytes.length := by
  induction bytes generalizing taken n with
  | nil => cases n <;> simp [linesLength]
  | cons byte bytes ih =>
    cases n with
    | zero => simp [linesLength]
    | succ n =>
      rw [linesLength, List.length_cons]
      split
      · have bounds := ih (taken + 1) n
        omega
      · have bounds := ih (taken + 1) (n + 1)
        omega

theorem spaceLengthLe (bytes : Bytes) : spaceLength bytes ≤ bytes.length :=
  (List.takeWhile_sublist _).length_le

theorem wordLengthLe (bytes : Bytes) : wordLength bytes ≤ bytes.length :=
  (List.takeWhile_sublist _).length_le

theorem literalLengthBounds (taken : Nat) (bytes : Bytes) :
    taken ≤ literalLength taken bytes ∧ literalLength taken bytes ≤ taken + bytes.length := by
  fun_induction literalLength taken bytes with
  | case1 => simp
  | case2 taken rest ih => simp only [List.length_cons]; omega
  | case3 => simp only [List.length_cons]; omega
  | case4 taken byte rest notDoubled notQuote ih => simp only [List.length_cons]; omega

structure Read (b : Blob) (found : Option Blob) (after : Blob) : Prop where
  view : ∀ v, found = some v → ∃ bytes, Fresh bytes v
  moved : ∃ n ≤ b.used, after = b.moveTo n

theorem Read.wellFormed {found : Option Blob} {after : Blob} (read : Read b found after)
    (wf : b.WellFormed) : after.WellFormed := by
  obtain ⟨n, inside, rfl⟩ := read.moved
  exact moveToWellFormed wf inside

theorem Read.found {found : Option Blob} {after : Blob} (read : Read b found after) :
    ∃ bytes, Fresh bytes (found.getD empty) := by
  cases found with
  | none => exact ⟨_, emptyFresh⟩
  | some v => exact read.view v rfl

theorem seekInside (b : Blob) (offset : Int) (whence : Whence) :
    ∃ n ≤ b.used, b.seek offset whence = b.moveTo n :=
  ⟨_, Nat.min_le_right _ _, rfl⟩

theorem extractInside (wf : b.WellFormed) (n : Nat) :
    b.extract n = .ok (viewOf (b.part b.cursor (b.cursor + min n (b.used - b.cursor))),
      b.moveTo (b.cursor + min n (b.used - b.cursor))) := by
  have inside := wf.cursor_le
  simp only [extract, remainingInside wf, bind, Except.bind, lengthRemaining wf,
    viewInside wf (Nat.le_add_right _ _)
      (by omega : b.cursor + min n (b.used - b.cursor) ≤ b.used)]
  rfl

theorem extractRead (wf : b.WellFormed) (n : Nat) :
    ∃ v after, b.extract n = .ok (v, after) ∧ Read b (some v) after := by
  have inside := wf.cursor_le
  refine ⟨_, _, extractInside wf n, ?_, _, ?_, rfl⟩
  · rintro v ⟨⟩
    exact ⟨_, partFresh wf _ _⟩
  · omega

def linesPart (b : Blob) (n : Nat) : Bytes :=
  b.part b.cursor (b.cursor + linesLength 0 n (b.content.drop b.cursor))

theorem extractLinesInside (wf : b.WellFormed) (n : Nat) :
    b.extractLines n = .ok (viewOf (b.linesPart n)) := by
  have inside := wf.cursor_le
  have bounds := linesLengthBounds 0 n (b.content.drop b.cursor)
  rw [lengthRemaining wf] at bounds
  simp only [extractLines, remainingInside wf, bind, Except.bind]
  exact viewInside wf (Nat.le_add_right _ _) (by omega)

theorem linesPartInside (wf : b.WellFormed) (n : Nat) :
    b.cursor + (b.linesPart n).length ≤ b.used := by
  have inside := wf.cursor_le
  rw [linesPart, lengthPart wf]
  omega

theorem lineInside (wf : b.WellFormed) : b.line =
    b.extract (lineLength (b.content.drop b.cursor)) >>= fun answer =>
      .ok (if answer.1.isEmpty then none else some answer.1, answer.2) := by
  simp only [line, remainingInside wf]
  rfl

theorem lineRead (wf : b.WellFormed) :
    ∃ found after, b.line = .ok (found, after) ∧ Read b found after := by
  obtain ⟨v, after, extracted, read⟩ := extractRead wf (lineLength (b.content.drop b.cursor))
  refine ⟨if v.isEmpty then none else some v, after, ?_, ?_, read.moved⟩
  · rw [lineInside wf, extracted]
    rfl
  · intro w same
    split at same <;> cases same
    exact read.view _ rfl

def tokenStart (b : Blob) : Nat := b.cursor + spaceLength (b.content.drop b.cursor)

def tokenStop (length : Bytes → Nat) (b : Blob) : Nat :=
  b.tokenStart + length (b.content.drop b.tokenStart)

def tokenBy (length : Bytes → Nat) (b : Blob) : Except Abort (Option Blob × Blob) :=
  b.finishToken b.tokenStart (b.tokenStop length)

def sqlTokenLength (bytes : Bytes) : Nat :=
  match bytes with
  | 0x27 :: rest => literalLength 1 rest
  | _ => wordLength bytes

theorem sqlTokenLengthLe (bytes : Bytes) : sqlTokenLength bytes ≤ bytes.length := by
  unfold sqlTokenLength
  split
  · rename_i rest
    have bounds := literalLengthBounds 1 rest
    rw [List.length_cons]
    omega
  · exact wordLengthLe _

theorem behindSpaces (wf : b.WellFormed) {stop : Nat} (inside : stop ≤ b.used) :
    stop + spaceLength (b.content.drop stop) ≤ b.used := by
  have spaces := spaceLengthLe (b.content.drop stop)
  rw [List.length_drop, lengthContent wf] at spaces
  omega

theorem finishTokenInside {start stop : Nat} (wf : b.WellFormed) (ordered : start ≤ stop)
    (inside : stop ≤ b.used) : b.finishToken start stop =
      .ok (if start < stop then some (viewOf (b.part start stop)) else none,
        b.moveTo (stop + spaceLength (b.content.drop stop))) := by
  unfold finishToken
  by_cases some : start < stop
  · simp only [if_pos some, viewInside wf ordered inside]
    rfl
  · simp only [if_neg some]
    rfl

theorem tokenStopInside {length : Bytes → Nat} (wf : b.WellFormed)
    (short : ∀ bytes, length bytes ≤ bytes.length) : b.tokenStop length ≤ b.used := by
  have begun : b.tokenStart ≤ b.used := behindSpaces wf wf.cursor_le
  have word := short (b.content.drop b.tokenStart)
  rw [List.length_drop, lengthContent wf] at word
  unfold tokenStop
  omega

theorem tokenByInside {length : Bytes → Nat} (wf : b.WellFormed)
    (short : ∀ bytes, length bytes ≤ bytes.length) : tokenBy length b =
      .ok (if b.tokenStart < b.tokenStop length then
          some (viewOf (b.part b.tokenStart (b.tokenStop length))) else none,
        b.moveTo (b.tokenStop length + spaceLength (b.content.drop (b.tokenStop length)))) :=
  finishTokenInside wf (Nat.le_add_right _ _) (tokenStopInside wf short)

theorem tokenByRead {length : Bytes → Nat} (wf : b.WellFormed)
    (short : ∀ bytes, length bytes ≤ bytes.length) :
    ∃ found after, tokenBy length b = .ok (found, after) ∧ Read b found after := by
  refine ⟨_, _, tokenByInside wf short, ?_, _, behindSpaces wf (tokenStopInside wf short), rfl⟩
  intro v found
  split at found <;> cases found
  exact ⟨_, partFresh wf _ _⟩

theorem tailInside (wf : b.WellFormed) : b.tail = .ok (viewOf (b.part b.cursor b.used)) :=
  viewInside wf wf.cursor_le (Nat.le_refl _)

inductive Drained (reader : Blob → Except Abort (Option Blob × Blob)) : Blob → List Bytes → Blob → Prop
    where
  | done {b after} (ended : reader b = .ok (none, after)) : Drained reader b [] after
  | next {b found moved parts after} (read : reader b = .ok (some found, moved))
      (later : Drained reader moved parts after) : Drained reader b (found.content :: parts) after

theorem copyLinesInside (wf : b.WellFormed) (target : Blob) (n : Nat) : b.copyLines target n =
    target.append (b.linesPart n) >>= fun extended =>
      .ok ((b.linesPart n).length, b.moveTo (b.cursor + (b.linesPart n).length), extended) := by
  have whole : (viewOf (b.linesPart n)).content = b.linesPart n := List.take_length
  simp only [copyLines, extractLinesInside wf, bind, Except.bind, whole]
  rfl

theorem copyLinesSound {target : Blob} (wf : b.WellFormed) (targetWf : target.WellFormed) (n : Nat) :
    Sound (fun answer => answer.2.1 = b.moveTo (b.cursor + (b.linesPart n).length) ∧
        Written target (b.linesPart n) answer.2.2) (b.copyLines target n) := by
  rw [copyLinesInside wf]
  exact soundBind ((appendAppends _).sound target targetWf) fun _ written => ⟨rfl, written⟩

end ArtifactVault.Blob
