import Mathlib.Data.List.Induction
import ArtifactVault.Blob.Normalize
import ArtifactVault.Proofs.Blob.Growth
import ArtifactVault.Proofs.Byte
import ArtifactVault.Proofs.Text.Utf16

/-! The transforms that change a blob where it stands never leave its store. Expansion runs from the
back: what is unread stays in front of what is done, with a gap that is never negative. Gathering
runs from the front, with a gap that never shrinks. -/
namespace ArtifactVault.Blob
variable {b : Blob}

theorem readAtLayout (front rest : Bytes) (byte : UInt8) :
    readAt (front ++ byte :: rest).toArray front.length = .ok byte := by
  simp [readAt]

theorem writeAtLayout (bytes front old rest : Bytes) (length : old.length = bytes.length) :
    writeAt (front ++ old ++ rest).toArray front.length bytes =
      .ok (front ++ bytes ++ rest).toArray := by
  induction bytes generalizing front old with
  | nil =>
    rw [List.eq_nil_of_length_eq_zero length]
    rfl
  | cons byte bytes ih =>
    obtain ⟨first, old, rfl⟩ := List.exists_cons_of_length_eq_add_one length
    have inside : front.length < (front ++ first :: old ++ rest).toArray.size := by simp
    have stored : (front ++ first :: old ++ rest).toArray.setIfInBounds front.length byte =
        ((front ++ [byte]) ++ old ++ rest).toArray := by simp
    have next := ih (front ++ [byte]) old (Nat.succ.inj length)
    rw [List.length_append] at next
    rw [writeAt, if_pos inside, stored]
    refine next.trans ?_
    simp

theorem ownedStoreOk (owned : b.ownership = .owned) : b.ownedStore = .ok b.store.toArray := by
  simp only [ownedStore, owned]

structure Expands (expand : UInt8 → Bytes) : Prop where
  nonempty : ∀ byte, 1 ≤ (expand byte).length
  single : ∀ byte, (expand byte).length = 1 → expand byte = [byte]

theorem Expands.lengthLe {expand : UInt8 → Bytes} (expands : Expands expand) (bytes : Bytes) :
    bytes.length ≤ (bytes.flatMap expand).length := by
  induction bytes with
  | nil => exact Nat.zero_le _
  | cons byte bytes ih =>
    have first := expands.nonempty byte
    rw [List.flatMap_cons, List.length_append, List.length_cons]
    omega

theorem Expands.unchanged {expand : UInt8 → Bytes} (expands : Expands expand) (bytes : Bytes)
    (same : (bytes.flatMap expand).length = bytes.length) : bytes.flatMap expand = bytes := by
  induction bytes with
  | nil => rfl
  | cons byte bytes ih =>
    have first := expands.nonempty byte
    have rest := expands.lengthLe bytes
    rw [List.flatMap_cons, List.length_append, List.length_cons] at same
    rw [List.flatMap_cons, ih (by omega), expands.single byte (by omega)]
    rfl

theorem expandFromLayout {expand : UInt8 → Bytes} (expands : Expands expand)
    (unread gap done : Bytes)
    (length : (unread.flatMap expand).length = unread.length + gap.length) :
    expandFrom expand (unread ++ gap ++ done).toArray unread.length (unread.length + gap.length) =
      .ok (unread.flatMap expand ++ done).toArray := by
  induction unread using List.reverseRecOn generalizing gap done with
  | nil =>
    rw [List.eq_nil_of_length_eq_zero (l := gap) (by simpa using length.symm)]
    rfl
  | append_singleton front byte ih =>
    rw [List.length_append, List.length_singleton, expandFrom]
    by_cases met : front.length + 1 + gap.length ≤ front.length + 1
    · have none : gap = [] := List.eq_nil_of_length_eq_zero (by omega)
      rw [if_pos met, expands.unchanged _ (by rw [length, none]; rfl), none, List.append_nil]
    · -- The byte's own place and the gap hold its expansion, with the new gap in front of it.
      have frontLe := expands.lengthLe front
      rw [List.flatMap_append, List.flatMap_singleton, List.length_append, List.length_append,
        List.length_singleton] at length
      let middle := byte :: gap
      let kept := (front.flatMap expand).length - front.length
      have middleLength : middle.length = kept + (expand byte).length := by
        simp only [middle, kept, List.length_cons]
        omega
      have newGap : (middle.take kept).length = kept := by simp only [List.length_take]; omega
      have place : front.length + 1 + gap.length - (expand byte).length =
          (front ++ middle.take kept).length := by
        simp only [List.length_append, newGap, kept]
        omega
      have read := readAtLayout front (gap ++ done) byte
      have stepped : stepBack (front.length + 1 + gap.length) (expand byte).length =
          .ok (front ++ middle.take kept).length := by
        rw [stepBack, if_pos (by omega), place]
      have wrote := writeAtLayout (expand byte) (front ++ middle.take kept) (middle.drop kept) done
        (by simp only [List.length_drop]; omega)
      have cut : front ++ middle.take kept ++ middle.drop kept = front ++ middle := by
        rw [List.append_assoc, List.take_append_drop]
      have rest := ih (middle.take kept) (expand byte ++ done) (by rw [newGap]; omega)
      have layout : (front ++ [byte] ++ gap ++ done) = front ++ middle ++ done := by simp [middle]
      have spread : front ++ byte :: (gap ++ done) = front ++ middle ++ done := by simp [middle]
      rw [cut] at wrote
      rw [spread] at read
      simp only [if_neg met, layout, read, stepped, wrote, bind, Except.bind]
      rw [List.length_append, List.append_assoc, rest]
      simp

def Terminated (b : Blob) : Prop := b.store[b.used]? = some 0

structure Widened (b : Blob) (n : Nat) (g : Blob) : Prop where
  wellFormed : g.WellFormed
  owned : g.ownership = .owned
  used : g.used = n
  room : n < g.capacity
  front : g.store.take b.used = b.content
  cursor : g.cursor = b.cursor
  formatted : g.formatted = b.formatted

theorem growInPlaceAsking {n : Nat} (wf : b.WellFormed) (longer : b.used ≤ n) :
    Asking (n + 1) (fun g => Widened b n g ∧ g.Terminated) (b.growInPlace n) := by
  have behind : min b.cursor n = b.cursor :=
    Nat.min_eq_left (Nat.le_trans wf.cursor_le longer)
  have terminate {g : Blob} (widened : Widened b n g) :
      Asking (n + 1) (fun g => Widened b n g ∧ g.Terminated) (g.write n [0]) := by
    have fits : n + [(0 : UInt8)].length ≤ g.capacity := widened.room
    have same := patchedCapacity fits
    have ends : (g.patched n [0]).Terminated := by
      have used : (g.patched n [0]).used = n + 0 := widened.used
      rw [Terminated, used]
      exact patchedAt 0 fits (Nat.zero_lt_succ _)
    rw [writeInside widened.owned fits]
    refine ⟨⟨patchedWellFormed widened.wellFormed fits, widened.owned, widened.used,
      same ▸ widened.room, ?_, widened.cursor, widened.formatted⟩, ends⟩
    have front : b.used ≤ (g.store.take n).length := by
      have room := widened.room
      simp only [capacity] at room
      simp only [List.length_take]
      omega
    simp only [patched]
    rw [List.append_assoc, List.take_append_of_le_length front, List.take_take,
      Nat.min_eq_left longer]
    exact widened.front
  unfold growInPlace
  by_cases full : b.capacity ≤ n ∨ b.ownership = .borrowed
  · rw [if_pos full]
    refine askingBind (resizeAsking wf n) fun r resized => terminate ?_
    refine ⟨resized.wellFormed, resized.owned, resized.used, resized.room, ?_,
      resized.cursor.trans behind, resized.formatted⟩
    have kept := resized.kept
    have whole : b.content.take n = b.content :=
      List.take_of_length_le (by rw [lengthContent wf]; exact longer)
    rw [whole, content, resized.used, List.take_take, Nat.min_eq_left longer,
      Nat.min_eq_left longer] at kept
    exact kept
  · obtain ⟨room, owned⟩ := not_or.mp full
    rw [if_neg full]
    refine terminate ⟨setUsedWellFormed (by omega) wf.capacity_lt, ?_, rfl, by
      simpa [capacity, setUsed] using room, rfl, behind, rfl⟩
    rcases ownedOrBorrowed b with strategy | strategy
    · exact strategy
    · exact absurd strategy owned

theorem expandInPlaceAsking {growth : Nat} {expand : UInt8 → Bytes} (wf : b.WellFormed)
    (expands : Expands expand)
    (length : (b.content.flatMap expand).length = b.used + growth) :
    Asking (b.used + growth + 1)
      (fun e => Rewritten b (b.content.flatMap expand) e ∧ e.Terminated)
      (b.expandInPlace growth expand) := by
  refine askingBind (growInPlaceAsking wf (Nat.le_add_right _ _)) fun g ⟨widened, ends⟩ => ?_
  have room := widened.room
  have live := lengthContent wf
  let gap := (g.store.drop b.used).take growth
  let done := g.store.drop (b.used + growth)
  have store : g.store = b.content ++ gap ++ done := by
    rw [← widened.front]
    simp only [gap, done]
    rw [List.append_assoc, ← List.drop_drop, List.take_append_drop, List.take_append_drop]
  have gapLength : gap.length = growth := by
    simp only [capacity] at room
    simp only [gap, List.length_take, List.length_drop]
    omega
  have expanded := expandFromLayout expands b.content gap done (by rw [length, live, gapLength])
  rw [live, gapLength] at expanded
  simp only [ownedStoreOk widened.owned, store, expanded, bind, Except.bind]
  have whole : (b.content.flatMap expand ++ done).length = g.capacity := by
    rw [List.length_append, length, capacity, store, List.length_append, List.length_append, live,
      gapLength]
  have fits := widened.wellFormed
  refine ⟨⟨⟨?_, fits.cursor_le, ?_⟩, ?_, ?_, widened.formatted⟩, ?_⟩
  · exact Nat.le_trans fits.used_le (Nat.le_of_eq whole.symm)
  · exact Nat.lt_of_le_of_lt (Nat.le_of_eq whole) fits.capacity_lt
  · exact List.take_left' (by rw [length, widened.used])
  · have inside := wf.cursor_le
    have cursor : g.cursor = b.cursor := widened.cursor
    rw [length]
    exact cursor.trans (Nat.min_eq_left (by omega)).symm
  · rw [Terminated, widened.used] at ends
    have last : g.used = (b.content.flatMap expand).length := by rw [widened.used, length]
    simp only [Terminated]
    rw [last, List.getElem?_append_right (Nat.le_refl _), Nat.sub_self, List.getElem?_drop]
    exact ends

theorem withReturnExpands : Expands withReturn where
  nonempty byte := by unfold withReturn; split <;> simp
  single byte := by unfold withReturn; split <;> simp

theorem lengthWithReturns (bytes : Bytes) :
    (bytes.flatMap withReturn).length = bytes.length + bytes.count 0x0a := by
  induction bytes with
  | nil => rfl
  | cons byte bytes ih =>
    rw [List.flatMap_cons, List.length_append, ih, List.count_cons, withReturn, List.length_cons]
    by_cases newline : byte = 0x0a
    · simp only [newline, if_true, beq_self_eq_true, List.length_cons, List.length_nil]
      omega
    · simp only [newline, if_false, beq_iff_eq, List.length_cons, List.length_nil]
      omega

theorem addCarriageReturnsAsking (wf : b.WellFormed) :
    Asking ((b.content.flatMap withReturn).length + 1)
      (fun e => Rewritten b (b.content.flatMap withReturn) e ∧ (0x0a ∈ b.content → e.Terminated))
      b.addCarriageReturns := by
  have length := lengthWithReturns b.content
  rw [lengthContent wf] at length
  have longer := expandInPlaceAsking wf withReturnExpands length
  unfold addCarriageReturns
  by_cases none : b.content.count 0x0a = 0
  · simp only [if_pos none]
    rw [withReturnExpands.unchanged _ (by rw [length, none, lengthContent wf]; rfl)]
    exact ⟨(SameContent.refl wf).rewritten wf, fun mem => absurd mem (List.count_eq_zero.mp none)⟩
  · simp only [if_neg none]
    rw [length]
    exact askingMono longer fun e ⟨rewritten, ends⟩ => ⟨rewritten, fun _ => ends⟩

theorem addCarriageReturnsBounded (wf : b.WellFormed) :
    Bounded (Rewritten b (b.content.flatMap withReturn)) b.addCarriageReturns :=
  boundedMono (addCarriageReturnsAsking wf).bounded fun _ made => made.1

theorem lengthCodePageBytes (byte : UInt8) :
    (codePageBytes byte).length = CodePage.growth byte + 1 := by
  revert byte
  exact Byte.everyByte (by decide +kernel)

theorem codePageExpands : Expands codePageBytes where
  nonempty byte := by rw [lengthCodePageBytes]; omega
  single := Byte.everyByte (by decide +kernel)

theorem lengthTranscoded (bytes : Bytes) :
    (bytes.flatMap codePageBytes).length = bytes.length + (bytes.map CodePage.growth).foldr (· + ·) 0 := by
  induction bytes with
  | nil => rfl
  | cons byte bytes ih =>
    rw [List.flatMap_cons, List.length_append, ih, lengthCodePageBytes, List.length_cons,
      List.map_cons, List.foldr_cons]
    omega

theorem transcodeCodePageAsking (wf : b.WellFormed) :
    Asking ((b.content.flatMap codePageBytes).length + 1)
      (Rewritten b (b.content.flatMap codePageBytes)) b.transcodeCodePage := by
  have length := lengthTranscoded b.content
  rw [lengthContent wf] at length
  have longer := expandInPlaceAsking wf codePageExpands length
  unfold transcodeCodePage
  by_cases none : (b.content.map CodePage.growth).foldr (· + ·) 0 = 0
  · simp only [if_pos none]
    rw [codePageExpands.unchanged _ (by rw [length, none, lengthContent wf]; rfl)]
    exact (SameContent.refl wf).rewritten wf
  · simp only [if_neg none]
    rw [length]
    exact askingMono longer fun e made => made.1

theorem transcodeCodePageBounded (wf : b.WellFormed) :
    Bounded (Rewritten b (b.content.flatMap codePageBytes)) b.transcodeCodePage :=
  (transcodeCodePageAsking wf).bounded

def withNewlines : Bytes → Bytes
  | [] => []
  | byte :: rest =>
    if byte ≠ 0x0d then byte :: withNewlines rest
    else if rest.head? ≠ some 0x0a then 0x0a :: withNewlines rest
    else withNewlines rest

theorem noNewlineAtLayout (front rest behind : Bytes) :
    noNewlineAt (front ++ rest ++ behind).toArray (front.length + rest.length) front.length =
      .ok (rest.head? ≠ some 0x0a) := by
  unfold noNewlineAt
  cases rest with
  | nil => simp
  | cons byte rest =>
    have read := readAtLayout front (rest ++ behind) byte
    rw [if_pos (by simp), List.append_assoc, List.cons_append, read]
    simp [bind, Except.bind, pure, Except.pure]

theorem keepLayout (done gap rest behind : Bytes) (byte kept : UInt8) :
    ∃ shifted, shifted.length = gap.length ∧
      writeAt (done ++ gap ++ byte :: rest ++ behind).toArray done.length [kept] =
        .ok (done ++ [kept] ++ shifted ++ rest ++ behind).toArray := by
  -- With no gap the byte is written onto itself.
  have first : ((gap ++ [byte]).take 1).length = [kept].length := by simp
  have wrote := writeAtLayout [kept] done ((gap ++ [byte]).take 1)
    ((gap ++ [byte]).drop 1 ++ (rest ++ behind)) first
  have layout : done ++ gap ++ byte :: rest ++ behind =
      done ++ (gap ++ [byte]).take 1 ++ ((gap ++ [byte]).drop 1 ++ (rest ++ behind)) := by
    rw [List.append_assoc done (List.take 1 _), ← List.append_assoc (List.take 1 _),
      List.take_append_drop]
    simp
  refine ⟨(gap ++ [byte]).drop 1, by simp, ?_⟩
  rw [layout, wrote]
  simp

theorem gatherFromLayout (done gap rest behind : Bytes) (length : Nat)
    (total : length = done.length + gap.length + rest.length) :
    ∃ left, gap.length + rest.length = (withNewlines rest).length + left.length ∧
      gatherFrom length (done ++ gap ++ rest ++ behind).toArray done.length rest.length =
        .ok ((done ++ withNewlines rest ++ left ++ behind).toArray,
          done.length + (withNewlines rest).length) := by
  induction rest generalizing done gap with
  | nil => exact ⟨gap, by simp [withNewlines], by simp [gatherFrom, withNewlines]⟩
  | cons byte rest ih =>
    have moved (kept : UInt8) : ∃ left,
        gap.length + (byte :: rest).length = (kept :: withNewlines rest).length + left.length ∧
        (writeAt (done ++ gap ++ byte :: rest ++ behind).toArray done.length [kept] >>= fun store =>
          gatherFrom length store (done.length + 1) rest.length) =
        .ok ((done ++ (kept :: withNewlines rest) ++ left ++ behind).toArray,
          done.length + (kept :: withNewlines rest).length) := by
      obtain ⟨shifted, same, wrote⟩ := keepLayout done gap rest behind byte kept
      obtain ⟨left, sum, gathered⟩ := ih (done ++ [kept]) shifted
        (by simp only [List.length_append, List.length_cons, List.length_nil] at total ⊢; omega)
      refine ⟨left, by simp only [List.length_cons]; omega, ?_⟩
      rw [wrote]
      rw [List.length_append, List.length_singleton] at gathered
      refine gathered.trans ?_
      simp [Nat.add_assoc, Nat.add_comm]
    have place : length - (rest.length + 1) = (done ++ gap).length := by
      simp only [List.length_append, List.length_cons] at total ⊢
      omega
    have read := readAtLayout (done ++ gap) (rest ++ behind) byte
    rw [← List.cons_append, ← List.append_assoc] at read
    simp only [List.length_cons, gatherFrom, place, read, bind, Except.bind]
    by_cases plain : byte ≠ 0x0d
    · rw [if_pos plain, withNewlines, if_pos plain]
      exact moved byte
    · have next := noNewlineAtLayout (done ++ gap ++ [byte]) rest behind
      have behindByte : (done ++ gap ++ [byte]).length + rest.length = length := by
        simp only [List.length_append, List.length_cons, List.length_nil] at total ⊢
        omega
      have nextPlace : (done ++ gap ++ [byte]).length = (done ++ gap).length + 1 :=
        List.length_append
      rw [behindByte, List.append_assoc _ [byte] rest, List.singleton_append, nextPlace] at next
      rw [if_neg plain, withNewlines, if_neg plain, next]
      by_cases alone : rest.head? ≠ some 0x0a
      · simp only [decide_eq_true alone, if_pos alone, if_true]
        exact moved 0x0a
      · obtain ⟨left, sum, gathered⟩ := ih done (gap ++ [byte])
          (by simp only [List.length_append, List.length_cons, List.length_nil] at total ⊢; omega)
        rw [List.length_append, List.length_singleton] at sum
        simp only [decide_eq_false alone, if_neg alone, Bool.false_eq_true, if_false]
        refine ⟨left, by omega, ?_⟩
        rw [← gathered]
        simp

theorem makeWritableAsking (wf : b.WellFormed) :
    Asking (b.used + 1) (fun h => SameContent b h ∧ h.ownership = .owned ∧ h.used < h.capacity)
      b.makeWritable := by
  unfold makeWritable
  by_cases fixed : b.ownership = .borrowed ∨ b.capacity ≤ b.used
  · rw [if_pos fixed]
    refine askingMono (materializeAsking wf) fun h made => ⟨made.1, made.2.owned, ?_⟩
    rw [made.1.used]
    exact made.2.room
  · obtain ⟨owned, room⟩ := not_or.mp fixed
    rw [if_neg fixed]
    rcases ownedOrBorrowed b with strategy | strategy
    · exact ⟨.refl wf, strategy, Nat.lt_of_not_le room⟩
    · exact absurd strategy owned

theorem withNewlinesUnchanged {bytes : Bytes} (none : 0x0d ∉ bytes) : withNewlines bytes = bytes := by
  induction bytes with
  | nil => rfl
  | cons byte bytes ih =>
    rw [List.mem_cons, not_or] at none
    rw [withNewlines, if_pos (Ne.symm none.1), ih none.2]

theorem newlinesOnlyAsking (wf : b.WellFormed) :
    Asking (b.used + 1)
      (fun e => Rewritten b (withNewlines b.content) e ∧ (0x0d ∈ b.content → e.Terminated))
      b.newlinesOnly := by
  unfold newlinesOnly
  by_cases returns : b.content.contains 0x0d
  · simp only [if_pos returns]
    refine askingBind (makeWritableAsking wf) fun held ⟨same, owned, room⟩ => ?_
    obtain ⟨byte, behind, rest⟩ := List.exists_cons_of_length_pos
      (l := held.store.drop held.used) (by rw [List.length_drop]; exact Nat.sub_pos_of_lt room)
    have store : held.store = b.content ++ byte :: behind := by
      rw [← rest, ← same.content]
      exact (List.take_append_drop _ _).symm
    have live : b.content.length = held.used := by rw [same.used, lengthContent wf]
    obtain ⟨left, sum, gathered⟩ := gatherFromLayout [] [] b.content (byte :: behind)
      held.used (by simpa using live.symm)
    simp only [List.nil_append, List.length_nil, Nat.zero_add, live] at gathered sum
    have spare := writeAtLayout [0] (withNewlines b.content) ((left ++ [byte]).take 1)
      ((left ++ [byte]).drop 1 ++ behind) (by simp)
    have layout : withNewlines b.content ++ (left ++ [byte]).take 1 ++
        ((left ++ [byte]).drop 1 ++ behind) = withNewlines b.content ++ left ++ byte :: behind := by
      rw [List.append_assoc _ (List.take 1 _), ← List.append_assoc (List.take 1 _),
        List.take_append_drop]
      simp
    rw [layout] at spare
    simp only [ownedStoreOk owned, store, gathered, spare, bind, Except.bind]
    have size : (withNewlines b.content ++ [0] ++ ((left ++ [byte]).drop 1 ++ behind)).length =
        held.capacity := by
      simp only [capacity, store, List.length_append, List.length_drop, List.length_cons,
        List.length_nil, live]
      omega
    refine ⟨⟨setUsedWellFormed ?_ (Nat.lt_of_le_of_lt (Nat.le_of_eq size) ?_), ?_,
      congrArg (min · _) same.cursor, same.formatted⟩, fun _ => ?_⟩
    · refine Nat.le_trans ?_ (Nat.le_of_eq size.symm)
      omega
    · exact same.wellFormed.capacity_lt
    · simp only [content, setUsed, List.append_assoc]
      exact List.take_left' rfl
    · simp only [Terminated, setUsed, List.append_assoc]
      rw [List.getElem?_append_right (Nat.le_refl _), Nat.sub_self]
      rfl
  · simp only [if_neg returns]
    have none : 0x0d ∉ b.content := fun mem => returns (List.contains_iff_mem.mpr mem)
    rw [withNewlinesUnchanged none]
    exact ⟨(SameContent.refl wf).rewritten wf, fun mem => absurd mem none⟩

theorem newlinesOnlyBounded (wf : b.WellFormed) :
    Bounded (Rewritten b (withNewlines b.content)) b.newlinesOnly :=
  boundedMono (newlinesOnlyAsking wf).bounded fun _ made => made.1

theorem stripUtf8MarkAsking (wf : b.WellFormed) :
    Asking (b.used + 1) (fun answer => answer.1 = hasUtf8Mark b.content ∧
        Rewritten b (if hasUtf8Mark b.content then b.content.drop 3 else b.content) answer.2)
      b.stripUtf8Mark := by
  unfold stripUtf8Mark
  by_cases marked : hasUtf8Mark b.content
  · simp only [if_pos marked]
    refine askingBind (makeWritableAsking wf) fun held ⟨same, owned, room⟩ => ?_
    have long : utf8Mark.length ≤ held.used := by
      have front := (List.isPrefixOf_iff_prefix.mp marked).length_le
      rw [lengthContent wf] at front
      exact same.used ▸ front
    have inside : held.used ≤ held.store.length := same.wellFormed.used_le
    have kept : (held.store.take held.used).drop utf8Mark.length = b.content.drop 3 := by
      rw [← same.content]
      rfl
    have keptLength : (b.content.drop 3).length + 3 = held.used := by
      rw [List.length_drop, lengthContent wf, ← same.used]
      exact Nat.sub_add_cancel long
    simp only [sliceInside long inside, kept, bind, Except.bind]
    have first : 0 + (b.content.drop 3).length ≤ held.capacity := by omega
    have moved := patchedCapacity first
    have second : (b.content.drop 3).length + [(0 : UInt8)].length ≤
        (held.patched 0 (b.content.drop 3)).capacity := by
      rw [moved]
      simp only [List.length_cons, List.length_nil]
      omega
    have ended := patchedCapacity second
    simp only [writeInside owned first, writeInside (b := held.patched 0 _) owned second]
    refine ⟨marked.symm, setUsedWellFormed ?_ ?_, ?_, congrArg (min · _) same.cursor,
      same.formatted⟩
    · rw [ended, moved]
      omega
    · rw [ended, moved]
      exact same.wellFormed.capacity_lt
    · simp only [content, setUsed, patched, List.take_zero, List.nil_append, List.append_assoc]
      rw [List.take_append_of_le_length (by simp), List.take_take, Nat.min_self]
      exact List.take_left' rfl
  · simp only [if_neg marked]
    exact ⟨(Bool.eq_false_iff.mpr marked).symm, (SameContent.refl wf).rewritten wf⟩

theorem stripUtf8MarkBounded (wf : b.WellFormed) :
    Bounded (fun answer => answer.1 = hasUtf8Mark b.content ∧
        Rewritten b (if hasUtf8Mark b.content then b.content.drop 3 else b.content) answer.2)
      b.stripUtf8Mark :=
  (stripUtf8MarkAsking wf).bounded

def reordered (b : Blob) (reversed : Bool) : Except Abort Blob :=
  if reversed then b.editable >>= (·.write 0 (Utf16.swapBytes b.content)) else .ok b

theorem reorderedAsking (wf : b.WellFormed) (reversed : Bool) :
    Asking (b.used + 1) (Rewritten b (if reversed then Utf16.swapBytes b.content else b.content))
      (b.reordered reversed) := by
  cases reversed with
  | false => exact (SameContent.refl wf).rewritten wf
  | true =>
    refine askingBind (editableAsking wf) fun e ⟨same, owned⟩ => ?_
    have whole : 0 + (Utf16.swapBytes b.content).length = e.used := by
      rw [Nat.zero_add, Utf16.lengthSwapBytes, lengthContent wf, same.used]
    have rewritten := (patchedRewritten same.wellFormed (Nat.le_of_eq whole)).through same
    rw [writeInside owned (whole ▸ same.wellFormed.used_le)]
    rwa [List.take_zero, List.nil_append, whole, ← lengthContent same.wellFormed, List.drop_length,
      List.append_nil] at rewritten

theorem reorderedBounded (wf : b.WellFormed) (reversed : Bool) :
    Bounded (Rewritten b (if reversed then Utf16.swapBytes b.content else b.content))
      (b.reordered reversed) :=
  (reorderedAsking wf reversed).bounded

def decodeMarked (b : Blob) (assumeCodePage : Bool) : Except Abort Blob :=
  match Utf16.markReversed? b.content with
  | some reversed => b.reordered reversed >>= fun ordered =>
      ofBytes (Utf16.toUtf8 (ordered.content.drop 2))
  | none => if assumeCodePage && !Utf8.isValid b.content then b.transcodeCodePage else .ok b

theorem normalizeEq (b : Blob) (assumeCodePage : Bool) : b.normalize assumeCodePage =
    b.stripUtf8Mark >>= fun answer =>
      if answer.1 then .ok answer.2 else answer.2.decodeMarked assumeCodePage := by
  unfold normalize
  congr 1
  funext (stripped, held)
  cases stripped with
  | true => rfl
  | false =>
    simp only [Bool.false_eq_true, if_false, decodeMarked, reordered]
    cases Utf16.markReversed? held.content with
    | none => rfl
    | some reversed =>
      cases reversed with
      | false => rfl
      | true => simp only [if_true, bind_assoc]

theorem decodeMarkedSound (wf : b.WellFormed) (assumeCodePage : Bool) :
    Sound (fun e => e.WellFormed ∧
        e.formatted = ((Utf16.markReversed? b.content).isNone && b.formatted))
      (b.decodeMarked assumeCodePage) := by
  unfold decodeMarked
  split
  · rename_i reversed units
    rw [units]
    exact soundBind (reorderedBounded wf _).sound fun ordered _ =>
      soundMono (ofBytesSound _) fun _ made => ⟨made.wellFormed, made.formatted⟩
  · rename_i plain
    rw [plain]
    split
    · exact soundMono (transcodeCodePageBounded wf).sound fun _ made =>
        ⟨made.wellFormed, made.formatted⟩
    · exact ⟨wf, rfl⟩

theorem normalizeSound (wf : b.WellFormed) (assumeCodePage : Bool) :
    Sound (fun e => e.WellFormed ∧ e.formatted =
        ((hasUtf8Mark b.content || (Utf16.markReversed? b.content).isNone) && b.formatted))
      (b.normalize assumeCodePage) := by
  rw [normalizeEq]
  refine soundBind (stripUtf8MarkBounded wf).sound fun answer ⟨stripped, rewritten⟩ => ?_
  rw [stripped]
  by_cases marked : hasUtf8Mark b.content
  · rw [if_pos marked, marked]
    exact ⟨rewritten.wellFormed, rewritten.formatted⟩
  · have same := rewritten.content
    rw [if_neg marked] at same ⊢
    rw [Bool.eq_false_iff.mpr marked, ← same, ← rewritten.formatted]
    exact decodeMarkedSound rewritten.wellFormed assumeCodePage

end ArtifactVault.Blob
