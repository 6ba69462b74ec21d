import ArtifactVault.Proofs.Blob.Operations

/-! What lies in an owned store behind the live bytes. Getting shorter clears nothing there, but no
operation writes there either, a terminator apart: where the store was all zeros from an index on, it
stays so as long as the blob is no longer than that. -/
namespace ArtifactVault.Blob
variable {b e : Blob} {m : Nat}

def ZeroFrom (m : Nat) (bytes : Bytes) : Prop := ∀ byte ∈ bytes.drop m, byte = 0

theorem ZeroFrom.later {n : Nat} {bytes : Bytes} (zero : ZeroFrom m bytes) (later : m ≤ n) :
    ZeroFrom n bytes :=
  fun byte mem => zero byte (List.drop_subset_drop_left bytes later mem)

theorem zeroFromAppend {xs ys : Bytes} :
    ZeroFrom m (xs ++ ys) ↔ ZeroFrom m xs ∧ ZeroFrom (m - xs.length) ys := by
  simp only [ZeroFrom, List.drop_append, List.forall_mem_append]

theorem zeroFromEnd {bytes : Bytes} (short : bytes.length ≤ m) : ZeroFrom m bytes := by
  rw [ZeroFrom, List.drop_eq_nil_of_le short]
  exact nofun

theorem zeroFromReplicate (m n : Nat) : ZeroFrom m (List.replicate n 0) :=
  fun _ mem => List.eq_of_mem_replicate (List.mem_of_mem_drop mem)

theorem ZeroFrom.take {bytes : Bytes} (zero : ZeroFrom m bytes) (n : Nat) :
    ZeroFrom m (bytes.take n) := by
  rw [ZeroFrom, List.drop_take]
  exact fun byte mem => zero byte (List.mem_of_mem_take mem)

/-- A store that is owned holds zeros from an index on. One that is borrowed is copied before any
other byte of it could be shown. -/
def CleanFrom (b : Blob) (m : Nat) : Prop := b.ownership = .owned → ZeroFrom m b.store

theorem cleanBorrowed (borrowed : b.ownership = .borrowed) (m : Nat) : b.CleanFrom m := by
  intro owned
  cases owned.symm.trans borrowed

theorem CleanFrom.later {n : Nat} (clean : b.CleanFrom m) (later : m ≤ n) : b.CleanFrom n :=
  fun owned => (clean owned).later later

theorem writtenInside {start : Nat} {bytes : Bytes} (wrote : b.write start bytes = .ok e) :
    b.ownership = .owned ∧ start + bytes.length ≤ b.capacity ∧ e = b.patched start bytes := by
  rcases ownedOrBorrowed b with owned | borrowed
  · by_cases room : start + bytes.length ≤ b.capacity
    · rw [writeInside owned room] at wrote
      cases wrote
      exact ⟨owned, room, rfl⟩
    · have refused : overwrite b.store start bytes = .error .outOfRange := if_neg room
      simp only [write, owned, refused] at wrote
      cases wrote
  · simp only [write, borrowed] at wrote
    cases wrote

theorem writeClean {start : Nat} {bytes : Bytes} (wrote : b.write start bytes = .ok e)
    (clean : b.CleanFrom m) (zero : ZeroFrom (m - start) bytes) : e.CleanFrom m := by
  obtain ⟨owned, room, rfl⟩ := writtenInside wrote
  have rest := clean owned
  have front : (b.store.take start).length = start := by
    rw [List.length_take]
    exact Nat.min_eq_left (Nat.le_trans (Nat.le_add_right _ _) room)
  intro _
  simp only [patched]
  rw [zeroFromAppend, zeroFromAppend, front, List.length_append, front]
  refine ⟨⟨rest.take start, zero⟩, fun byte mem => ?_⟩
  rw [List.drop_drop] at mem
  exact rest byte (List.drop_subset_drop_left _ (by omega) mem)

theorem terminateClean (done : b.terminate = .ok e) (clean : b.CleanFrom m) : e.CleanFrom m :=
  writeClean done clean (zeroFromReplicate _ 1)

theorem resizedStoreZero (short : b.used ≤ m) (clean : b.CleanFrom m) (size : Nat) :
    ZeroFrom m (b.resizedStore size) := by
  rcases ownedOrBorrowed b with owned | borrowed
  · rw [resizedStoreOwned owned]
    split
    · exact zeroFromAppend.mpr ⟨clean owned, zeroFromReplicate _ _⟩
    · split
      · exact (clean owned).take size
      · exact clean owned
  · rw [resizedStoreBorrowed borrowed]
    refine zeroFromAppend.mpr ⟨zeroFromEnd ?_, zeroFromReplicate _ _⟩
    simp only [content, List.length_take]
    omega

theorem reallocateClean (short : b.used ≤ m) (clean : b.CleanFrom m) (size : Nat) :
    (b.reallocate size).CleanFrom m := by
  rcases Nat.eq_zero_or_pos size with none | positive
  · subst none
    exact cleanBorrowed rfl m
  · intro _
    rw [reallocateStore positive]
    exact resizedStoreZero short clean size

theorem growForAppendClean {extra : Nat} (grew : b.growForAppend extra = .ok e) (short : b.used ≤ m)
    (clean : b.CleanFrom m) : e.CleanFrom m := by
  rw [growForAppendEq] at grew
  split at grew
  · cases grew
  · split at grew
    · obtain ⟨_, -, grown⟩ := okBind grew
      cases grown
      exact reallocateClean short clean _
    · cases grew
      exact clean

theorem extendClean {bytes : Bytes} (extended : b.extend bytes = .ok e) (short : e.used ≤ m)
    (clean : b.CleanFrom m) : e.CleanFrom m := by
  obtain ⟨written, wrote, same⟩ := okBind extended
  cases same
  have behind : b.used + bytes.length ≤ m := short
  have zero : ZeroFrom (m - b.used) (bytes ++ [0]) :=
    zeroFromAppend.mpr ⟨zeroFromEnd (by omega), zeroFromReplicate _ 1⟩
  have kept : written.CleanFrom m := writeClean wrote clean zero
  exact kept

theorem resizeClean {n : Nat} (resized : b.resize n = .ok e) (short : b.used ≤ m)
    (clean : b.CleanFrom m) : e.CleanFrom m := by
  obtain ⟨_, -, ended⟩ := okBind resized
  have sized : ((b.reallocate (n + 1)).setUsed n).CleanFrom m := reallocateClean short clean _
  exact terminateClean ended sized

theorem resizeUsed {n : Nat} (resized : b.resize n = .ok e) : e.used = n := by
  obtain ⟨_, -, ended⟩ := okBind resized
  obtain ⟨-, -, rfl⟩ := writtenInside ended
  rfl

def KeepsTail (b e : Blob) : Prop :=
  ∀ m, b.used ≤ m → e.used ≤ m → b.CleanFrom m → e.CleanFrom m

theorem KeepsTail.refl (b : Blob) : KeepsTail b b := fun _ _ _ clean => clean

theorem moveToTail (b : Blob) (n : Nat) : KeepsTail b (b.moveTo n) := fun _ _ _ clean => clean

def Tended (e : Blob) : Option Blob → Prop
  | some b => KeepsTail b e
  | none => e.CleanFrom e.used

theorem growTail {extra : Nat} {rest : Blob → Except Abort Blob}
    (done : b.growForAppend extra >>= rest = .ok e)
    (writes : ∀ g, rest g = .ok e → ∃ bytes, g.extend bytes = .ok e) : KeepsTail b e := by
  intro m before behind clean
  obtain ⟨grown, grew, done⟩ := okBind done
  obtain ⟨bytes, extended⟩ := writes grown done
  exact extendClean extended behind (growForAppendClean grew before clean)

theorem appendTail {bytes : Bytes} (done : b.append bytes = .ok e) : KeepsTail b e :=
  growTail done fun _ extended => ⟨bytes, extended⟩

theorem appendByteTail {byte : UInt8} (done : b.appendByte byte = .ok e) : KeepsTail b e := by
  unfold appendByte at done
  split at done
  · exact fun m _ behind clean => extendClean done behind clean
  · exact appendTail done

theorem appendRepeatTail {byte : UInt8} {count : Nat} (done : b.appendRepeat byte count = .ok e) :
    KeepsTail b e :=
  growTail done fun _ extended => ⟨_, extended⟩

theorem appendFromSelfTail {start stop : Nat} (done : b.appendFromSelf start stop = .ok e) :
    KeepsTail b e := by
  by_cases outside : stop < start ∨ b.used < stop
  · rw [appendFromSelf, if_pos outside] at done
    cases done
  · rw [appendFromSelfEq (by omega) (by omega)] at done
    refine growTail done fun grown rest => ?_
    obtain ⟨bytes, -, extended⟩ := okBind rest
    exact ⟨bytes, extended⟩

structure Lengthened (b e : Blob) : Prop where
  wellFormed : e.WellFormed
  longer : b.used ≤ e.used
  tail : KeepsTail b e

theorem Lengthened.trans {f : Blob} (first : Lengthened b e) (second : Lengthened e f) :
    Lengthened b f := by
  refine ⟨second.wellFormed, Nat.le_trans first.longer second.longer, ?_⟩
  intro m before behind clean
  have between : e.used ≤ m := Nat.le_trans second.longer behind
  exact second.tail m between behind (first.tail m before between clean)

theorem Lengthened.fresh (lengthened : Lengthened b e) (borrowed : b.ownership = .borrowed) :
    e.CleanFrom e.used :=
  lengthened.tail e.used lengthened.longer (Nat.le_refl _) (cleanBorrowed borrowed _)

def Lengthens (act : Blob → Except Abort Blob) : Prop :=
  ∀ b e, b.WellFormed → act b = .ok e → Lengthened b e

theorem Lengthens.marked {act : Blob → Except Abort Blob} (lengthens : Lengthens act) :
    Lengthens (fun b => act b.mark) := by
  intro b e wf done
  have lengthened := lengthens b.mark e (markWellFormed wf) done
  exact ⟨lengthened.wellFormed, lengthened.longer, lengthened.tail⟩

theorem extendingLengthens {act : Blob → Except Abort Blob} {bytes : Bytes}
    (appends : ∀ b, b.WellFormed → Appending b bytes (act b))
    (tail : ∀ b e, act b = .ok e → KeepsTail b e) : Lengthens act := by
  intro b e wf done
  have extended := (appends b wf).sound
  rw [done] at extended
  have used := Extended.used wf extended
  exact ⟨extended.wellFormed, by omega, tail b e done⟩

theorem Built.lengthens {act : Blob → Except Abort Blob} {bytes : Bytes} (built : Built act bytes) :
    Lengthens act := by
  induction built with
  | nothing =>
    rintro b e wf ⟨⟩
    exact ⟨wf, Nat.le_refl _, .refl b⟩
  | append bytes =>
    exact extendingLengthens (fun _ wf => appendAppending wf bytes) fun _ _ => appendTail
  | byte byte =>
    exact extendingLengthens (fun _ wf => appendByteAppending wf byte) fun _ _ => appendByteTail
  | andThen _ _ first second =>
    intro b e wf done
    obtain ⟨middle, began, ended⟩ := okBind done
    have half := first b middle wf began
    exact half.trans (second middle e half.wellFormed ended)

theorem reserveTail {minimum : Nat} (done : b.reserve minimum = .ok e) : KeepsTail b e := by
  intro m before _ clean
  obtain ⟨_, -, done⟩ := okBind done
  split at done
  · have grown : (b.reallocate minimum).CleanFrom m := reallocateClean before clean minimum
    dsimp only at done
    split at done
    · exact terminateClean done grown
    · cases done
      exact grown
  · cases done
    exact clean

theorem resizeTail {n : Nat} (resized : b.resize n = .ok e) : KeepsTail b e :=
  fun _ before _ => resizeClean resized before

theorem terminatedTail {answer : Bytes × Blob} (done : b.terminated = .ok answer) :
    KeepsTail b answer.2 := by
  intro m before _ clean
  have given {held : Blob} (kept : held.CleanFrom m) (done : slice held.store 0 (held.used + 1) >>=
      (fun bytes => .ok (bytes, held)) = .ok answer) : answer.2.CleanFrom m := by
    obtain ⟨bytes, -, done⟩ := okBind done
    cases done
    exact kept
  unfold terminated at done
  split at done
  · cases done
    exact clean
  · dsimp only at done
    split at done
    · obtain ⟨held, made, done⟩ := okBind done
      exact given (terminateClean made clean) done
    · obtain ⟨held, made, done⟩ := okBind done
      exact given (resizeClean made before clean) done

theorem editableClean (done : b.editable = .ok e) (short : b.used ≤ m) (clean : b.CleanFrom m) :
    e.CleanFrom m ∧ e.used = b.used := by
  unfold editable at done
  split at done
  · exact ⟨resizeClean done short clean, resizeUsed done⟩
  · cases done
    exact ⟨clean, rfl⟩

theorem setByteTail {index : Nat} {byte : UInt8} {answer : Bool × Blob}
    (done : b.setByte index byte = .ok answer) : KeepsTail b answer.2 := by
  intro m before _ clean
  obtain ⟨held, made, done⟩ := okBind done
  obtain ⟨kept, same⟩ := editableClean made before clean
  split at done
  · obtain ⟨written, wrote, done⟩ := okBind done
    cases done
    exact writeClean wrote kept (zeroFromEnd (by simp only [List.length_singleton]; omega))
  · cases done
    exact kept

theorem makeWritableClean (done : b.makeWritable = .ok e) (short : b.used ≤ m)
    (clean : b.CleanFrom m) : e.CleanFrom m ∧ e.used = b.used := by
  unfold makeWritable at done
  split at done
  · exact ⟨resizeClean done short clean, resizeUsed done⟩
  · cases done
    exact ⟨clean, rfl⟩

theorem growInPlaceClean {n : Nat} (done : b.growInPlace n = .ok e) (short : b.used ≤ m)
    (clean : b.CleanFrom m) : e.CleanFrom m ∧ e.used = n := by
  have ended {grown : Blob} (kept : grown.CleanFrom m) (used : grown.used = n)
      (wrote : grown.write n [0] = .ok e) : e.CleanFrom m ∧ e.used = n := by
    refine ⟨writeClean wrote kept (zeroFromReplicate _ 1), ?_⟩
    obtain ⟨-, -, rfl⟩ := writtenInside wrote
    exact used
  unfold growInPlace at done
  dsimp only at done
  split at done
  · obtain ⟨grown, grew, wrote⟩ := okBind done
    exact ended (resizeClean grew short clean) (resizeUsed grew) wrote
  · have kept : (b.setUsed n).CleanFrom m := clean
    exact ended kept rfl done

theorem writeAtZero {store written : Array UInt8} {index : Nat} {bytes : Bytes}
    (wrote : writeAt store index bytes = .ok written) (zero : ZeroFrom m store.toList)
    (rest : ZeroFrom (m - index) bytes) : ZeroFrom m written.toList := by
  induction bytes generalizing store index with
  | nil =>
    cases wrote
    exact zero
  | cons byte bytes ih =>
    rw [writeAt] at wrote
    split at wrote
    · by_cases before : index < m
      · -- The index is in front of the zeros, so the byte does not count.
        have shift : m - index = m - (index + 1) + 1 := by omega
        refine ih wrote ?_ (by rw [shift] at rest; exact rest)
        rw [ZeroFrom, Array.toList_setIfInBounds, List.drop_set_of_lt before]
        exact zero
      · have none : m - index = 0 := by omega
        have further : m - (index + 1) = 0 := by omega
        rw [none] at rest
        refine ih wrote (fun other mem => ?_) ?_
        · rw [Array.toList_setIfInBounds, List.drop_set, if_neg before] at mem
          rcases List.mem_or_eq_of_mem_set mem with old | same
          · exact zero other old
          · rw [same]
            exact rest byte List.mem_cons_self
        · rw [further]
          exact fun other mem => rest other (List.mem_cons_of_mem byte mem)
    · cases wrote

theorem expandFromZero {expand : UInt8 → Bytes} {store left : Array UInt8} {unread index : Nat}
    (done : expandFrom expand store unread index = .ok left) (short : index ≤ m)
    (zero : ZeroFrom m store.toList) : ZeroFrom m left.toList := by
  induction unread generalizing store index with
  | zero =>
    rw [expandFrom] at done
    split at done
    · cases done
    · cases done
      exact zero
  | succ unread ih =>
    rw [expandFrom] at done
    split at done
    · cases done
      exact zero
    · obtain ⟨byte, -, done⟩ := okBind done
      obtain ⟨place, back, done⟩ := okBind done
      obtain ⟨written, wrote, done⟩ := okBind done
      -- The expansion ends where it was to be put in front of.
      have ends : place + (expand byte).length = index := by
        unfold stepBack at back
        split at back
        · cases back
          omega
        · cases back
      exact ih done (by omega) (writeAtZero wrote zero (zeroFromEnd (by omega)))

theorem expandInPlaceTail {growth : Nat} {expand : UInt8 → Bytes}
    (done : b.expandInPlace growth expand = .ok e) : KeepsTail b e := by
  intro m before behind clean
  obtain ⟨grown, grew, done⟩ := okBind done
  obtain ⟨kept, used⟩ := growInPlaceClean grew before clean
  obtain ⟨store, held, done⟩ := okBind done
  obtain ⟨left, rewrote, same⟩ := okBind done
  cases same
  have within : b.used + growth ≤ m := used ▸ behind
  intro strategy
  have owned : grown.ownership = .owned := strategy
  rw [ownedStoreOk owned] at held
  cases held
  exact expandFromZero rewrote within (kept owned)

theorem addCarriageReturnsTail (done : b.addCarriageReturns = .ok e) : KeepsTail b e := by
  simp only [addCarriageReturns] at done
  split at done
  · cases done
    exact .refl b
  · exact expandInPlaceTail done

theorem transcodeCodePageTail (done : b.transcodeCodePage = .ok e) : KeepsTail b e := by
  simp only [transcodeCodePage] at done
  split at done
  · cases done
    exact .refl b
  · exact expandInPlaceTail done

theorem gatherFromZero {length left : Nat} {store : Array UInt8} {index : Nat}
    {gathered : Array UInt8 × Nat} (done : gatherFrom length store index left = .ok gathered)
    (inside : index + left ≤ length) (short : length ≤ m) (zero : ZeroFrom m store.toList) :
    ZeroFrom m gathered.1.toList := by
  induction left generalizing store index with
  | zero =>
    cases done
    exact zero
  | succ left ih =>
    have moved {kept : UInt8} (done : writeAt store index [kept] >>= (fun store =>
        gatherFrom length store (index + 1) left) = .ok gathered) : ZeroFrom m gathered.1.toList := by
      obtain ⟨written, wrote, done⟩ := okBind done
      refine ih done (by omega) (writeAtZero wrote zero (zeroFromEnd ?_))
      simp only [List.length_singleton]
      omega
    obtain ⟨byte, -, done⟩ := okBind done
    split at done
    · exact moved done
    · obtain ⟨alone, -, done⟩ := okBind done
      split at done
      · exact moved done
      · exact ih done (by omega) zero

theorem newlinesOnlyTail (done : b.newlinesOnly = .ok e) : KeepsTail b e := by
  intro m before _ clean
  unfold newlinesOnly at done
  split at done
  · obtain ⟨held, made, done⟩ := okBind done
    obtain ⟨kept, used⟩ := makeWritableClean made before clean
    obtain ⟨store, whole, done⟩ := okBind done
    obtain ⟨gathered, moved, done⟩ := okBind done
    obtain ⟨ended, wrote, same⟩ := okBind done
    cases same
    intro strategy
    have owned : held.ownership = .owned := strategy
    rw [ownedStoreOk owned] at whole
    cases whole
    have zero := gatherFromZero moved (Nat.le_of_eq (Nat.zero_add _)) (used ▸ before) (kept owned)
    exact writeAtZero wrote zero (zeroFromReplicate _ 1)
  · cases done
    exact clean

theorem stripUtf8MarkTail {answer : Bool × Blob} (done : b.stripUtf8Mark = .ok answer) :
    KeepsTail b answer.2 ∧ answer.1 = hasUtf8Mark b.content ∧ (answer.1 = false → answer.2 = b) := by
  unfold stripUtf8Mark at done
  split at done
  · rename_i marked
    obtain ⟨held, made, done⟩ := okBind done
    obtain ⟨bytes, cut, done⟩ := okBind done
    obtain ⟨moved, front, done⟩ := okBind done
    obtain ⟨ended, wrote, same⟩ := okBind done
    cases same
    refine ⟨fun m before _ clean => ?_, marked.symm, nofun⟩
    obtain ⟨kept, used⟩ := makeWritableClean made before clean
    have short : bytes.length ≤ m - 0 := by
      unfold slice at cut
      split at cut
      · cases cut
        simp only [List.length_drop, List.length_take]
        omega
      · cases cut
    have written : ended.CleanFrom m :=
      writeClean wrote (writeClean front kept (zeroFromEnd short)) (zeroFromReplicate _ 1)
    exact written
  · rename_i unmarked
    cases done
    exact ⟨.refl b, (Bool.eq_false_iff.mpr unmarked).symm, fun _ => rfl⟩

theorem ofBytesClean {bytes : Bytes} (done : ofBytes bytes = .ok e) : e.CleanFrom e.used := by
  rw [ofBytesEq] at done
  split at done
  · cases done
  · cases done
    cases bytes with
    | nil => exact cleanBorrowed rfl _
    | cons byte bytes => exact fun _ => zeroFromEnd (Nat.le_refl _)

theorem normalizeTended {assumeCodePage : Bool} (done : b.normalize assumeCodePage = .ok e) :
    Tended e (if (TextEdit.normalize assumeCodePage).renews b then none else some b) := by
  rw [normalizeEq] at done
  obtain ⟨answer, stripped, done⟩ := okBind done
  obtain ⟨kept, marked, unmarked⟩ := stripUtf8MarkTail stripped
  simp only [TextEdit.renews, ← marked]
  split at done
  · rename_i found
    cases done
    rw [found]
    exact kept
  · rename_i found
    have none : answer.1 = false := Bool.eq_false_iff.mpr found
    rw [unmarked none, decodeMarked] at done
    rw [none]
    split at done
    · rename_i reversed units
      obtain ⟨ordered, -, done⟩ := okBind done
      rw [units]
      exact ofBytesClean done
    · rename_i plain
      rw [plain]
      split at done
      · exact transcodeCodePageTail done
      · cases done
        exact .refl b

end ArtifactVault.Blob
