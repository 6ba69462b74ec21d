import ArtifactVault.Proofs.Blob.Storage

/-! What each change of length does to a well-formed blob: the outcome is sound, and where there is
one the new blob is described by its content, cursor and mark. An append also leaves an owned store
with a zero byte behind the content. -/
namespace ArtifactVault.Blob
variable {b : Blob}

structure Grown (b : Blob) (needed : Nat) (g : Blob) : Prop where
  wellFormed : g.WellFormed
  owned : g.ownership = .owned
  room : needed < g.capacity
  used : g.used = b.used
  content : g.content = b.content
  cursor : g.cursor = b.cursor
  formatted : g.formatted = b.formatted

theorem reallocatedGrown {needed size : Nat} (wf : b.WellFormed) (fits : b.used ≤ needed)
    (larger : needed < size) (below : size < sizeCeiling) : Grown b needed (b.reallocate size) := by
  have shape := reallocateShape wf (Nat.lt_of_le_of_lt (Nat.zero_le _) larger) below
  obtain ⟨used, content, cursor⟩ := shape.keepsContent wf (by omega)
  exact ⟨shape.wellFormed, shape.owned, Nat.lt_of_lt_of_le larger shape.atLeast, used, content,
    cursor, shape.formatted⟩

theorem ceilingBelowWord : sizeCeiling < wordLimit := by decide

theorem saturateBelow {n : Nat} (below : saturate n < sizeCeiling) : saturate n = n := by
  have word := ceilingBelowWord
  unfold saturate at *
  omega

theorem growForAppendEq (extra : Nat) : b.growForAppend extra =
    if wordLimit ≤ b.used + extra then .error .lengthOverflow
    else if b.capacity ≤ b.used + extra ∨ b.ownership = .borrowed then do
      checkCeiling (saturate (b.used + extra + b.capacity + appendPad)) .append
      return b.reallocate (saturate (b.used + extra + b.capacity + appendPad))
    else .ok b := rfl

theorem growForAppendBounded {extra : Nat} (wf : b.WellFormed)
    (fits : b.used + extra < wordLimit) :
    Bounded (Grown b (b.used + extra)) (b.growForAppend extra) := by
  rw [growForAppendEq, if_neg (Nat.not_le_of_lt fits)]
  split
  · refine boundedBind (boundedCeiling _ .append) fun _ below => ?_
    have target := saturateBelow below
    rw [target] at below ⊢
    exact reallocatedGrown wf (Nat.le_add_right _ _) (by unfold appendPad; omega) below
  · rename_i room
    obtain ⟨room, owned⟩ := not_or.mp room
    have owned : b.ownership = .owned := by cases h : b.ownership <;> simp_all
    exact ⟨wf, owned, Nat.lt_of_not_le room, rfl, rfl, rfl, rfl⟩

structure Extended (b : Blob) (bytes : Bytes) (e : Blob) : Prop where
  wellFormed : e.WellFormed
  owned : e.ownership = .owned
  content : e.content = b.content ++ bytes
  cursor : e.cursor = b.cursor
  formatted : e.formatted = b.formatted
  terminated : e.store[e.used]? = some 0

theorem Extended.used {bytes : Bytes} {e : Blob} (wf : b.WellFormed) (extended : Extended b bytes e) :
    e.used = b.used + bytes.length := by
  rw [← lengthContent extended.wellFormed, extended.content, List.length_append, lengthContent wf]

theorem extendInside {g : Blob} (bytes : Bytes) (wf : g.WellFormed) (owned : g.ownership = .owned)
    (room : g.used + bytes.length < g.capacity) :
    ∃ e, g.extend bytes = .ok e ∧ Extended g bytes e ∧ e.capacity = g.capacity := by
  have inside : g.used + (bytes ++ [0]).length ≤ g.capacity := by
    simp only [List.length_append, List.length_cons, List.length_nil]
    omega
  have front : (g.store.take g.used).length = g.used := lengthContent wf
  have same := patchedCapacity inside
  refine ⟨{ g.patched g.used (bytes ++ [0]) with used := g.used + bytes.length }, ?_, ?_, same⟩
  · simp only [extend, writeInside owned inside]
    rfl
  · refine ⟨⟨?_, ?_, ?_⟩, owned, ?_, rfl, rfl, ?_⟩
    · exact Nat.le_trans (Nat.le_of_lt room) (Nat.le_of_eq same.symm)
    · exact Nat.le_trans wf.cursor_le (Nat.le_add_right _ _)
    · exact same ▸ wf.capacity_lt
    · simp only [content, patched]
      rw [List.append_assoc, List.append_assoc, ← List.append_assoc]
      exact List.take_left' (by rw [List.length_append, front])
    · simp only [patched]
      rw [List.append_assoc, List.getElem?_append_right (by rw [front]; omega), front,
        List.append_assoc, List.getElem?_append_right (by omega)]
      simp

theorem extendGrown {g : Blob} {bytes : Bytes} (grown : Grown b (b.used + bytes.length) g) :
    ∃ e, g.extend bytes = .ok e ∧ Extended b bytes e := by
  have room : g.used + bytes.length < g.capacity := grown.used ▸ grown.room
  obtain ⟨e, extended, facts, -⟩ := extendInside bytes grown.wellFormed grown.owned room
  exact ⟨e, extended, facts.wellFormed, facts.owned, grown.content ▸ facts.content,
    grown.cursor ▸ facts.cursor, grown.formatted ▸ facts.formatted, facts.terminated⟩

def Appending (b : Blob) (bytes : Bytes) (outcome : Except Abort Blob) : Prop :=
  if wordLimit ≤ b.used + bytes.length then outcome = .error .lengthOverflow
  else Bounded (Extended b bytes) outcome

theorem Appending.sound {bytes : Bytes} {outcome : Except Abort Blob}
    (appending : Appending b bytes outcome) : Sound (Extended b bytes) outcome := by
  unfold Appending at appending
  split at appending
  · subst appending
    exact .lengthOverflow
  · exact appending.sound

theorem appendAppending (wf : b.WellFormed) (bytes : Bytes) :
    Appending b bytes (b.append bytes) := by
  unfold Appending append
  by_cases exceeds : wordLimit ≤ b.used + bytes.length
  · rw [if_pos exceeds, growForAppendEq, if_pos exceeds]
    rfl
  · rw [if_neg exceeds]
    exact boundedBind (growForAppendBounded wf (Nat.lt_of_not_le exceeds)) fun g grown =>
      boundedOk (extendGrown grown)

theorem growForAppendStays {extra : Nat} (wf : b.WellFormed) (owned : b.ownership = .owned)
    (room : b.used + extra < b.capacity) : b.growForAppend extra = .ok b := by
  have word := ceilingBelowWord
  have below := wf.capacity_lt
  have stays : ¬ (b.capacity ≤ b.used + extra ∨ b.ownership = .borrowed) := by
    rintro (full | borrowed)
    · omega
    · cases owned.symm.trans borrowed
  rw [growForAppendEq, if_neg (by omega), if_neg stays]

theorem appendByteAlike (wf : b.WellFormed) (byte : UInt8) :
    b.appendByte byte = b.append [byte] := by
  unfold appendByte
  split
  · rename_i room
    have stays : b.growForAppend [byte].length = .ok b := growForAppendStays wf room.1 room.2
    rw [append, stays]
    rfl
  · rfl

theorem appendRepeatAlike (b : Blob) (byte : UInt8) (count : Nat) :
    b.appendRepeat byte count = b.append (List.replicate count byte) := by
  rw [append, List.length_replicate]
  rfl

theorem appendByteAppending (wf : b.WellFormed) (byte : UInt8) :
    Appending b [byte] (b.appendByte byte) := by
  rw [appendByteAlike wf]
  exact appendAppending wf [byte]

theorem appendRepeatAppending (wf : b.WellFormed) (byte : UInt8) (count : Nat) :
    Appending b (List.replicate count byte) (b.appendRepeat byte count) := by
  rw [appendRepeatAlike]
  exact appendAppending wf _

theorem sliceInside {store : Bytes} {start stop : Nat} (ordered : start ≤ stop)
    (inside : stop ≤ store.length) : slice store start stop = .ok ((store.take stop).drop start) :=
  if_pos ⟨ordered, inside⟩

theorem appendFromSelfEq {start stop : Nat} (ordered : start ≤ stop) (inside : stop ≤ b.used) :
    b.appendFromSelf start stop = b.growForAppend (stop - start) >>= fun grown =>
      slice grown.store start stop >>= grown.extend := by
  rw [appendFromSelf, if_neg (by omega)]

theorem lengthSlice {start stop : Nat} (wf : b.WellFormed) (inside : stop ≤ b.used) :
    ((b.content.take stop).drop start).length = stop - start := by
  rw [List.length_drop, List.length_take, lengthContent wf]
  omega

theorem sliceGrown {start stop : Nat} {g : Blob} (ordered : start ≤ stop) (inside : stop ≤ b.used)
    (grown : Grown b (b.used + (stop - start)) g) :
    slice g.store start stop = .ok ((b.content.take stop).drop start) := by
  have live : g.store.take stop = b.content.take stop := by
    rw [← grown.content, content, List.take_take, grown.used, Nat.min_eq_left (by omega)]
  have within : stop ≤ g.store.length :=
    Nat.le_trans inside (grown.used ▸ grown.wellFormed.used_le)
  rw [sliceInside ordered within, live]

theorem grownOf {extra : Nat} {g : Blob} (wf : b.WellFormed) (grew : b.growForAppend extra = .ok g) :
    Grown b (b.used + extra) g := by
  by_cases exceeds : wordLimit ≤ b.used + extra
  · rw [growForAppendEq, if_pos exceeds] at grew
    cases grew
  · have grown := growForAppendBounded wf (Nat.lt_of_not_le exceeds)
    rw [grew] at grown
    exact grown

theorem appendFromSelfAlike {start stop : Nat} (wf : b.WellFormed) (ordered : start ≤ stop)
    (inside : stop ≤ b.used) :
    b.appendFromSelf start stop = b.append ((b.content.take stop).drop start) := by
  rw [appendFromSelfEq ordered inside, append, lengthSlice wf inside]
  refine okBindCongr fun g grew => ?_
  rw [sliceGrown ordered inside (grownOf wf grew)]
  rfl

theorem appendFromSelfSound (wf : b.WellFormed) (start stop : Nat) :
    Sound (Extended b ((b.content.take stop).drop start)) (b.appendFromSelf start stop) := by
  by_cases outside : stop < start ∨ b.used < stop
  · rw [appendFromSelf, if_pos outside]
    exact .selfRange outside
  · rw [appendFromSelfAlike wf (by omega) (by omega)]
    exact (appendAppending wf _).sound

structure Resized (b : Blob) (n : Nat) (r : Blob) : Prop where
  wellFormed : r.WellFormed
  owned : r.ownership = .owned
  used : r.used = n
  room : n < r.capacity
  atMost : r.capacity ≤ n + 1 + shrinkSlack
  kept : r.content.take (min b.used n) = b.content.take n
  cursor : r.cursor = min b.cursor n
  formatted : r.formatted = b.formatted
  terminated : r.store[n]? = some 0

theorem resizeBelow {n : Nat} (wf : b.WellFormed) (below : n + 1 < sizeCeiling) :
    ∃ r, ((b.reallocate (n + 1)).setUsed n).terminate = .ok r ∧ Resized b n r := by
  have shape : Reallocated b (n + 1) (b.reallocate (n + 1)) :=
    reallocateShape wf (Nat.succ_pos n) below
  have inside := wf.cursor_le
  have room : n < (b.reallocate (n + 1)).capacity := shape.atLeast
  have fits : n + [(0 : UInt8)].length ≤ ((b.reallocate (n + 1)).setUsed n).capacity := room
  have sized : ((b.reallocate (n + 1)).setUsed n).WellFormed :=
    setUsedWellFormed (Nat.le_of_lt room) shape.below
  have same := patchedCapacity fits
  refine ⟨_, terminateOwned shape.owned room, patchedWellFormed sized fits, shape.owned, rfl, ?_, ?_,
    ?_, ?_, shape.formatted, ?_⟩
  · exact Nat.lt_of_lt_of_le room (Nat.le_of_eq same.symm)
  · exact Nat.le_trans (Nat.le_of_eq same) shape.atMost
  · rw [patchedBehindContent (Nat.le_refl _) fits]
    simp only [content, setUsed]
    rw [List.take_take, Nat.min_eq_left (Nat.min_le_right _ _)]
    exact shape.front wf (Nat.le_succ n)
  · have cursor := shape.cursor
    have used := shape.used
    simp only [patched, setUsed]
    omega
  · exact patchedAt 0 fits (Nat.zero_lt_succ _)

theorem resizeAsking (wf : b.WellFormed) (n : Nat) : Asking (n + 1) (Resized b n) (b.resize n) := by
  have asked : saturate (n + 1) ≤ n + 1 := Nat.min_le_left _ _
  refine askingBind (askingCeiling asked .resize) fun _ below => ?_
  rw [saturateBelow below] at below
  exact askingOk (resizeBelow wf below)

theorem resizeBounded (wf : b.WellFormed) (n : Nat) : Bounded (Resized b n) (b.resize n) :=
  (resizeAsking wf n).bounded

structure SameContent (b r : Blob) : Prop where
  wellFormed : r.WellFormed
  used : r.used = b.used
  content : r.content = b.content
  cursor : r.cursor = b.cursor
  formatted : r.formatted = b.formatted

theorem SameContent.refl (wf : b.WellFormed) : SameContent b b := ⟨wf, rfl, rfl, rfl, rfl⟩

theorem reserveMore {minimum : Nat} (wf : b.WellFormed) (grows : b.capacity < minimum)
    (below : minimum < sizeCeiling) : ∃ r, b.reserve minimum = .ok r ∧ SameContent b r ∧
      minimum ≤ r.capacity ∧ r.ownership = .owned := by
  have usedLe := wf.used_le
  have shape := reallocateShape wf (Nat.lt_of_le_of_lt (Nat.zero_le _) grows) below
  obtain ⟨used, content, cursor⟩ := shape.keepsContent wf (by omega)
  have room : (b.reallocate minimum).used < (b.reallocate minimum).capacity := by
    have atLeast := shape.atLeast
    omega
  have fits : (b.reallocate minimum).used + [(0 : UInt8)].length ≤
      (b.reallocate minimum).capacity := room
  have checked : checkCeiling minimum .reserve = .ok () := if_neg (Nat.not_le_of_lt below)
  refine ⟨_, ?_, ⟨patchedWellFormed shape.wellFormed fits, used, ?_, cursor, shape.formatted⟩, ?_,
    shape.owned⟩
  · simp only [reserve, checked, if_pos grows, if_pos room]
    exact terminateOwned shape.owned room
  · exact (patchedBehindContent (Nat.le_refl _) fits).trans content
  · exact Nat.le_trans shape.atLeast (Nat.le_of_eq (patchedCapacity fits).symm)

theorem reserveAsking (wf : b.WellFormed) (minimum : Nat) :
    Asking minimum (fun r => SameContent b r ∧ minimum ≤ r.capacity) (b.reserve minimum) := by
  by_cases below : minimum < sizeCeiling
  · by_cases grows : b.capacity < minimum
    · obtain ⟨r, done, same, room, -⟩ := reserveMore wf grows below
      exact askingOk ⟨r, done, same, room⟩
    · have checked : checkCeiling minimum .reserve = .ok () := if_neg (Nat.not_le_of_lt below)
      have stays : b.reserve minimum = .ok b := by
        simp only [reserve, checked, if_neg grows]
        rfl
      exact askingOk ⟨b, stays, .refl wf, Nat.le_of_not_lt grows⟩
  · have refused : b.reserve minimum = .error (.ceiling .reserve minimum) := by
      simp only [reserve, checkCeiling, if_pos (Nat.le_of_not_lt below)]
      rfl
    rw [refused]
    exact ⟨_, _, rfl, Nat.le_of_not_lt below, Nat.le_refl _⟩

theorem reserveBounded (wf : b.WellFormed) (minimum : Nat) :
    Bounded (fun r => SameContent b r ∧ minimum ≤ r.capacity) (b.reserve minimum) :=
  (reserveAsking wf minimum).bounded

theorem materializeAsking (wf : b.WellFormed) :
    Asking (b.used + 1) (fun r => SameContent b r ∧ Resized b b.used r) b.materialize := by
  refine askingMono (resizeAsking wf b.used) fun r resized => ⟨⟨resized.wellFormed, resized.used,
    ?_, ?_, resized.formatted⟩, resized⟩
  · have kept := resized.kept
    rw [Nat.min_self, ← resized.used, ← lengthContent resized.wellFormed, List.take_length,
      lengthContent resized.wellFormed, resized.used, ← lengthContent wf, List.take_length] at kept
    exact kept
  · rw [resized.cursor]
    exact Nat.min_eq_left wf.cursor_le

theorem materializeBounded (wf : b.WellFormed) :
    Bounded (fun r => SameContent b r ∧ Resized b b.used r) b.materialize :=
  (materializeAsking wf).bounded

theorem ownedOrBorrowed (b : Blob) : b.ownership = .owned ∨ b.ownership = .borrowed := by
  cases b.ownership with
  | owned => exact .inl rfl
  | borrowed => exact .inr rfl

theorem takeTerminated (ends : b.store[b.used]? = some 0) :
    b.store.take (b.used + 1) = b.content ++ [0] := by
  rw [List.take_add_one, ends]
  rfl

theorem sliceTerminated (ends : b.store[b.used]? = some 0) :
    slice b.store 0 (b.used + 1) = .ok (b.content ++ [0]) := by
  have inside : b.used + 1 ≤ b.store.length := (List.getElem?_eq_some_iff.mp ends).1
  rw [sliceInside (Nat.zero_le _) inside, List.drop_zero, takeTerminated ends]

theorem terminatedAsking (wf : b.WellFormed) : Asking (b.used + 1)
    (fun answer => answer.1 = b.content ++ [0] ∧ SameContent b answer.2) b.terminated := by
  have whole {held : Blob} (same : SameContent b held) (ends : held.store[held.used]? = some 0) :
      Asking (b.used + 1)
        (fun answer : Bytes × Blob => answer.1 = b.content ++ [0] ∧ SameContent b answer.2)
        (do return (← slice held.store 0 (held.used + 1), held)) := by
    rw [sliceTerminated ends]
    exact ⟨by rw [same.content], same⟩
  unfold terminated
  by_cases nothing : b.ownership = .borrowed ∧ b.used = 0
  · rw [if_pos nothing]
    have none : b.content = [] := List.length_eq_zero_iff.mp (by rw [lengthContent wf, nothing.2])
    exact ⟨by rw [none]; rfl, .refl wf⟩
  · rw [if_neg nothing]
    by_cases room : b.ownership = .owned ∧ b.used < b.capacity
    · rw [if_pos room, terminateOwned room.1 room.2]
      have fits : b.used + [(0 : UInt8)].length ≤ b.capacity := room.2
      refine whole ⟨patchedWellFormed wf fits, rfl, ?_, rfl, rfl⟩ ?_
      · exact patchedBehindContent (Nat.le_refl _) fits
      · exact patchedAt 0 fits (Nat.zero_lt_succ _)
    · rw [if_neg room]
      refine askingBind (materializeAsking wf) fun held made => whole made.1 ?_
      rw [made.1.used]
      exact made.2.terminated

theorem terminatedBounded (wf : b.WellFormed) :
    Bounded (fun answer => answer.1 = b.content ++ [0] ∧ SameContent b answer.2) b.terminated :=
  (terminatedAsking wf).bounded

theorem editableAsking (wf : b.WellFormed) :
    Asking (b.used + 1) (fun e => SameContent b e ∧ e.ownership = .owned) b.editable := by
  unfold editable
  split
  · exact askingMono (materializeAsking wf) fun _ made => ⟨made.1, made.2.owned⟩
  · exact ⟨.refl wf, by assumption⟩

structure Rewritten (b : Blob) (bytes : Bytes) (e : Blob) : Prop where
  wellFormed : e.WellFormed
  content : e.content = bytes
  cursor : e.cursor = min b.cursor bytes.length
  formatted : e.formatted = b.formatted

theorem SameContent.rewritten {e : Blob} (wf : b.WellFormed) (same : SameContent b e) :
    Rewritten b b.content e := by
  refine ⟨same.wellFormed, same.content, ?_, same.formatted⟩
  rw [same.cursor, lengthContent wf, Nat.min_eq_left wf.cursor_le]

theorem Rewritten.through {e f : Blob} {bytes : Bytes} (same : SameContent b e)
    (rewritten : Rewritten e bytes f) : Rewritten b bytes f :=
  ⟨rewritten.wellFormed, rewritten.content, same.cursor ▸ rewritten.cursor,
    rewritten.formatted.trans same.formatted⟩

theorem Resized.rewritten {n : Nat} {r : Blob} (wf : b.WellFormed) (resized : Resized b n r)
    (shorter : n ≤ b.used) : Rewritten b (b.content.take n) r := by
  have length := lengthContent resized.wellFormed
  have kept := resized.kept
  rw [Nat.min_eq_right shorter, ← resized.used, ← length, List.take_length, length,
    resized.used] at kept
  refine ⟨resized.wellFormed, kept, ?_, resized.formatted⟩
  rw [resized.cursor, List.length_take, lengthContent wf, Nat.min_eq_left shorter]

theorem patchedRewritten {start : Nat} {bytes : Bytes} (wf : b.WellFormed)
    (inside : start + bytes.length ≤ b.used) :
    Rewritten b (b.content.take start ++ bytes ++ b.content.drop (start + bytes.length))
      (b.patched start bytes) := by
  have usedLe := wf.used_le
  have live := lengthContent wf
  have front : (b.store.take start).length = start := by
    have store : b.store.length = b.capacity := rfl
    rw [List.length_take]
    omega
  refine ⟨patchedWellFormed wf (by omega), ?_, ?_, rfl⟩
  · have before : b.content.take start = b.store.take start := by
      rw [content, List.take_take, Nat.min_eq_left (by omega)]
    have whole : (b.store.take start ++ bytes).length = start + bytes.length := by
      rw [List.length_append, front]
    rw [before]
    simp only [content, patched]
    rw [List.take_append, List.take_of_length_le (by omega), whole, List.drop_take]
  · have cursorLe := wf.cursor_le
    simp only [patched, List.length_append, List.length_take, List.length_drop, live]
    omega

theorem setByteBounded (wf : b.WellFormed) (index : Nat) (byte : UInt8) :
    Bounded (fun answer => answer.1 = decide (index < b.used) ∧
        Rewritten b (b.content.set index byte) answer.2)
      (b.setByte index byte) := by
  refine boundedBind (editableAsking wf).bounded fun e ⟨same, owned⟩ => ?_
  have usedLe := same.wellFormed.used_le
  have live := lengthContent wf
  by_cases inside : index < b.used
  · have within : index + [byte].length ≤ e.used := by
      rw [same.used]
      exact inside
    rw [if_pos (same.used ▸ inside), writeInside owned (by omega)]
    refine ⟨(decide_eq_true inside).symm, ?_⟩
    have rewritten := (patchedRewritten same.wellFormed within).through same
    rw [same.content] at rewritten
    have set : b.content.set index byte =
        b.content.take index ++ [byte] ++ b.content.drop (index + [byte].length) := by
      rw [List.set_eq_take_append_cons_drop, if_pos (by omega), List.append_assoc]
      rfl
    rwa [set]
  · rw [if_neg (same.used ▸ inside)]
    refine ⟨(decide_eq_false inside).symm, ?_⟩
    rw [List.set_eq_of_length_le (by omega)]
    exact same.rewritten wf

theorem resetWellFormed : b.reset.WellFormed :=
  ⟨Nat.zero_le _, Nat.le_refl _, emptyWellFormed.capacity_lt⟩

theorem resetContent : b.reset.content = [] := rfl

theorem truncateWellFormed (wf : b.WellFormed) (n : Nat) : (b.truncate n).WellFormed := by
  have usedLe := wf.used_le
  unfold truncate
  split
  · exact setUsedWellFormed (by omega) wf.capacity_lt
  · exact wf

theorem trimInside (wf : b.WellFormed) :
    (b.content.reverse.dropWhile Byte.isSpace).length ≤ b.used := by
  have shorter := (List.dropWhile_sublist Byte.isSpace (l := b.content.reverse)).length_le
  rw [List.length_reverse, lengthContent wf] at shorter
  exact shorter

theorem trimWellFormed (wf : b.WellFormed) : b.trim.WellFormed :=
  setUsedWellFormed (Nat.le_trans (trimInside wf) wf.used_le) wf.capacity_lt

structure Fresh (bytes : Bytes) (b : Blob) : Prop where
  wellFormed : b.WellFormed
  content : b.content = bytes
  cursor : b.cursor = 0
  formatted : b.formatted = false

theorem emptyFresh : Fresh [] empty := ⟨emptyWellFormed, rfl, rfl, rfl⟩

theorem copyFromSound (b source : Blob) : Sound (Fresh source.content) (b.copyFrom source) :=
  soundMono (appendAppending resetWellFormed source.content).sound fun _ extended =>
    ⟨extended.wellFormed, by rw [extended.content, resetContent, List.nil_append], extended.cursor,
      extended.formatted⟩

theorem appendConsumeSound (wf : b.WellFormed) (source : Blob) :
    Sound (fun pair => Extended b source.content pair.1 ∧ pair.2 = source.reset)
      (b.appendConsume source) :=
  soundBind (appendAppending wf source.content).sound fun _ extended => ⟨extended, rfl⟩

theorem toOwnedSound (b : Blob) : Sound (Fresh b.content) b.toOwned :=
  soundMono (appendAppending emptyWellFormed b.content).sound fun _ extended =>
    ⟨extended.wellFormed, extended.content, extended.cursor, extended.formatted⟩

def held (bytes : Bytes) : Blob :=
  if bytes.isEmpty then empty else ⟨bytes, .owned, bytes.length, 0, false⟩

theorem heldContent (bytes : Bytes) : (held bytes).content = bytes := by
  cases bytes with
  | nil => rfl
  | cons byte bytes => exact List.take_length

theorem heldWellFormed {bytes : Bytes} (below : bytes.length < sizeCeiling) :
    (held bytes).WellFormed := by
  cases bytes with
  | nil => exact emptyWellFormed
  | cons byte bytes => exact ⟨Nat.le_refl _, Nat.zero_le _, below⟩

theorem ofBytesEq (bytes : Bytes) : ofBytes bytes =
    if sizeCeiling ≤ bytes.length then .error (.ceiling .ofBytes bytes.length)
    else .ok (held bytes) := by
  cases bytes with
  | nil => rfl
  | cons byte bytes =>
    unfold ofBytes checkCeiling
    by_cases reached : sizeCeiling ≤ (byte :: bytes).length
    · simp only [List.isEmpty_cons, Bool.false_eq_true, if_false, if_pos reached]
      rfl
    · simp only [List.isEmpty_cons, Bool.false_eq_true, if_false, if_neg reached]
      rfl

theorem heldFresh {bytes : Bytes} (below : bytes.length < sizeCeiling) : Fresh bytes (held bytes) := by
  refine ⟨heldWellFormed below, heldContent bytes, ?_, ?_⟩
  · cases bytes <;> rfl
  · cases bytes <;> rfl

theorem ofBytesAsking (bytes : Bytes) : Asking bytes.length (Fresh bytes) (ofBytes bytes) := by
  rw [ofBytesEq]
  split
  · exact ⟨.ofBytes, bytes.length, rfl, by assumption, Nat.le_refl _⟩
  · exact heldFresh (Nat.lt_of_not_le (by assumption))

theorem ofBytesSound (bytes : Bytes) : Sound (Fresh bytes) (ofBytes bytes) :=
  (ofBytesAsking bytes).bounded.sound

theorem borrowSound (bytes : Bytes) : Sound (Fresh bytes) (borrow bytes) := by
  refine soundBind (boundedCeiling _ .borrow).sound fun _ below => ?_
  exact ⟨⟨Nat.le_refl _, Nat.zero_le _, below⟩, List.take_length, rfl, rfl⟩

end ArtifactVault.Blob
