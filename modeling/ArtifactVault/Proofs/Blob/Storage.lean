import ArtifactVault.Blob.Growth
import ArtifactVault.Proofs.Outcome

/-! Stores that grow, shrink and are written into. A resized store keeps the live bytes that fit,
and every write is inside an owned store. `Reallocated` says all that a change of size can do, so
nothing later opens `reallocate`. -/
namespace ArtifactVault.Blob
variable {b : Blob}

theorem lengthContent (wf : b.WellFormed) : b.content.length = b.used := by
  simp only [content, List.length_take]
  exact Nat.min_eq_left wf.used_le

theorem emptyWellFormed : empty.WellFormed :=
  ⟨Nat.zero_le _, Nat.le_refl _, by decide⟩

theorem setUsedWellFormed {n : Nat} (fits : n ≤ b.capacity) (below : b.capacity < sizeCeiling) :
    (b.setUsed n).WellFormed :=
  ⟨fits, Nat.min_le_right _ _, below⟩

theorem setUsedContent {n : Nat} (shorter : n ≤ b.used) : (b.setUsed n).content = b.content.take n := by
  change b.store.take n = (b.store.take b.used).take n
  rw [List.take_take, Nat.min_eq_left shorter]

def patched (b : Blob) (start : Nat) (bytes : Bytes) : Blob :=
  { b with store := b.store.take start ++ bytes ++ b.store.drop (start + bytes.length) }

theorem writeInside {start : Nat} {bytes : Bytes} (owned : b.ownership = .owned)
    (room : start + bytes.length ≤ b.capacity) : b.write start bytes = .ok (b.patched start bytes) := by
  unfold write overwrite
  rw [owned]
  simp only [capacity] at room
  simp only [if_pos room, patched, owned]
  rfl

theorem patchedCapacity {start : Nat} {bytes : Bytes} (room : start + bytes.length ≤ b.capacity) :
    (b.patched start bytes).capacity = b.capacity := by
  simp only [capacity] at room
  simp only [patched, capacity, List.length_append, List.length_take, List.length_drop]
  omega

theorem patchedWellFormed {start : Nat} {bytes : Bytes} (wf : b.WellFormed)
    (room : start + bytes.length ≤ b.capacity) : (b.patched start bytes).WellFormed := by
  have same := patchedCapacity room
  exact ⟨same ▸ wf.used_le, wf.cursor_le, same ▸ wf.capacity_lt⟩

theorem patchedBehindContent {start : Nat} {bytes : Bytes} (behind : b.used ≤ start)
    (room : start + bytes.length ≤ b.capacity) : (b.patched start bytes).content = b.content := by
  have long : b.used ≤ (b.store.take start).length := by
    simp only [capacity] at room
    simp only [List.length_take]
    omega
  simp only [content, patched]
  rw [List.append_assoc, List.take_append_of_le_length long, List.take_take,
    Nat.min_eq_left behind]

theorem patchedAt {start : Nat} {bytes : Bytes} (index : Nat) (room : start + bytes.length ≤ b.capacity)
    (inside : index < bytes.length) : (b.patched start bytes).store[start + index]? = bytes[index]? := by
  have front : (b.store.take start).length = start := by
    simp only [capacity] at room
    simp only [List.length_take]
    omega
  simp only [patched]
  rw [List.append_assoc, List.getElem?_append_right (by omega), front, Nat.add_sub_cancel_left,
    List.getElem?_append_left inside]

theorem terminateOwned (owned : b.ownership = .owned) (room : b.used < b.capacity) :
    b.terminate = .ok (b.patched b.used [0]) :=
  writeInside owned room

structure Reallocated (b : Blob) (size : Nat) (r : Blob) : Prop where
  owned : r.ownership = .owned
  atLeast : size ≤ r.capacity
  atMost : r.capacity ≤ size + shrinkSlack
  below : r.capacity < sizeCeiling
  used : r.used = min b.used r.capacity
  content : r.content = b.content.take r.capacity
  cursor : r.cursor = min b.cursor r.used
  formatted : r.formatted = b.formatted

theorem resizedStoreOwned {size : Nat} (owned : b.ownership = .owned) :
    b.resizedStore size =
      if b.capacity < size then b.store ++ List.replicate (size - b.capacity) 0
      else if size + shrinkSlack < b.capacity then b.store.take size else b.store := by
  simp only [resizedStore, owned]

theorem resizedStoreBorrowed {size : Nat} (borrowed : b.ownership = .borrowed) :
    b.resizedStore size =
      b.content.take size ++ List.replicate (size - (b.content.take size).length) 0 := by
  simp only [resizedStore, borrowed]

/-- The capacity after a change of size: an owned store stays as it is while it is large enough and
cutting it would not free more than the slack. -/
def fitted (b : Blob) (size : Nat) : Nat :=
  if b.ownership = .owned ∧ size ≤ b.capacity ∧ b.capacity ≤ size + shrinkSlack then b.capacity
  else size

theorem fittedBounds (b : Blob) (size : Nat) :
    size ≤ b.fitted size ∧ b.fitted size ≤ size + shrinkSlack := by
  unfold fitted
  split
  · rename_i stays
    exact stays.2
  · exact ⟨Nat.le_refl _, Nat.le_add_right _ _⟩

theorem fittedLarger {size : Nat} (grows : b.capacity < size) : b.fitted size = size :=
  if_neg fun stays => absurd stays.2.1 (Nat.not_le_of_lt grows)

theorem fittedBelow {size : Nat} (wf : b.WellFormed) (below : size < sizeCeiling) :
    b.fitted size < sizeCeiling := by
  unfold fitted
  split
  · exact wf.capacity_lt
  · exact below

theorem lengthResizedStore (b : Blob) (size : Nat) :
    (b.resizedStore size).length = b.fitted size := by
  have store : b.store.length = b.capacity := rfl
  cases strategy : b.ownership with
  | owned =>
    rw [resizedStoreOwned strategy, fitted, strategy]
    split
    · rw [if_neg (by omega), List.length_append, List.length_replicate]
      omega
    · split
      · rw [if_neg (by omega), List.length_take]
        omega
      · exact (if_pos ⟨rfl, by omega, by omega⟩).symm
  | borrowed =>
    rw [resizedStoreBorrowed strategy, fitted, strategy, if_neg nofun, List.length_append,
      List.length_replicate, List.length_take]
    omega

theorem takeResizedStore (wf : b.WellFormed) (size : Nat) :
    (b.resizedStore size).take b.used = b.content.take (b.resizedStore size).length := by
  have usedLe := wf.used_le
  have live := lengthContent wf
  have store : b.store.length = b.capacity := rfl
  cases strategy : b.ownership with
  | owned =>
    rw [resizedStoreOwned strategy, content]
    split
    · rw [List.take_append_of_le_length usedLe, List.take_take]
      congr 1
      simp only [List.length_append]
      omega
    · split
      · rw [List.take_take, List.take_take, List.length_take]
        congr 1
        omega
      · rw [List.take_take]
        congr 1
        omega
  | borrowed =>
    rw [resizedStoreBorrowed strategy]
    by_cases fits : b.used ≤ size
    · have whole : b.content.take size = b.content := List.take_of_length_le (by omega)
      rw [whole, List.take_append_of_le_length (Nat.le_of_eq live.symm),
        List.take_of_length_le (Nat.le_of_eq live)]
      exact (List.take_of_length_le (by simp only [List.length_append]; omega)).symm
    · have cut : (b.content.take size).length = size := by simp only [List.length_take]; omega
      rw [cut, Nat.sub_self, List.replicate_zero, List.append_nil, cut]
      exact List.take_of_length_le (by omega)

theorem reallocateStore {size : Nat} (positive : 0 < size) :
    (b.reallocate size).store = b.resizedStore size := by
  simp only [reallocate, if_neg (Nat.ne_of_gt positive)]
  split <;> rfl

theorem reallocateCapacity {size : Nat} (positive : 0 < size) :
    (b.reallocate size).capacity = b.fitted size := by
  rw [capacity, reallocateStore positive, lengthResizedStore]

theorem reallocateShape {size : Nat} (wf : b.WellFormed) (positive : 0 < size)
    (below : size < sizeCeiling) : Reallocated b size (b.reallocate size) := by
  have length := lengthResizedStore b size
  obtain ⟨atLeast, atMost⟩ := fittedBounds b size
  have lengthLt := fittedBelow wf below
  rw [← length] at atLeast atMost lengthLt
  have live := takeResizedStore wf size
  have inside := wf.cursor_le
  let resized : Blob := { b with store := b.resizedStore size, ownership := .owned }
  have resize : b.reallocate size =
      if resized.capacity < resized.used then resized.setUsed resized.capacity else resized :=
    if_neg (Nat.ne_of_gt positive)
  by_cases cut : resized.capacity < resized.used
  · rw [resize, if_pos cut]
    refine ⟨rfl, atLeast, atMost, lengthLt, ?_, ?_, rfl, rfl⟩
    · exact (Nat.min_eq_right (Nat.le_of_lt cut)).symm
    · have whole := List.take_of_length_le (Nat.le_of_lt cut)
      exact (List.take_length).trans (whole.symm.trans live)
  · rw [resize, if_neg cut]
    refine ⟨rfl, atLeast, atMost, lengthLt, ?_, live, ?_, rfl⟩
    · exact (Nat.min_eq_left (Nat.le_of_not_lt cut)).symm
    · exact (Nat.min_eq_left inside).symm

theorem Reallocated.wellFormed {size : Nat} {r : Blob} (shape : Reallocated b size r) :
    r.WellFormed :=
  ⟨shape.used ▸ Nat.min_le_right _ _, shape.cursor ▸ Nat.min_le_right _ _, shape.below⟩

theorem Reallocated.keepsContent {size : Nat} {r : Blob} (shape : Reallocated b size r)
    (wf : b.WellFormed) (fits : b.used ≤ size) :
    r.used = b.used ∧ r.content = b.content ∧ r.cursor = b.cursor := by
  have used : r.used = b.used := by
    rw [shape.used]
    exact Nat.min_eq_left (Nat.le_trans fits shape.atLeast)
  refine ⟨used, ?_, ?_⟩
  · rw [shape.content]
    exact List.take_of_length_le (by rw [lengthContent wf]; exact Nat.le_trans fits shape.atLeast)
  · rw [shape.cursor, used]
    exact Nat.min_eq_left wf.cursor_le

theorem Reallocated.front {size n : Nat} {r : Blob} (shape : Reallocated b size r)
    (wf : b.WellFormed) (fits : n ≤ size) : r.store.take (min b.used n) = b.content.take n := by
  have atLeast := shape.atLeast
  have used := shape.used
  have live := lengthContent wf
  have inLive : min (min b.used n) r.used = min b.used n := by omega
  have inStore : min (min b.used n) r.capacity = min b.used n := by omega
  have front := congrArg (List.take (min b.used n)) shape.content
  rw [Blob.content, List.take_take, List.take_take, inLive, inStore] at front
  rw [front, Nat.min_comm, ← live]
  exact List.take_eq_take_min.symm

end ArtifactVault.Blob
