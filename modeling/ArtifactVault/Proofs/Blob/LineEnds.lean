import ArtifactVault.Proofs.Blob.Normalize

/-! Line ends. Adding carriage returns and leaving newlines only are replacements from the left, and
content without a carriage return is what the second makes of anything, leaves alone, and gives back
when the first has been at it. -/
namespace ArtifactVault.Blob
variable {b : Blob}

def substituted (old new : Bytes) : Bytes → Bytes
  | [] => []
  | byte :: rest =>
    if old.isPrefixOf (byte :: rest) then new ++ substituted old new (rest.drop (old.length - 1))
    else byte :: substituted old new rest
  termination_by bytes => bytes.length
  decreasing_by all_goals simp only [List.length_drop, List.length_cons]; omega

theorem substitutedByte (old : UInt8) (new bytes : Bytes) :
    substituted [old] new bytes = bytes.flatMap fun byte => if byte = old then new else [byte] := by
  induction bytes with
  | nil => rw [substituted, List.flatMap_nil]
  | cons byte bytes ih =>
    rw [substituted, List.flatMap_cons, ← ih]
    by_cases same : byte = old
    · simp [same]
    · simp [same, Ne.symm same]

theorem returnsAdded (bytes : Bytes) :
    substituted [0x0a] [0x0d, 0x0a] bytes = bytes.flatMap withReturn :=
  substitutedByte 0x0a [0x0d, 0x0a] bytes

theorem newlinesLeft (bytes : Bytes) :
    substituted [0x0d] [0x0a] (substituted [0x0d, 0x0a] [0x0a] bytes) = withNewlines bytes := by
  rw [substitutedByte]
  fun_induction substituted [0x0d, 0x0a] [0x0a] bytes with
  | case1 => rfl
  | case2 byte rest pair ih =>
    obtain ⟨behind, whole⟩ := List.isPrefixOf_iff_prefix.mp pair
    cases whole
    rw [List.flatMap_append, ih]
    simp [withNewlines]
  | case3 byte rest alone ih =>
    rw [List.flatMap_cons, ih, withNewlines]
    by_cases plain : byte = 0x0d
    · have next : rest.head? ≠ some 0x0a := by
        rintro newline
        obtain ⟨behind, rfl⟩ := List.head?_eq_some_iff.mp newline
        exact alone (by simp [plain])
      simp [plain, next]
    · simp [plain]

theorem noReturns (bytes : Bytes) : 0x0d ∉ withNewlines bytes := by
  induction bytes with
  | nil => exact List.not_mem_nil
  | cons byte bytes ih =>
    rw [withNewlines]
    split
    · rename_i plain
      simp [ih, Ne.symm plain]
    · split
      · simp [ih]
      · exact ih

theorem returnsUndone {bytes : Bytes} (none : 0x0d ∉ bytes) :
    withNewlines (bytes.flatMap withReturn) = bytes := by
  induction bytes with
  | nil => rfl
  | cons byte bytes ih =>
    rw [List.mem_cons, not_or] at none
    rw [List.flatMap_cons, withReturn]
    by_cases newline : byte = 0x0a
    · simp [newline, withNewlines, ih none.2]
    · simp [newline, withNewlines, ih none.2, Ne.symm none.1]

theorem lengthWithNewlines (bytes : Bytes) : (withNewlines bytes).length ≤ bytes.length := by
  induction bytes with
  | nil => exact Nat.le_refl _
  | cons byte bytes ih =>
    rw [withNewlines]
    split
    · exact Nat.succ_le_succ ih
    · split
      · exact Nat.succ_le_succ ih
      · exact Nat.le_succ_of_le ih

structure Returned (b e : Blob) : Prop where
  rewritten : Rewritten b (substituted [0x0a] [0x0d, 0x0a] b.content) e
  terminated : 0x0a ∈ b.content → e.Terminated

structure Unreturned (b e : Blob) : Prop where
  rewritten : Rewritten b (substituted [0x0d] [0x0a] (substituted [0x0d, 0x0a] [0x0a] b.content)) e
  terminated : 0x0d ∈ b.content → e.Terminated
  none : 0x0d ∉ e.content
  settled : e.newlinesOnly = .ok e

theorem newlinesFew (wf : b.WellFormed) : b.content.count 0x0a ≤ b.used :=
  Nat.le_trans List.count_le_length (Nat.le_of_eq (lengthContent wf))

theorem addedReturned (wf : b.WellFormed) (small : 2 * b.used + 1 < sizeCeiling) :
    ∃ e, b.addCarriageReturns = .ok e ∧ Returned b e := by
  have few := newlinesFew wf
  have length := lengthWithReturns b.content
  rw [lengthContent wf] at length
  obtain ⟨e, done, rewritten, ends⟩ := (addCarriageReturnsAsking wf).below (by omega)
  exact ⟨e, done, by rw [returnsAdded]; exact rewritten, ends⟩

theorem newlinesSettled (none : 0x0d ∉ b.content) : b.newlinesOnly = .ok b := by
  have unlisted : ¬ b.content.contains 0x0d = true := fun mem => none (List.contains_iff_mem.mp mem)
  rw [newlinesOnly, if_neg unlisted]
  rfl

theorem leftUnreturned (wf : b.WellFormed) (small : b.used + 1 < sizeCeiling) :
    ∃ e, b.newlinesOnly = .ok e ∧ Unreturned b e := by
  obtain ⟨e, done, rewritten, ends⟩ := (newlinesOnlyAsking wf).below small
  have none : 0x0d ∉ e.content := by
    rw [rewritten.content]
    exact noReturns _
  exact ⟨e, done, by rw [newlinesLeft]; exact rewritten, ends, none, newlinesSettled none⟩

theorem Unreturned.used {e : Blob} (unreturned : Unreturned b e) (wf : b.WellFormed) :
    e.used ≤ b.used := by
  rw [← lengthContent unreturned.rewritten.wellFormed, unreturned.rewritten.content, newlinesLeft,
    ← lengthContent wf]
  exact lengthWithNewlines _

theorem Returned.used {e : Blob} (returned : Returned b e) (wf : b.WellFormed) :
    e.used = b.used + b.content.count 0x0a := by
  rw [← lengthContent returned.rewritten.wellFormed, returned.rewritten.content, returnsAdded,
    lengthWithReturns, lengthContent wf]

def Cycles (b : Blob) : Prop :=
  ∃ crlf back, b.addCarriageReturns = .ok crlf ∧ crlf.newlinesOnly = .ok back ∧
    back.content = b.content

theorem backUnchanged {crlf back : Blob} (wf : b.WellFormed) (none : 0x0d ∉ b.content)
    (added : b.addCarriageReturns = .ok crlf) (left : crlf.newlinesOnly = .ok back) :
    back.content = b.content := by
  have adds := addCarriageReturnsBounded wf
  rw [added] at adds
  have leaves := newlinesOnlyBounded adds.wellFormed
  rw [left] at leaves
  rw [leaves.content, adds.content, returnsUndone none]

theorem cycles (wf : b.WellFormed) (none : 0x0d ∉ b.content) (small : 2 * b.used + 1 < sizeCeiling) :
    Cycles b := by
  have few := newlinesFew wf
  obtain ⟨crlf, added, returned⟩ := addedReturned wf small
  have used := returned.used wf
  obtain ⟨back, left, -⟩ := leftUnreturned returned.rewritten.wellFormed (by omega)
  exact ⟨crlf, back, added, left, backUnchanged wf none added left⟩

end ArtifactVault.Blob
