import ArtifactVault.Proofs.Lifetime

/-! Sizes that are asked for. A length or a room below the ceiling is granted, and nothing else is
refused. Room is exact; a length may keep a larger store, though never by more than the slack. -/
namespace ArtifactVault.Blob
variable {b r : Blob}

theorem resizeCapacity {n : Nat} (resized : b.resize n = .ok r) :
    r.capacity = b.fitted (n + 1) := by
  obtain ⟨_, -, ended⟩ := okBind resized
  obtain ⟨-, room, rfl⟩ := writtenInside ended
  rw [patchedCapacity room, ← reallocateCapacity (Nat.succ_pos n)]
  rfl

theorem resizeRefused {n : Nat} (reaches : sizeCeiling ≤ n + 1) :
    b.resize n = .error (.ceiling .resize (saturate (n + 1))) := by
  have word := ceilingBelowWord
  have asked : sizeCeiling ≤ saturate (n + 1) := by
    unfold saturate
    omega
  rw [resize, checkCeiling, if_pos asked]
  rfl

theorem reserveCapacity {minimum : Nat} (reserved : b.reserve minimum = .ok r) :
    r.capacity = max b.capacity minimum := by
  obtain ⟨_, -, reserved⟩ := okBind reserved
  split at reserved
  · rename_i grows
    have room : (b.reallocate minimum).capacity = minimum := by
      rw [reallocateCapacity (Nat.zero_lt_of_lt grows), fittedLarger grows]
    rw [Nat.max_eq_right (Nat.le_of_lt grows)]
    dsimp only at reserved
    split at reserved
    · obtain ⟨-, inside, rfl⟩ := writtenInside reserved
      exact (patchedCapacity inside).trans room
    · cases reserved
      exact room
  · rename_i enough
    cases reserved
    exact (Nat.max_eq_left (Nat.le_of_not_lt enough)).symm

theorem reserveRefused {minimum : Nat} (reaches : sizeCeiling ≤ minimum) :
    b.reserve minimum = .error (.ceiling .reserve minimum) := by
  rw [reserve, checkCeiling, if_pos reaches]
  rfl

theorem sizesFollowTheRequest [Zlib.Encoder] {events : List Lifetime.Event} {blobs : Registers}
    (lived : Lifetime.live blank events = .ok blobs) (register : Nat) :
    (∀ n, n + 1 < sizeCeiling → ∃ r, (blobs register).resize n = .ok r ∧
      Resized (blobs register) n r ∧ r.capacity = (blobs register).fitted (n + 1)) ∧
    (∀ n, sizeCeiling ≤ n + 1 →
      (blobs register).resize n = .error (.ceiling .resize (saturate (n + 1)))) ∧
    (∀ minimum, minimum < sizeCeiling → ∃ r, (blobs register).reserve minimum = .ok r ∧
      SameContent (blobs register) r ∧ r.capacity = max (blobs register).capacity minimum) ∧
    (∀ minimum, sizeCeiling ≤ minimum →
      (blobs register).reserve minimum = .error (.ceiling .reserve minimum)) := by
  have wf : (blobs register).WellFormed :=
    (Lifetime.liveRegular Lifetime.blankRegular lived register).wellFormed
  refine ⟨fun n below => ?_, fun n => resizeRefused, fun minimum below => ?_,
    fun minimum => reserveRefused⟩
  · obtain ⟨r, resized, shape⟩ := (resizeAsking wf n).below below
    exact ⟨r, resized, shape, resizeCapacity resized⟩
  · obtain ⟨r, reserved, same, -⟩ := (reserveAsking wf minimum).below below
    exact ⟨r, reserved, same, reserveCapacity reserved⟩

def lettersRoomy : List Lifetime.Event :=
  [.act (.operate (.create 0 (.ofBytes [0x61, 0x62, 0x63]))),
    .act (.operate (.edit 0 (.reserve 4004))), .act (.operate (.adjust 0 (.seek 3 .start)))]

theorem roomyLettersResized : ∃ blobs same cut, Lifetime.live blank lettersRoomy = .ok blobs ∧
    3 + 1 < sizeCeiling ∧ (blobs 0).resize 3 = .ok same ∧ same.capacity = 4004 ∧
    (blobs 0).resize 2 = .ok cut ∧ cut.capacity = 3 ∧ cut.ownership = .owned ∧
    cut.content.take 2 = [0x61, 0x62] ∧ cut.store[2]? = some 0 ∧ cut.cursor = 2 := by
  have state : (Lifetime.live blank lettersRoomy).toOption.map (fun blobs =>
      ((blobs 0).used, (blobs 0).cursor, (blobs 0).content, (blobs 0).fitted 4,
        (blobs 0).fitted 3)) = some (3, 3, [0x61, 0x62, 0x63], 4004, 3) := by decide +kernel
  cases lived : Lifetime.live blank lettersRoomy with
  | error cause =>
    rw [lived] at state
    cases state
  | ok blobs =>
    rw [lived] at state
    obtain ⟨used, rest⟩ := Prod.mk.inj (Option.some.inj state)
    obtain ⟨cursor, rest⟩ := Prod.mk.inj rest
    obtain ⟨content, rest⟩ := Prod.mk.inj rest
    obtain ⟨stays, shrinks⟩ := Prod.mk.inj rest
    obtain ⟨resizes, -⟩ := sizesFollowTheRequest lived 0
    obtain ⟨same, resized, -, capacity⟩ := resizes 3 (by decide)
    obtain ⟨cut, shortened, shape, less⟩ := resizes 2 (by decide)
    refine ⟨blobs, same, cut, rfl, by decide, resized, capacity.trans stays, shortened,
      less.trans shrinks, shape.owned, ?_, shape.terminated, ?_⟩
    · have kept := shape.kept
      rw [used, content] at kept
      exact kept
    · rw [shape.cursor, cursor]
      rfl

end ArtifactVault.Blob
