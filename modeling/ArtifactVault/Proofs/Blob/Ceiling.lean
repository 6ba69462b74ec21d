import ArtifactVault.Proofs.Blob.Growth

/-! Which appends the ceiling refuses. An append that has to grow asks for the old capacity on top of
what it needs, so its fate hangs on the store and not on the length alone: `Admits` says all that it
hangs on, and every kind of append goes by it. -/
namespace ArtifactVault.Blob
variable {b : Blob}

/-- The bytes and a terminator fit into an owned store, or a store that is larger by the capacity
there is now, and a pad, stays below the ceiling. -/
def Admits (b : Blob) (extra : Nat) : Prop :=
  (b.ownership = .owned ∧ b.used + extra < b.capacity) ∨
    b.used + extra + b.capacity + appendPad < sizeCeiling

def refusal (b : Blob) (extra : Nat) : Abort :=
  if wordLimit ≤ b.used + extra then .lengthOverflow
  else .ceiling .append (saturate (b.used + extra + b.capacity + appendPad))

theorem Admits.held {extra : Nat} (wf : b.WellFormed) (admits : b.Admits extra) :
    b.used + extra < wordLimit := by
  have word := ceilingBelowWord
  have below := wf.capacity_lt
  rcases admits with ⟨-, room⟩ | small <;> omega

theorem admitsHalf {extra : Nat} (shown : b.ownership = .owned ∨ b.capacity ≤ b.used + 1)
    (small : 2 * (b.used + extra) + 101 < sizeCeiling) : b.Admits extra := by
  have pad : appendPad = 100 := rfl
  rcases shown with owned | tight
  · by_cases room : b.used + extra < b.capacity
    · exact .inl ⟨owned, room⟩
    · exact .inr (by omega)
  · exact .inr (by omega)

theorem growForAppendAdmitted {extra : Nat} (wf : b.WellFormed) (admits : b.Admits extra) :
    ∃ g, b.growForAppend extra = .ok g ∧ Grown b (b.used + extra) g := by
  have held := admits.held wf
  have bounded := growForAppendBounded wf held
  rw [growForAppendEq, if_neg (Nat.not_le_of_lt held)] at bounded ⊢
  by_cases grows : b.capacity ≤ b.used + extra ∨ b.ownership = .borrowed
  · have small : b.used + extra + b.capacity + appendPad < sizeCeiling := by
      rcases admits with ⟨owned, room⟩ | small
      · rcases grows with full | borrowed
        · omega
        · cases owned.symm.trans borrowed
      · exact small
    have word := ceilingBelowWord
    have target : saturate (b.used + extra + b.capacity + appendPad) =
        b.used + extra + b.capacity + appendPad := by
      unfold saturate
      omega
    have checked : checkCeiling (b.used + extra + b.capacity + appendPad) .append = .ok () :=
      if_neg (Nat.not_le_of_lt small)
    rw [if_pos grows, target, checked] at bounded ⊢
    exact ⟨_, rfl, bounded⟩
  · rw [if_neg grows] at bounded ⊢
    exact ⟨b, rfl, bounded⟩

theorem growForAppendRefused {extra : Nat} (refuses : ¬ b.Admits extra) :
    b.growForAppend extra = .error (b.refusal extra) := by
  obtain ⟨full, large⟩ := not_or.mp refuses
  rw [growForAppendEq, refusal]
  by_cases exceeds : wordLimit ≤ b.used + extra
  · rw [if_pos exceeds, if_pos exceeds]
  · have word := ceilingBelowWord
    have reached : sizeCeiling ≤ saturate (b.used + extra + b.capacity + appendPad) := by
      unfold saturate
      omega
    have grows : b.capacity ≤ b.used + extra ∨ b.ownership = .borrowed := by
      rcases ownedOrBorrowed b with owned | borrowed
      · exact .inl (Nat.le_of_not_lt fun room => full ⟨owned, room⟩)
      · exact .inr borrowed
    rw [if_neg exceeds, if_neg exceeds, if_pos grows, checkCeiling, if_pos reached]
    rfl

structure Decided (b : Blob) (bytes : Bytes) (outcome : Except Abort Blob) : Prop where
  admitted : b.Admits bytes.length → ∃ e, outcome = .ok e ∧ Extended b bytes e
  refused : ¬ b.Admits bytes.length → outcome = .error (b.refusal bytes.length)

theorem appendDecided (wf : b.WellFormed) (bytes : Bytes) : Decided b bytes (b.append bytes) where
  admitted admits := by
    obtain ⟨g, grew, grown⟩ := growForAppendAdmitted wf admits
    obtain ⟨e, done, extended⟩ := extendGrown grown
    exact ⟨e, by rw [append, grew]; exact done, extended⟩
  refused refuses := by
    rw [append, growForAppendRefused refuses]
    rfl

theorem appendByteDecided (wf : b.WellFormed) (byte : UInt8) :
    Decided b [byte] (b.appendByte byte) := by
  rw [appendByteAlike wf]
  exact appendDecided wf [byte]

theorem appendRepeatDecided (wf : b.WellFormed) (byte : UInt8) (count : Nat) :
    Decided b (List.replicate count byte) (b.appendRepeat byte count) := by
  rw [appendRepeatAlike]
  exact appendDecided wf _

theorem appendFromSelfDecided {start stop : Nat} (wf : b.WellFormed) (ordered : start ≤ stop)
    (inside : stop ≤ b.used) :
    Decided b ((b.content.take stop).drop start) (b.appendFromSelf start stop) := by
  rw [appendFromSelfAlike wf ordered inside]
  exact appendDecided wf _

/-- Appends succeed where the store admits them and nowhere else: into the blob itself, into a copy
of it, and into a blob that a source is copied to. Up to half the ceiling every store does. -/
theorem appendsGoByTheStore (wf : b.WellFormed) :
    (∀ bytes, Decided b bytes (b.append bytes)) ∧
    (∀ byte, Decided b [byte] (b.appendByte byte)) ∧
    (∀ byte count, Decided b (List.replicate count byte) (b.appendRepeat byte count)) ∧
    (∀ start stop, start ≤ stop → stop ≤ b.used →
      Decided b ((b.content.take stop).drop start) (b.appendFromSelf start stop)) ∧
    Decided empty b.content b.toOwned ∧
    (∀ source : Blob, Decided empty source.content (b.copyFrom source)) ∧
    ∀ extra, (b.ownership = .owned ∨ b.capacity ≤ b.used + 1) →
      2 * (b.used + extra) + 101 < sizeCeiling → b.Admits extra :=
  ⟨appendDecided wf, appendByteDecided wf, appendRepeatDecided wf,
    fun _ _ => appendFromSelfDecided wf, appendDecided emptyWellFormed b.content,
    fun source => appendDecided emptyWellFormed source.content, fun _ => admitsHalf⟩

theorem lettersAdmitted : ∃ e, (Blob.mk [0x61, 0x62] .borrowed 2 0 false).append [0x63] = .ok e ∧
    e.content = [0x61, 0x62, 0x63] := by
  obtain ⟨appended, -, -, -, -, -, half⟩ :=
    @appendsGoByTheStore ⟨[0x61, 0x62], .borrowed, 2, 0, false⟩ ⟨by decide, by decide, by decide⟩
  obtain ⟨e, done, extended⟩ := (appended [0x63]).admitted (half 1 (.inr (by decide)) (by decide))
  exact ⟨e, done, extended.content⟩

theorem longRunRefused :
    empty.used + (sizeCeiling - 101) + 1 < sizeCeiling ∧
    empty.appendRepeat 0x78 (sizeCeiling - 101) = .error (.ceiling .append sizeCeiling) ∧
    ∃ roomy e, empty.reserve (sizeCeiling - 1) = .ok roomy ∧ roomy.content = empty.content ∧
      roomy.appendRepeat 0x78 (sizeCeiling - 101) = .ok e := by
  have ceiling : sizeCeiling = 0x7fff0000 := rfl
  have used : empty.used = 0 := rfl
  refine ⟨by omega, ?_, ?_⟩
  · have refuses : ¬ empty.Admits (List.replicate (sizeCeiling - 101) (0x78 : UInt8)).length := by
      rw [List.length_replicate, Admits]
      decide
    have cause : empty.refusal (sizeCeiling - 101) = .ceiling .append sizeCeiling := by
      decide +kernel
    rw [(appendRepeatDecided emptyWellFormed _ _).refused refuses, List.length_replicate, cause]
  · obtain ⟨roomy, done, same, room, owned⟩ :=
      @reserveMore empty (sizeCeiling - 1) emptyWellFormed (by decide) (by decide)
    have admits : roomy.Admits (List.replicate (sizeCeiling - 101) (0x78 : UInt8)).length := by
      rw [List.length_replicate]
      exact .inl ⟨owned, by rw [same.used]; omega⟩
    obtain ⟨e, taken, -⟩ := (appendRepeatDecided same.wellFormed _ _).admitted admits
    exact ⟨roomy, e, done, same.content, taken⟩

end ArtifactVault.Blob
