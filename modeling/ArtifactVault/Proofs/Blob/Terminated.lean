import ArtifactVault.Proofs.Blob.Run

/-! Views that end in a zero byte. Whatever a run made of a blob and its store, the content is shown
with one zero behind it, up to its first zero as a C string, and the blob that holds it afterwards
differs in storage alone. -/
namespace ArtifactVault.Blob
variable {b : Blob}

inductive UpToNul : Bytes → Bytes → Prop where
  | whole {bytes : Bytes} (none : 0 ∉ bytes) : UpToNul bytes bytes
  | cut {front : Bytes} (rest : Bytes) (none : 0 ∉ front) : UpToNul (front ++ 0 :: rest) front

theorem UpToNul.behind {bytes front : Bytes} {byte : UInt8} (other : byte ≠ 0)
    (upTo : UpToNul bytes front) : UpToNul (byte :: bytes) (byte :: front) := by
  have still {bytes : Bytes} (none : 0 ∉ bytes) : 0 ∉ byte :: bytes :=
    List.not_mem_cons_of_ne_of_not_mem other.symm none
  cases upTo with
  | whole none => exact .whole (still none)
  | cut rest none => exact .cut rest (still none)

theorem upToNulTerminated (bytes : Bytes) : UpToNul bytes ((bytes ++ [0]).takeWhile (· ≠ 0)) := by
  induction bytes with
  | nil => exact .whole nofun
  | cons byte bytes ih =>
    by_cases zero : byte = 0
    · subst zero
      exact @UpToNul.cut [] bytes List.not_mem_nil
    · have kept : decide (byte ≠ 0) = true := decide_eq_true zero
      rw [List.cons_append, List.takeWhile_cons, if_pos kept]
      exact ih.behind zero

theorem terminatedBelow (wf : b.WellFormed) (below : b.used + 1 < sizeCeiling) :
    ∃ held, b.terminated = .ok (b.content ++ [0], held) ∧ SameContent b held := by
  obtain ⟨⟨_, held⟩, done, rfl, same⟩ := (terminatedAsking wf).below below
  exact ⟨held, done, same⟩

theorem cStringOf {bytes : Bytes} {held : Blob} (done : b.terminated = .ok (bytes, held)) :
    b.cString = .ok (bytes.takeWhile (· ≠ 0), held) := by
  rw [cString, done]
  rfl

/-- In every register that a run leaves, from well-formed ones on, a content below the ceiling is
shown whole and with a zero behind it; as a C string it is shown up to its first zero, also by the
blob that was shown before. Nothing but the store is changed by that. -/
theorem terminatedShowsContent {start blobs : Registers} {program : List Operation} {register : Nat}
    (kept : Kept start) (ran : run start program = .ok blobs)
    (below : (blobs register).used + 1 < sizeCeiling) :
    ∃ held again front, (blobs register).terminated = .ok ((blobs register).content ++ [0], held) ∧
      SameContent (blobs register) held ∧
      UpToNul (blobs register).content front ∧
      (blobs register).cString = .ok (front, held) ∧
      held.cString = .ok (front, again) ∧ SameContent held again := by
  have sound := runSound program kept
  rw [ran] at sound
  obtain ⟨held, shown, same⟩ := terminatedBelow (sound register) below
  obtain ⟨again, later, still⟩ := terminatedBelow same.wellFormed (same.used ▸ below)
  rw [same.content] at later
  exact ⟨held, again, _, shown, same, upToNulTerminated _, cStringOf shown, cStringOf later, still⟩

def lettersTrimmed : List Operation :=
  [.create 0 (.ofBytes [0x61, 0x0a, 0x00, 0x62, 0x20]), .adjust 0 (.seek 4 .start),
    .adjust 0 .trim, .text 0 .addCarriageReturns]

theorem trimmedLettersShown : ∃ blobs held again front, run blank lettersTrimmed = .ok blobs ∧
    (blobs 0).terminated = .ok ([0x61, 0x0d, 0x0a, 0x00, 0x62, 0x00], held) ∧ held.cursor = 4 ∧
    UpToNul [0x61, 0x0d, 0x0a, 0x00, 0x62] front ∧ (blobs 0).cString = .ok (front, held) ∧
    held.cString = .ok (front, again) := by
  have state : (run blank lettersTrimmed).toOption.map (fun blobs =>
      ((blobs 0).used, (blobs 0).cursor, (blobs 0).content)) =
      some (5, 4, [0x61, 0x0d, 0x0a, 0x00, 0x62]) := by decide +kernel
  cases ran : run blank lettersTrimmed with
  | error cause =>
    rw [ran] at state
    cases state
  | ok blobs =>
    rw [ran] at state
    obtain ⟨used, rest⟩ := Prod.mk.inj (Option.some.inj state)
    obtain ⟨cursor, content⟩ := Prod.mk.inj rest
    obtain ⟨held, again, front, shown, same, upTo, string, later, -⟩ :=
      @terminatedShowsContent blank blobs _ 0 blankKept ran (by rw [used]; decide)
    rw [content] at shown upTo
    exact ⟨blobs, held, again, front, rfl, shown, same.cursor.trans cursor, upTo, string, later⟩

end ArtifactVault.Blob
