import ArtifactVault.Transfer
import ArtifactVault.Proofs.FileTree.Lookups
import ArtifactVault.Proofs.Stream.Reader

/-! Reading a file whole. The room that is taken first holds all of it, so no append on the way has
to grow. -/
namespace ArtifactVault.Transfer

theorem readOpenedFilled {b : Blob} {content : Bytes} (filled : content ≠ [])
    (fits : content.length + 1 < sizeCeiling) :
    ∃ r, readOpened b.reset (.file content) = .ok (.ok content.length, r) ∧ r.content = content := by
  have some := List.length_pos_iff.mpr filled
  have word := Blob.ceilingBelowWord
  have size : sizeOf (.file content) = content.length := rfl
  have asked : Blob.saturate (content.length + 1) = content.length + 1 := by
    unfold Blob.saturate
    omega
  have small : b.reset.capacity < content.length + 1 := Nat.lt_succ_of_le some
  obtain ⟨room, reserved, same, capacity, owned⟩ :=
    Blob.reserveMore Blob.resetWellFormed small fits
  have unused : room.used = 0 := same.used
  obtain ⟨r, rest, collected, wf, read⟩ :=
    Blob.collectWithin content same.wellFormed owned (by omega)
  have whole : r.content = content := by
    rw [read, same.content, Blob.resetContent, List.nil_append]
  have length : r.used = content.length := by
    rw [← Blob.lengthContent wf, whole]
  refine ⟨r, ?_, whole⟩
  simp only [readOpened, size, if_neg (Nat.ne_of_gt some), asked, reserved, sourceOf]
  rw [length] at collected
  simp only [bind, Except.bind, collected]
  rfl

theorem readOpenedFile {b : Blob} {content : Bytes} (fits : content.length + 1 < sizeCeiling) :
    ∃ r, readOpened b.reset (.file content) = .ok (.ok content.length, r) ∧ r.content = content := by
  by_cases filled : content = []
  · subst filled
    exact ⟨b.reset, rfl, Blob.resetContent⟩
  · exact readOpenedFilled filled fits

theorem readOpenedDirectory (b : Blob) :
    ∃ r, readOpened b.reset .directory = .ok (.error (.system .isADirectory), r) := by
  have size : sizeOf .directory = directorySize := rfl
  have some : directorySize ≠ 0 := by decide
  have asked : Blob.saturate (directorySize + 1) = directorySize + 1 := by decide
  have small : b.reset.capacity < directorySize + 1 := by
    have one : b.reset.capacity = 1 := rfl
    rw [one]
    decide
  obtain ⟨room, reserved, -⟩ := Blob.reserveMore Blob.resetWellFormed small (by decide)
  refine ⟨room, ?_⟩
  simp only [readOpened, size, if_neg some, asked, reserved, sourceOf]
  have failed : room.collect none [.fails .isADirectory] = .ok (.error .isADirectory, room, []) := by
    rw [Blob.collectEq]
    rfl
  simp only [bind, Except.bind, failed]
  rfl

theorem readPathFile {t : FileTree} {b : Blob} {path content : Bytes}
    (itself : t.lookup .itself path = .ok (.file content))
    (target : t.lookup .target path = .ok (.file content))
    (fits : content.length + 1 < sizeCeiling) (policy : LinkPolicy) (settings : FileSettings) :
    ∃ r, readPath t b path policy settings = .ok (.ok content.length, r) ∧ r.content = content := by
  obtain ⟨r, opened, whole⟩ := @readOpenedFile b content fits
  refine ⟨r, ?_, whole⟩
  simp only [readPath, itself, target]
  exact opened

theorem readPathFollowed {t : FileTree} {b : Blob} {path content : Bytes} {policy : LinkPolicy}
    {settings : FileSettings} (follows : policy.follows settings = true)
    (target : t.lookup .target path = .ok (.file content)) :
    readPath t b path policy settings = readOpened b.reset (.file content) := by
  obtain ⟨node, itself⟩ := FileTree.lookupItself target
  simp only [readPath, itself, target]
  cases node with
  | link target =>
    rw [follows]
  | _ => rfl

theorem loadFound {host : Host} {path content : Bytes} (named : isStandardStream path = false)
    (found : host.files.lookup .target path = .ok (.file content))
    (fits : content.length + 1 < sizeCeiling) (b : Blob) (settings : FileSettings) :
    ∃ r, load host b path .follow settings = .ok (.ok content.length, r, host) ∧
      r.content = content := by
  obtain ⟨r, opened, whole⟩ := @readOpenedFile b content fits
  refine ⟨r, ?_, whole⟩
  rw [load, named, if_neg Bool.false_ne_true, readPathFollowed rfl found, opened]
  rfl

theorem readOpenedCeiling {b : Blob} {content : Bytes} (filled : content ≠ [])
    (inside : content.length < sizeCeiling) (reaches : sizeCeiling ≤ content.length + 1) :
    readOpened b (.file content) = .error (.ceiling .reserve (content.length + 1)) := by
  have some := List.length_pos_iff.mpr filled
  have word := Blob.ceilingBelowWord
  have size : sizeOf (.file content) = content.length := rfl
  have asked : Blob.saturate (content.length + 1) = content.length + 1 := by
    unfold Blob.saturate
    omega
  simp only [readOpened, size, if_neg (Nat.ne_of_gt some), asked, Blob.reserve, checkCeiling,
    if_pos reaches]
  rfl

theorem readOpenedSound {b : Blob} (wf : b.WellFormed) (node : Node) :
    Sound (fun given => given.2.WellFormed) (readOpened b node) := by
  unfold readOpened
  split
  · exact wf
  · refine soundBind (Blob.reserveBounded wf _).sound fun room kept => ?_
    exact soundBind (Blob.collectWellFormed kept.1.wellFormed _ _) fun ended readWf => readWf

theorem readPathSound {b : Blob} (wf : b.WellFormed) (t : FileTree) (path : Bytes)
    (policy : LinkPolicy) (settings : FileSettings) :
    Sound (fun given => given.2.WellFormed) (readPath t b path policy settings) := by
  unfold readPath
  split
  · exact wf
  · exact wf
  · split
    · exact soundBind (Blob.appendAppending Blob.resetWellFormed _).sound fun _ extended =>
        extended.wellFormed
    · split
      · exact Blob.resetWellFormed
      · exact Blob.resetWellFormed
      · exact readOpenedSound Blob.resetWellFormed _

theorem loadSound {b : Blob} (wf : b.WellFormed) (host : Host) (path : Bytes) (policy : LinkPolicy)
    (settings : FileSettings) :
    Sound (fun given => given.2.1.WellFormed) (load host b path policy settings) := by
  unfold load
  split
  · exact soundBind (Blob.collectWellFormed Blob.resetWellFormed _ _) fun ended readWf => readWf
  · exact soundBind (readPathSound wf _ _ _ _) fun given readWf => readWf

end ArtifactVault.Transfer
