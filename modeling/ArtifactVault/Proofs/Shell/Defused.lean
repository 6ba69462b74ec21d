import ArtifactVault.Proofs.Shell.Acceptance
import ArtifactVault.Proofs.Shell.PosixArguments
import ArtifactVault.Proofs.Shell.WindowsWords

/-! File names that are passed on in a list and such that go through a shell. Both ways accept the
framed names, whatever the flavour, and the command reads the same name in the end. -/
namespace ArtifactVault.Shell
open Blob (RoomFor emptyRoom)

section
variable {flavor : Flavor} {argument : Bytes}

theorem defuseIff : (∃ name, defuse flavor argument = .ok name) ↔ Framed argument := by
  constructor
  · rintro ⟨name, done⟩
    obtain ⟨quoting, checked, -⟩ := okBind done
    have sound := checkSound flavor argument none
    rw [checked] at sound
    exact framedOfScan sound
  · intro framed
    obtain ⟨quoting, scanned⟩ := scanOfFramed flavor framed false
    exact ⟨_, by rw [defuse, checkAccepted scanned]; rfl⟩

theorem defuseNames {name : Bytes} (done : defuse flavor argument = .ok name) :
    name = guardOf flavor argument true ++ argument := by
  obtain ⟨quoting, -, done⟩ := okBind done
  exact (Except.ok.inj done).symm

theorem argumentReadBack {quoting : Bool} (isFilename : Bool)
    (accepted : scan flavor false argument = .ok quoting) :
    words? flavor (argumentText flavor quoting argument isFilename) =
      some [guardOf flavor argument isFilename ++ argument] := by
  cases flavor with
  | posix => exact (argumentQuotation isFilename accepted).reads.alone
  | windows => exact (argumentReadsAs isFilename accepted).whole

theorem aloneReadBack {b line : Blob} {isFilename : Bool} (wf : b.WellFormed)
    (empty : b.content = []) (done : appendArgument b flavor argument isFilename = .ok line) :
    words? flavor line.content = some [guardOf flavor argument isFilename ++ argument] := by
  have sound := appendArgumentSound wf flavor argument isFilename
  rw [done] at sound
  obtain ⟨quoting, accepted, written⟩ := sound
  have start : b.mark.content = [] := empty
  have text : line.content = argumentText flavor quoting argument isFilename := by
    rw [written.content, start, empty]
    rfl
  rw [text]
  exact argumentReadBack isFilename accepted

end

theorem defusedAlike {b : Blob} {argument : Bytes} (empty : b.content = [])
    (room : RoomFor b (b.used + (2 * argument.length + 5))) :
    (∀ flavor other, (∃ name, defuse flavor argument = .ok name) ↔
      ∃ line, appendArgument b other argument true = .ok line) ∧
    ∀ flavor name line, defuse flavor argument = .ok name →
      appendArgument b flavor argument true = .ok line →
      words? flavor line.content = some [name] := by
  refine ⟨fun flavor other => defuseIff.trans (acceptedIff other true room).symm, ?_⟩
  intro flavor name line defused appended
  rw [defuseNames defused]
  exact aloneReadBack room.wellFormed empty appended

theorem dashesDefusedAlike :
    ∃ name line, defuse .windows (Bytes.ascii ['-', '-', '"']) = .ok name ∧
      appendArgument Blob.empty .windows (Bytes.ascii ['-', '-', '"']) true = .ok line ∧
      name = Bytes.ascii ['.', '\\', '-', '-', '"'] ∧ words? .windows line.content = some [name] := by
  obtain ⟨accepted, reads⟩ := @defusedAlike Blob.empty (Bytes.ascii ['-', '-', '"']) rfl
    (emptyRoom (by decide))
  have defused : defuse .windows (Bytes.ascii ['-', '-', '"']) =
      .ok (Bytes.ascii ['.', '\\', '-', '-', '"']) := by decide +kernel
  obtain ⟨line, appended⟩ := (accepted .windows .windows).mp ⟨_, defused⟩
  exact ⟨_, line, defused, appended, rfl, reads _ _ line defused appended⟩

end ArtifactVault.Shell
