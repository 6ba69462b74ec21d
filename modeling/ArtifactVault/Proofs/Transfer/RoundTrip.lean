import ArtifactVault.Proofs.FileTree.Outputs
import ArtifactVault.Proofs.Transfer

/-! A file that is written is read back by the same path. What stands beside it is as it was, but for
the directories that were made. -/
namespace ArtifactVault.Transfer
open FileTree

section
variable {host after : Host} {b : Blob} {path : Bytes} {count : Nat}

theorem savePath (filled : path ≠ []) (notDash : path ≠ dash)
    (saved : save host b path = (.ok count, after)) :
    writePath host.files b.content path = (.ok count, after.files) ∧
      isStandardStream path = false := by
  have named : isStandardStream path = false := by
    rw [isStandardStream, decide_eq_false filled, decide_eq_false notDash]
    rfl
  rw [save, named, if_neg Bool.false_ne_true] at saved
  obtain ⟨fine, rfl⟩ := Prod.mk.inj saved
  exact ⟨Prod.ext fine rfl, named⟩

theorem otherFiles {t made now : FileTree} {place other : Place} {bytes content : Bytes}
    (gains : t.GainsDirectories made)
    (changed : ∀ other, now.node? other =
      if other = place then some (.file bytes) else made.node? other)
    (apart : other ≠ place) :
    now.node? other = some (.file content) ↔ t.node? other = some (.file content) := by
  rw [changed, if_neg apart]
  refine ⟨fun found => ?_, gains.keeps other _⟩
  exact (gains.gains other _ found).resolve_right nofun

theorem loadSaved (closed : host.files.Closed) (filled : path ≠ []) (notDash : path ≠ dash)
    (fits : b.content.length + 1 < sizeCeiling) (saved : save host b path = (.ok count, after)) :
    count = b.content.length ∧
    (∀ receiver settings, ∃ r,
      load after receiver path .follow settings = .ok (.ok b.content.length, r, after) ∧
        r.content = b.content) ∧
    ∃ place, after.files.resolve .target path = .ok place ∧
      ∀ other ≠ place, ∀ content, after.files.node? other = some (.file content) ↔
        host.files.node? other = some (.file content) := by
  obtain ⟨wrote, named⟩ := savePath filled notDash saved
  obtain ⟨counted, -, place, resolved, changed⟩ := writePathPlace closed wrote
  obtain ⟨-, found⟩ := writePathFound closed wrote
  have gains := prepareParentGains host.files path
  exact ⟨counted, loadFound named found fits, place, resolved, fun _ apart _ =>
    otherFiles gains changed apart⟩

end

def linked : FileTree :=
  (FileTree.empty.insert [[0x6c]] (.link [0x66])).insert [[0x66]] (.file [0x62, 0x63])

theorem linkedClosed : linked.Closed := by
  have link : (FileTree.empty.insert [[0x6c]] (.link [0x66])).Closed :=
    @Closed.insert _ [] (.link [0x66]) closedEmpty [0x6c] rfl nofun
  exact @Closed.insert _ [] (.file [0x62, 0x63]) link [0x66] rfl nofun

theorem linkedResolved : linked.resolve .output [0x6c] = .ok [[0x66]] := by
  have enters : ¬ (Goal.output = .output ∧ ([] : List Bytes) = [[]]) := by decide
  have follows : ¬ (([] : List Bytes) = [] ∧ Goal.output = .itself) := by decide
  have link : Plain [0x6c] := ⟨⟨by decide, by decide⟩, by decide⟩
  have file : Plain [0x66] := ⟨⟨by decide, by decide⟩, by decide⟩
  have across : linked.walk .output mostLinks [] [[0x6c]] = linked.walk .output 39 [] [[0x66]] :=
    @walkLink linked .output 39 [] [0x6c] [] [0x66] rfl link enters rfl follows
  have down : linked.walk .output 39 [] [[0x66]] = linked.walk .output 39 [[0x66]] [] :=
    walkDown rfl file enters rfl nofun
  refine resolveIff.mpr ⟨rfl, (across.trans down).trans ?_⟩
  rw [walk]

theorem linkedSaved : save ⟨linked, [], []⟩ (Blob.held [0x61]) [0x6c] =
    (.ok 1, ⟨linked.written [[0x66]] [0x61], [], []⟩) := by
  have wrote : writePath linked [0x61] [0x6c] = (.ok 1, linked.written [[0x66]] [0x61]) :=
    writePathPrepared (prepareParentTop rfl) linkedResolved nofun
  have named : isStandardStream [0x6c] = false := by decide
  rw [save, named, Blob.heldContent, wrote]
  rfl

theorem linkedLoaded :
    let after : Host := ⟨linked.written [[0x66]] [0x61], [], []⟩
    linked.Closed ∧ save ⟨linked, [], []⟩ (Blob.held [0x61]) [0x6c] = (.ok 1, after) ∧
      (∃ r, load after (Blob.held [0x78, 0x79, 0x7a]) [0x6c] .follow .standard =
        .ok (.ok 1, r, after) ∧ r.content = [0x61]) ∧
      ∃ place, after.files.resolve .target [0x6c] = .ok place ∧
        ∀ other ≠ place, ∀ content, after.files.node? other = some (.file content) ↔
          linked.node? other = some (.file content) := by
  intro after
  obtain ⟨-, loads, beside⟩ :=
    @loadSaved ⟨linked, [], []⟩ after (Blob.held [0x61]) [0x6c] 1 linkedClosed
      (List.cons_ne_nil _ _) (by decide) (by decide) linkedSaved
  exact ⟨linkedClosed, linkedSaved, loads _ _, beside⟩

end ArtifactVault.Transfer
