import ArtifactVault.Proofs.Lifetime

/-! The canonical empty blob. `isReset` does not look at the mark, but a marked blob is owned and a
reset one is borrowed; so in every life a blob that is reset is the one that nothing was done to. -/
namespace ArtifactVault.Blob
variable {b : Blob}

theorem isResetIff : b.isReset = true ↔
    b.ownership = .borrowed ∧ b.used = 0 ∧ b.cursor = 0 ∧ b.store = [0] := by
  simp only [isReset, Bool.and_eq_true, decide_eq_true_eq]
  tauto

theorem pureSqlIff : b.isPureSql = true ↔ b.formatted = false := by
  rw [isPureSql, Bool.not_eq_true']

theorem MarkOwned.pureSql (held : b.MarkOwned) (borrowed : b.ownership = .borrowed) :
    b.isPureSql = true := by
  rw [pureSqlIff, ← Bool.not_eq_true]
  intro marked
  cases borrowed.symm.trans (held marked)

theorem MarkOwned.emptyOfReset (held : b.MarkOwned) (reset : b.isReset = true) : b = empty := by
  obtain ⟨borrowed, used, cursor, store⟩ := isResetIff.mp reset
  have unmarked := pureSqlIff.mp (held.pureSql borrowed)
  obtain ⟨_, _, _, _, _⟩ := b
  cases borrowed
  cases used
  cases cursor
  cases store
  cases unmarked
  rfl

theorem setHeld (blobs : Registers) (register : Nat) :
    blobs.set register (blobs register) = blobs := by
  funext other
  unfold Registers.set
  split
  · rename_i same
    rw [same]
  · rfl

end ArtifactVault.Blob

namespace ArtifactVault.Lifetime
open Blob

theorem resetMeansNew [Zlib.Encoder] {events : List Event} {blobs : Registers}
    (lived : live blank events = .ok blobs) (register : Nat) :
    ((blobs register).isPureSql = false → (blobs register).ownership = .owned) ∧
    ((blobs register).isReset = true ↔ (blobs register).ownership = .borrowed ∧
      (blobs register).used = empty.used ∧ (blobs register).cursor = empty.cursor ∧
      (blobs register).isPureSql = empty.isPureSql ∧ (blobs register).store = empty.store) ∧
    ((blobs register).isReset = true →
      ∀ event, occur (blobs.set register empty) event = occur blobs event) := by
  have held : (blobs register).MarkOwned := (liveRegular blankRegular lived register).markOwned
  refine ⟨fun marked => ?_, ⟨fun reset => ?_, fun same => ?_⟩, fun reset event => ?_⟩
  · exact held ((Bool.not_eq_false' _).mp marked)
  · rw [held.emptyOfReset reset]
    exact ⟨rfl, rfl, rfl, rfl, rfl⟩
  · obtain ⟨borrowed, used, cursor, -, store⟩ := same
    exact isResetIff.mpr ⟨borrowed, used, cursor, store⟩
  · rw [← held.emptyOfReset reset, setHeld]

def nothingWritten : List Event :=
  [.act (.operate (.text 0 (.html ""))), .wrap 1 0, .unwrap 1 1]

theorem nothingWrittenReset : ∃ blobs, live blank nothingWritten = .ok blobs ∧
    (blobs 0).isPureSql = false ∧ (blobs 0).ownership = .owned ∧ (blobs 0).content = [] ∧
    (blobs 1).isReset = true ∧ (blobs 1).isPureSql = true ∧
    ∀ event, occur (blobs.set 1 empty) event = occur blobs event := by
  have state : (live blank nothingWritten).toOption.map (fun blobs =>
      ((blobs 0).isPureSql, (blobs 0).content, (blobs 1).isReset)) = some (false, [], true) := by
    decide +kernel
  cases lived : live blank nothingWritten with
  | error cause =>
    rw [lived] at state
    cases state
  | ok blobs =>
    rw [lived] at state
    obtain ⟨marked, rest⟩ := Prod.mk.inj (Option.some.inj state)
    obtain ⟨content, reset⟩ := Prod.mk.inj rest
    obtain ⟨owned, -⟩ := resetMeansNew lived 0
    obtain ⟨-, same, behaves⟩ := resetMeansNew lived 1
    obtain ⟨-, -, -, unmarked, -⟩ := same.mp reset
    exact ⟨blobs, rfl, marked, owned marked, content, reset, unmarked, behaves reset⟩

theorem ownedZeroNotReset : ∃ blobs, live blank [.act (.operate (.edit 0 .materialize))] = .ok blobs ∧
    (blobs 0).used = empty.used ∧ (blobs 0).cursor = empty.cursor ∧
    (blobs 0).isPureSql = empty.isPureSql ∧ (blobs 0).store = empty.store ∧
    (blobs 0).isReset = false :=
  ⟨_, rfl, rfl, rfl, rfl, rfl, rfl⟩

end ArtifactVault.Lifetime
