import ArtifactVault.Lifetime
import ArtifactVault.Proofs.Blob.Ownership
import ArtifactVault.Proofs.Envelope.Destinations
import ArtifactVault.Proofs.Transfer

/-! What every life keeps: blobs are well formed, and those that are marked are owned. Content from
elsewhere comes in blobs that were never marked, or is appended; a fault leaves the blob as it was,
or empty. -/
namespace ArtifactVault.Blob
variable {b e : Blob}

theorem collectAcquired {limit : Option Nat} {source : Source}
    {ended : Except SystemError Nat × Blob × Source} (done : b.collect limit source = .ok ended) :
    Acquired b ended.2.1 := by
  fun_induction collect b limit source with
  | case2 b limit source asks byte bytes rest read longer appended ih =>
    exact Acquired.trans (.inl (appendOwned appended)) (ih done)
  | case3 => cases done
  | case4 b limit source asks rest read ih => exact ih done
  | case1 | case5 | case6 =>
    cases done
    exact .inr rfl

end ArtifactVault.Blob

namespace ArtifactVault.Transfer
open Blob
variable {b : Blob}

theorem readOpenedAcquired {node : Node} {given : Except TransferError Nat × Blob}
    (done : readOpened b node = .ok given) : Acquired b given.2 := by
  unfold readOpened at done
  split at done
  · cases done
    exact .inr rfl
  · obtain ⟨room, reserved, done⟩ := okBind done
    obtain ⟨ended, collected, same⟩ := okBind done
    cases same
    exact (reserveAcquired reserved).trans (collectAcquired collected)

theorem readPathMarkOwned {t : FileTree} {path : Bytes} {policy : LinkPolicy}
    {settings : FileSettings} {given : Except TransferError Nat × Blob} (held : b.MarkOwned)
    (done : readPath t b path policy settings = .ok given) : given.2.MarkOwned := by
  have empty : b.reset.MarkOwned := markOwnedUnmarked rfl
  unfold readPath at done
  split at done
  · cases done
    exact held
  · cases done
    exact held
  · split at done
    · obtain ⟨extended, appended, same⟩ := okBind done
      cases same
      exact fun _ => appendOwned appended
    · split at done
      · cases done
        exact empty
      · cases done
        exact empty
      · exact empty.acquired (readOpenedAcquired done)

theorem loadMarkOwned {host : Host} {path : Bytes} {policy : LinkPolicy} {settings : FileSettings}
    {given : Except TransferError Nat × Blob × Host} (held : b.MarkOwned)
    (done : load host b path policy settings = .ok given) : given.2.1.MarkOwned := by
  have empty : b.reset.MarkOwned := markOwnedUnmarked rfl
  unfold load at done
  split at done
  · obtain ⟨ended, collected, same⟩ := okBind done
    cases same
    exact empty.acquired (collectAcquired collected)
  · obtain ⟨read, opened, same⟩ := okBind done
    cases same
    exact readPathMarkOwned held opened

end ArtifactVault.Transfer

namespace ArtifactVault.Lifetime
open Blob
variable {b : Blob} {blobs after : Registers}

structure Regular (b : Blob) : Prop where
  wellFormed : b.WellFormed
  markOwned : b.MarkOwned

theorem freshRegular {bytes : Bytes} (fresh : Fresh bytes b) : Regular b :=
  ⟨fresh.wellFormed, markOwnedUnmarked fresh.formatted⟩

theorem blankRegular (register : Nat) : Regular (blank register) := freshRegular emptyFresh

theorem stepRegular (regular : ∀ register, Regular (blobs register)) {operation : Operation}
    (done : step blobs operation = .ok after) : ∀ register, Regular (after register) := by
  have kept : Kept blobs := fun register => (regular register).wellFormed
  have still := stepSound kept operation
  rw [done] at still
  have owned := stepMarkOwned kept (fun register => (regular register).markOwned) done
  exact fun register => ⟨still register, owned register⟩

theorem actRegular (regular : ∀ register, Regular (blobs register)) {action : Action}
    {given : Answer × Registers} (done : Blob.act blobs action = .ok given) :
    ∀ register, Regular (given.2 register) := by
  cases action with
  | operate operation =>
    obtain ⟨answer, -, done⟩ := okBind done
    obtain ⟨stepped, operated, same⟩ := okBind done
    cases same
    exact stepRegular regular operated
  | ask | compare =>
    cases done
    exact regular

theorem wrapAllRegular [Zlib.Encoder] {parts : List Bytes}
    (done : Envelope.wrapAll parts = .ok b) : Regular b := by
  unfold Envelope.wrapAll at done
  dsimp only at done
  split at done
  · cases done
  · have fresh := ofBytesSound (Zlib.word parts.flatten.length ++ Zlib.Encoder.encode parts)
    change ofBytes _ = .ok b at done
    rw [done] at fresh
    exact freshRegular fresh

theorem heldRegular {envelope content : Bytes}
    (unwrapped : Envelope.unwrapBytes envelope = .ok content) : Regular (held content) :=
  freshRegular (heldFresh (Envelope.contentFits unwrapped))

theorem unwrapIntoRegular {envelope destination : Blob} {given : Except Envelope.Fault Nat × Blob}
    (done : Envelope.unwrapInto envelope destination = .ok given) : Regular given.2 := by
  rw [Envelope.unwrapIntoEq] at done
  cases done
  split
  · exact heldRegular ‹_›
  · exact freshRegular emptyFresh

theorem unwrapInPlaceRegular {given : Except Envelope.Fault Nat × Blob} (regular : Regular b)
    (done : Envelope.unwrapInPlace b = .ok given) : Regular given.2 := by
  rw [Envelope.unwrapInPlaceEq] at done
  cases done
  split
  · exact heldRegular ‹_›
  · exact regular

theorem readStreamRegular {limit : Option Nat} {source : Source}
    {ended : Except SystemError Nat × Blob × Source}
    (done : b.readStream limit source = .ok ended) : Regular ended.2.1 := by
  have sound := collectWellFormed (resetWellFormed (b := b)) limit source
  have empty : b.reset.MarkOwned := markOwnedUnmarked rfl
  unfold readStream at done
  rw [done] at sound
  exact ⟨sound, empty.acquired (collectAcquired done)⟩

theorem loadRegular {host : Host} {path : Bytes} {policy : LinkPolicy} {settings : FileSettings}
    {given : Except TransferError Nat × Blob × Host} (regular : Regular b)
    (done : Transfer.load host b path policy settings = .ok given) : Regular given.2.1 := by
  have sound := Transfer.loadSound regular.wellFormed host path policy settings
  rw [done] at sound
  exact ⟨sound, Transfer.loadMarkOwned regular.markOwned done⟩

variable [Zlib.Encoder]

theorem occurRegular (regular : ∀ register, Regular (blobs register)) {event : Event}
    {given : Reply × Registers} (done : occur blobs event = .ok given) :
    ∀ register, Regular (given.2 register) := by
  cases event with
  | act action =>
    obtain ⟨answered, acted, same⟩ := okBind done
    cases same
    exact actRegular regular acted
  | inspect source =>
    cases done
    exact regular
  | wrap | wrapPair =>
    obtain ⟨envelope, wrapped, same⟩ := okBind done
    cases same
    exact setEach regular (wrapAllRegular wrapped)
  | unwrap target source =>
    obtain ⟨answered, unwrapped, same⟩ := okBind done
    cases same
    exact setEach regular (unwrapIntoRegular unwrapped)
  | unwrapInPlace target =>
    obtain ⟨answered, unwrapped, same⟩ := okBind done
    cases same
    exact setEach regular (unwrapInPlaceRegular (regular target) unwrapped)
  | readStream target limit source =>
    obtain ⟨ended, read, same⟩ := okBind done
    cases same
    exact setEach regular (readStreamRegular read)
  | load target host path policy settings =>
    obtain ⟨ended, loaded, same⟩ := okBind done
    cases same
    exact setEach regular (loadRegular (regular target) loaded)

theorem liveRegular {events : List Event} (regular : ∀ register, Regular (blobs register))
    (lived : live blobs events = .ok after) : ∀ register, Regular (after register) := by
  induction events generalizing blobs with
  | nil =>
    cases lived
    exact regular
  | cons event events ih =>
    obtain ⟨next, occurred, lived⟩ := okBind lived
    obtain ⟨given, done, same⟩ := okBind occurred
    cases same
    exact ih (occurRegular regular done) lived

end ArtifactVault.Lifetime
