import ArtifactVault.Proofs.Envelope.Acceptance

/-! Where the content of an envelope goes. It is unwrapped into a blob of its own, over a destination
or in place; the bytes of the envelope decide what comes of it, and the three differ in what a fault
leaves alone. -/
namespace ArtifactVault.Envelope

theorem unwrapIntoEq (envelope destination : Blob) :
    unwrapInto envelope destination = .ok (match unwrapBytes envelope.content with
      | .ok content => (.ok content.length, Blob.held content)
      | .error fault => (.error fault, Blob.empty)) := by
  rw [unwrapInto]
  cases unwrapped : unwrapBytes envelope.content with
  | ok content =>
    have below := contentFits unwrapped
    simp only [Blob.ofBytesEq, if_neg (Nat.not_le_of_lt below)]
    rfl
  | error fault => rfl

theorem unwrapInPlaceEq (envelope : Blob) :
    unwrapInPlace envelope = .ok (match unwrapBytes envelope.content with
      | .ok content => (.ok content.length, Blob.held content)
      | .error fault => (.error fault, envelope)) := by
  rw [unwrapInPlace, unwrapIntoEq]
  cases unwrapBytes envelope.content with
  | ok content => rfl
  | error fault => rfl

theorem unwrapBytesIff (envelope content : Bytes) :
    unwrapBytes envelope = .ok content ↔ Encloses envelope content := by
  rw [unwrapBytesBy]
  exact unwrapByIff (contentOfAccepts _) content

def Reaches (envelope destination : Blob) : Except Fault Bytes → Prop
  | .ok content => ∃ b, Blob.Fresh content b ∧
      unwrap envelope = .ok (.ok b) ∧
      unwrapInto envelope destination = .ok (.ok content.length, b) ∧
      unwrapInPlace envelope = .ok (.ok content.length, b)
  | .error fault =>
      unwrap envelope = .ok (.error fault) ∧
      unwrapInto envelope destination = .ok (.error fault, Blob.empty) ∧
      unwrapInPlace envelope = .ok (.error fault, envelope)

theorem answerReaches (envelope destination : Blob) :
    Reaches envelope destination (unwrapBytes envelope.content) := by
  have alone := unwrapEq envelope
  have into := unwrapIntoEq envelope destination
  have inPlace := unwrapInPlaceEq envelope
  cases unwrapped : unwrapBytes envelope.content with
  | ok content =>
    rw [unwrapped] at alone into inPlace
    exact ⟨_, Blob.heldFresh (contentFits unwrapped), alone, into, inPlace⟩
  | error fault =>
    rw [unwrapped] at alone into inPlace
    exact ⟨alone, into, inPlace⟩

theorem destinationsAgree (bytes : Bytes) :
    ∃ answer : Except Fault Bytes, (∀ content, answer = .ok content ↔ Encloses bytes content) ∧
      ∀ envelope destination : Blob, envelope.content = bytes →
        Reaches envelope destination answer := by
  refine ⟨unwrapBytes bytes, unwrapBytesIff bytes, fun envelope destination same => ?_⟩
  rw [← same]
  exact answerReaches envelope destination

theorem cutReaches :
    let envelope : Blob := ⟨[0, 0, 0, 1, 0x78, 0x61], .borrowed, 5, 3, false⟩
    let destination : Blob := ⟨[0x26, 0x6c, 0x74, 0x3b, 0], .owned, 4, 1, true⟩
    ∃ fault, unwrap envelope = .ok (.error fault) ∧
      unwrapInto envelope destination = .ok (.error fault, Blob.empty) ∧
      unwrapInPlace envelope = .ok (.error fault, envelope) := by
  intro envelope destination
  obtain ⟨answer, -, reaches⟩ := destinationsAgree [0, 0, 0, 1, 0x78]
  have reached := reaches envelope destination rfl
  cases answer with
  | error fault => exact ⟨fault, reached⟩
  | ok content =>
    obtain ⟨b, -, unwrapped, -⟩ := reached
    have cut : unwrapBytes envelope.content = .error (.corrupt .truncated) := by decide
    rw [unwrapEq, cut] at unwrapped
    cases unwrapped

end ArtifactVault.Envelope
