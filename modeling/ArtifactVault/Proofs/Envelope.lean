import ArtifactVault.Envelope
import ArtifactVault.Proofs.Blob.Growth
import ArtifactVault.Proofs.Zlib

/-! Envelopes give back what was put into them. The header holds any length that two blobs can have
together, and a stream that reads back as its parts is never mistaken for a short envelope. -/
namespace ArtifactVault.Envelope

theorem contentFits {envelope content : Bytes} (unwrapped : unwrapBytes envelope = .ok content) :
    content.length < sizeCeiling := by
  unfold unwrapBytes at unwrapped
  split at unwrapped
  · cases unwrapped
    exact (by decide : 0 < sizeCeiling)
  · simp only at unwrapped
    split at unwrapped
    · cases unwrapped
    · unfold contentOf at unwrapped
      split at unwrapped
      · split at unwrapped
        · cases unwrapped
        · cases unwrapped
          omega
      · split at unwrapped <;> cases unwrapped
      · split at unwrapped <;> cases unwrapped

theorem unwrapEq (envelope : Blob) :
    unwrap envelope = .ok ((unwrapBytes envelope.content).map Blob.held) := by
  simp only [unwrap, unwrapInto]
  cases unwrapped : unwrapBytes envelope.content with
  | error fault => rfl
  | ok content =>
    have below := contentFits unwrapped
    simp only [Blob.ofBytesEq, if_neg (Nat.not_le_of_lt below)]
    rfl

def envelopeOf [Zlib.Encoder] (parts : List Bytes) : Bytes :=
  Zlib.word parts.flatten.length ++ Zlib.Encoder.encode parts

section
variable [Zlib.Encoder] {parts : List Bytes}

theorem wrapAllEq (small : parts.flatten.length < UInt32.size) :
    wrapAll parts = Blob.ofBytes (envelopeOf parts) := by
  rw [wrapAll, if_neg (Nat.not_le_of_lt small)]
  rfl

theorem wrappedContent {envelope : Blob} (wrapped : wrapAll parts = .ok envelope) :
    envelope.content = envelopeOf parts ∧ (envelopeOf parts).length < sizeCeiling := by
  by_cases small : parts.flatten.length < UInt32.size
  · rw [wrapAllEq small, Blob.ofBytesEq] at wrapped
    split at wrapped
    · cases wrapped
    · rw [← Except.ok.inj wrapped, Blob.heldContent]
      exact ⟨rfl, Nat.lt_of_not_le (by assumption)⟩
  · rw [wrapAll, if_pos (Nat.le_of_not_lt small)] at wrapped
    cases wrapped

theorem lengthEnvelopeOf :
    (envelopeOf parts).length = headerLength + (Zlib.Encoder.encode parts).length := by
  rw [envelopeOf, List.length_append, Zlib.lengthWord]
  rfl

theorem declaredOfEnvelope (small : parts.flatten.length < UInt32.size) :
    declaredLength? (envelopeOf parts) = some parts.flatten.length :=
  congrArg some (Zlib.ofWordWord small)

variable [Zlib.LawfulEncoder]

theorem streamFilled : 0 < (Zlib.Encoder.encode parts).length := by
  have whole := Zlib.LawfulEncoder.decode_encode parts
  cases stream : Zlib.Encoder.encode parts with
  | nil =>
    rw [stream] at whole
    cases whole
  | cons byte rest => exact Nat.succ_pos _

theorem contentOfStream :
    contentOf parts.flatten.length (Zlib.Encoder.encode parts) = .ok parts.flatten := by
  rw [contentOf, Zlib.LawfulEncoder.decode_encode]
  exact if_neg (Nat.lt_irrefl _)

theorem unwrapBytesOfEnvelope (fits : parts.flatten.length + 1 < sizeCeiling) :
    unwrapBytes (envelopeOf parts) = .ok parts.flatten := by
  have filled : 0 < (Zlib.Encoder.encode parts).length := streamFilled
  have small : parts.flatten.length < UInt32.size := by
    have word : sizeCeiling < UInt32.size := by decide
    omega
  have long : ¬ (envelopeOf parts).length ≤ headerLength := by
    rw [lengthEnvelopeOf]
    omega
  have stream : (envelopeOf parts).drop headerLength = Zlib.Encoder.encode parts := rfl
  rw [unwrapBytes, if_neg long, declaredOfEnvelope small, Option.getD_some,
    if_neg (Nat.not_le_of_lt fits), stream, contentOfStream]

theorem unwrapOfEnvelope {envelope : Blob} (content : envelope.content = envelopeOf parts)
    (fits : parts.flatten.length + 1 < sizeCeiling) :
    unwrap envelope = .ok (.ok (Blob.held parts.flatten)) := by
  rw [unwrapEq, content, unwrapBytesOfEnvelope fits]
  rfl

theorem unwrapBytesOfSingle {content : Bytes} (fits : content.length + 1 < sizeCeiling) :
    unwrapBytes (envelopeOf [content]) = .ok content := by
  have single : [content].flatten = content := List.flatten_singleton
  have unwraps := @unwrapBytesOfEnvelope _ [content] _ (by rw [single]; exact fits)
  rw [single] at unwraps
  exact unwraps

theorem unwrapOfSingle {envelope : Blob} {content : Bytes}
    (wrapped : envelope.content = envelopeOf [content]) (fits : content.length + 1 < sizeCeiling) :
    unwrap envelope = .ok (.ok (Blob.held content)) := by
  rw [unwrapEq, wrapped, unwrapBytesOfSingle fits]
  rfl

end

def RoundTrips (content stream : Bytes) : Except Abort Blob → Prop
  | .ok envelope =>
    envelope.content = Zlib.word content.length ++ stream ∧
    declaredLength? envelope.content = some content.length ∧
    (content.length + 1 < sizeCeiling →
      ∃ b, unwrap envelope = .ok (.ok b) ∧ b.content = content)
  | .error cause =>
    cause = .ceiling .ofBytes (4 + stream.length) ∧ sizeCeiling ≤ 4 + stream.length

theorem wrapAllRoundTrips [Zlib.Encoder] [Zlib.LawfulEncoder] {parts : List Bytes}
    (small : parts.flatten.length < UInt32.size) :
    RoundTrips parts.flatten (Zlib.Encoder.encode parts) (wrapAll parts) := by
  rw [wrapAllEq small, Blob.ofBytesEq, lengthEnvelopeOf]
  split
  · exact ⟨rfl, by assumption⟩
  · have content := Blob.heldContent (envelopeOf parts)
    refine ⟨content, ?_, fun fits => ?_⟩
    · rw [content]
      exact declaredOfEnvelope small
    · exact ⟨_, unwrapOfEnvelope content fits, Blob.heldContent _⟩

theorem wrapsRoundTrip [Zlib.Encoder] [Zlib.LawfulEncoder] {first second : Blob}
    (firstBelow : first.content.length < sizeCeiling)
    (secondBelow : second.content.length < sizeCeiling) :
    RoundTrips (first.content ++ second.content)
        (Zlib.Encoder.encode [first.content, second.content]) (wrapPair first second) ∧
      RoundTrips first.content (Zlib.Encoder.encode [first.content]) (wrap first) := by
  have ceiling : sizeCeiling = 0x7fff0000 := rfl
  have pair : [first.content, second.content].flatten = first.content ++ second.content := by simp
  have single : [first.content].flatten = first.content := by simp
  have both := @wrapAllRoundTrips _ _ [first.content, second.content] (by
    rw [pair, List.length_append, UInt32.size]
    omega)
  have one := @wrapAllRoundTrips _ _ [first.content] (by
    rw [single, UInt32.size]
    omega)
  rw [pair] at both
  rw [single] at one
  exact ⟨both, one⟩

theorem wrapsOfLetters :
    RoundTrips [0x61, 0x62] (Zlib.encode [0x61, 0x62])
        (wrapPair (Blob.held [0x61]) (Blob.held [0x62])) ∧
      RoundTrips [0x61] (Zlib.encode [0x61]) (wrap (Blob.held [0x61])) :=
  wrapsRoundTrip (by decide) (by decide)

end ArtifactVault.Envelope
