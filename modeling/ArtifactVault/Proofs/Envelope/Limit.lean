import ArtifactVault.Proofs.Deflate.Sizes
import ArtifactVault.Proofs.Envelope

/-! Up to what size envelopes can be read again. The header holds lengths that no blob has, and
reading asks for one byte of room behind the content, so what is written from the ceiling on, or one
byte below it, is refused for its length. -/
namespace ArtifactVault.Envelope

def readBack (content : Bytes) : Except Fault Blob :=
  if sizeCeiling ≤ content.length + 1 then .error (.declaredTooLarge content.length)
  else .ok (Blob.held content)

section
variable [Zlib.Encoder] [Zlib.LawfulEncoder] {parts : List Bytes} {envelope : Blob}

theorem unwrapBytesTooLarge (small : parts.flatten.length < UInt32.size)
    (large : sizeCeiling ≤ parts.flatten.length + 1) :
    unwrapBytes (envelopeOf parts) = .error (.declaredTooLarge parts.flatten.length) := by
  have filled : 0 < (Zlib.Encoder.encode parts).length := streamFilled
  have long : ¬ (envelopeOf parts).length ≤ headerLength := by
    rw [lengthEnvelopeOf]
    omega
  rw [unwrapBytes, if_neg long, declaredOfEnvelope small, Option.getD_some, if_pos large]

theorem unwrapOfWrapped (small : parts.flatten.length < UInt32.size)
    (wrapped : wrapAll parts = .ok envelope) :
    unwrap envelope = .ok (readBack parts.flatten) := by
  have content := (wrappedContent wrapped).1
  rw [readBack]
  split
  · rw [unwrapEq, content, unwrapBytesTooLarge small (by assumption)]
    rfl
  · exact unwrapOfEnvelope content (Nat.lt_of_not_le (by assumption))

theorem refusedOnlyAtCeiling {first second : Blob}
    (firstBelow : first.content.length < sizeCeiling)
    (secondBelow : second.content.length < sizeCeiling) :
    (∀ envelope, wrapPair first second = .ok envelope →
        unwrap envelope = .ok (readBack (first.content ++ second.content))) ∧
      ∀ envelope, wrap first = .ok envelope → unwrap envelope = .ok (readBack first.content) := by
  have ceiling : sizeCeiling = 0x7fff0000 := rfl
  have pair : [first.content, second.content].flatten = first.content ++ second.content := by simp
  have single : [first.content].flatten = first.content := by simp
  refine ⟨fun envelope wrapped => ?_, fun envelope wrapped => ?_⟩
  · rw [← pair]
    refine unwrapOfWrapped ?_ wrapped
    rw [pair, List.length_append, UInt32.size]
    omega
  · rw [← single]
    refine unwrapOfWrapped ?_ wrapped
    rw [single, UInt32.size]
    omega

end

theorem lengthStream (bytes : Bytes) :
    (Zlib.encode bytes).length ≤ 4 * (Deflate.tokenize bytes.toArray).length + 8 := by
  have bits := Deflate.lengthEncode bytes
  have packed := Bits.lengthPackLe (Deflate.encode bytes)
  rw [Zlib.lengthEncode]
  omega

theorem wrapAllFits {parts : List Bytes} (small : parts.flatten.length < UInt32.size)
    (fits : 4 * (Deflate.tokenize parts.flatten.toArray).length + 12 < sizeCeiling) :
    wrapAll parts = .ok (Blob.held (envelopeOf parts)) := by
  have stream : Zlib.Encoder.encode parts = Zlib.encode parts.flatten := rfl
  have length := lengthStream parts.flatten
  have header : headerLength = 4 := rfl
  rw [wrapAllEq small, Blob.ofBytesEq, if_neg]
  rw [lengthEnvelopeOf, stream]
  omega

theorem lettersReadBack :
    ∃ pair single, wrapPair (Blob.held [0x61]) (Blob.held [0x62]) = .ok pair ∧
      wrap (Blob.held [0x61]) = .ok single ∧
      unwrap pair = .ok (.ok (Blob.held [0x61, 0x62])) ∧
      unwrap single = .ok (.ok (Blob.held [0x61])) := by
  have fits {parts : List Bytes} (few : parts.flatten.length ≤ 2) :
      wrapAll parts = .ok (Blob.held (envelopeOf parts)) := by
    have tokens := Deflate.lengthTokenize parts.flatten.toArray
    have ceiling : sizeCeiling = 0x7fff0000 := rfl
    rw [List.size_toArray] at tokens
    exact wrapAllFits (by rw [UInt32.size]; omega) (by omega)
  have below : (Blob.held [0x61]).content.length < sizeCeiling ∧
      (Blob.held [0x62]).content.length < sizeCeiling := by decide
  obtain ⟨pair, single⟩ := refusedOnlyAtCeiling below.1 below.2
  exact ⟨_, _, fits (by decide), fits (by decide), pair _ (fits (by decide)),
    single _ (fits (by decide))⟩

def longestRun : Bytes := List.replicate (sizeCeiling - 1) 0x61

theorem longestRunRefused :
    longestRun.length < sizeCeiling ∧
      ∃ envelope, wrap (Blob.held longestRun) = .ok envelope ∧
        unwrap envelope = .ok (.error (.declaredTooLarge (sizeCeiling - 1))) := by
  have ceiling : sizeCeiling = 0x7fff0000 := rfl
  have length : longestRun.length = sizeCeiling - 1 := List.length_replicate
  have single : [(Blob.held longestRun).content].flatten = longestRun := by
    rw [Blob.heldContent, List.flatten_singleton]
  have tokens : (Deflate.tokenize longestRun.toArray).length ≤ (sizeCeiling - 1) / 258 + 4 := by
    rw [longestRun, List.toArray_replicate]
    exact Deflate.lengthTokenizeRun _ _
  have small : [(Blob.held longestRun).content].flatten.length < UInt32.size := by
    rw [single, length, UInt32.size]
    omega
  have wrapped := wrapAllFits small (by rw [single]; omega)
  refine ⟨by omega, _, wrapped, ?_⟩
  rw [unwrapOfWrapped small wrapped, single, readBack, length, if_pos (by omega)]

end ArtifactVault.Envelope
