import ArtifactVault.Proofs.Blob.Compose
import ArtifactVault.Proofs.Blob.Cursor

/-! Every way to append is the plain append. A single byte, a run of one byte and a part of the
content itself have code of their own, and yet they end in the same blob, bytes behind the content
included, or in the same abort; the formatter's write differs by the mark alone. -/
namespace ArtifactVault.Blob
variable {b : Blob}

theorem reallocateMarked (b : Blob) (size : Nat) :
    b.mark.reallocate size = (b.reallocate size).mark := by
  let resized : Blob := { b with store := b.resizedStore size, ownership := .owned }
  by_cases nothing : size = 0
  · rw [reallocate, reallocate, if_pos nothing, if_pos nothing]
    rfl
  · rw [reallocate, reallocate, if_neg nothing, if_neg nothing]
    change (if resized.capacity < resized.used then _ else _) = mark (if _ then _ else _)
    split <;> rfl

theorem growForAppendMarked (b : Blob) (extra : Nat) :
    b.mark.growForAppend extra = (b.growForAppend extra).map mark := by
  have marked : b.mark.growForAppend extra =
      if wordLimit ≤ b.used + extra then .error .lengthOverflow
      else if b.capacity ≤ b.used + extra ∨ b.ownership = .borrowed then do
        checkCeiling (saturate (b.used + extra + b.capacity + appendPad)) .append
        return (b.reallocate (saturate (b.used + extra + b.capacity + appendPad))).mark
      else .ok b.mark := by
    rw [← reallocateMarked]
    rfl
  rw [marked, growForAppendEq]
  split
  · rfl
  · split
    · cases checkCeiling (saturate (b.used + extra + b.capacity + appendPad)) .append <;> rfl
    · rfl

theorem writeMarked (b : Blob) (start : Nat) (bytes : Bytes) :
    b.mark.write start bytes = (b.write start bytes).map mark := by
  obtain ⟨store, ownership, used, cursor, formatted⟩ := b
  cases ownership with
  | borrowed => rfl
  | owned =>
    simp only [write, mark]
    cases overwrite store start bytes <;> rfl

theorem extendMarked (b : Blob) (bytes : Bytes) :
    b.mark.extend bytes = (b.extend bytes).map mark := by
  have written : b.mark.write b.mark.used (bytes ++ [0]) = (b.write b.used (bytes ++ [0])).map mark :=
    writeMarked b b.used (bytes ++ [0])
  rw [extend, extend, written]
  cases b.write b.used (bytes ++ [0]) <;> rfl

theorem writeTextAlike (b : Blob) (text : String) :
    b.writeText text = (b.append (Utf8.ofString text)).map mark := by
  rw [writeText, append, append, growForAppendMarked]
  cases b.growForAppend (Utf8.ofString text).length with
  | error cause => rfl
  | ok g => exact extendMarked g _

theorem appendEnds {bytes : Bytes} {e : Blob} (wf : b.WellFormed) (done : b.append bytes = .ok e) :
    Extended b bytes e := by
  have ended := (appendAppending wf bytes).sound
  rw [done] at ended
  exact ended

theorem appendsAlike (wf : b.WellFormed) :
    (∀ byte, b.appendByte byte = b.append [byte]) ∧
    (∀ byte count, b.appendRepeat byte count = b.append (List.replicate count byte)) ∧
    (∀ start stop, start ≤ stop → stop ≤ b.used →
      b.appendFromSelf start stop = b.append (b.part start stop)) ∧
    (∀ bytes, b.offer bytes = (b.append bytes).map fun e => (bytes.length, e)) ∧
    (∀ bytes, b.offerAll bytes = b.append bytes) ∧
    (∀ text, b.writeText text = (b.append (Utf8.ofString text)).map mark) ∧
    ∀ bytes e, b.append bytes = .ok e → e.content = b.content ++ bytes ∧ e.cursor = b.cursor ∧
      e.formatted = b.formatted ∧ e.ownership = .owned ∧ e.store[e.used]? = some 0 := by
  refine ⟨appendByteAlike wf, appendRepeatAlike b, fun _ _ => appendFromSelfAlike wf, ?_, ?_,
    writeTextAlike b, ?_⟩
  · intro bytes
    rw [offer]
    cases b.append bytes <;> rfl
  · exact fun _ => rfl
  · intro bytes e done
    have ended := appendEnds wf done
    exact ⟨ended.content, ended.cursor, ended.formatted, ended.owned, ended.terminated⟩

theorem fullStoreAlike : ∃ e, (Blob.mk [0x61, 0x62, 0x00] .owned 2 1 true).appendByte 0x63 = .ok e ∧
    e.content = [0x61, 0x62, 0x63] ∧ e.cursor = 1 ∧ e.store[e.used]? = some 0 := by
  obtain ⟨byte, -, -, -, -, -, ended⟩ :=
    @appendsAlike ⟨[0x61, 0x62, 0x00], .owned, 2, 1, true⟩ ⟨by decide, by decide, by decide⟩
  obtain ⟨e, done⟩ : ∃ e, (Blob.mk [0x61, 0x62, 0x00] .owned 2 1 true).append [0x63] = .ok e :=
    ⟨_, rfl⟩
  obtain ⟨content, cursor, -, -, terminated⟩ := ended _ e done
  exact ⟨e, (byte 0x63).trans done, content, cursor, terminated⟩

end ArtifactVault.Blob
