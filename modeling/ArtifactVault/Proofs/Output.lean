import ArtifactVault.Main
import ArtifactVault.Proofs.Blob.Compose
import ArtifactVault.Proofs.Stream.Writer

/-! What an output has taken once a write to it has succeeded: all that was offered, behind what it
had before, in however many calls. A writer without a script takes what it has room for, and what is
offered in pieces is taken as if it were offered at once. -/
namespace ArtifactVault

namespace Output
open CommandLine (written)

def WellFormed : Output → Prop
  | buffer b => b.WellFormed
  | channel _ => True

variable {out later : Output} {bytes : Bytes} {pieces : List String}

theorem appendWritten (wf : out.WellFormed) (done : out.append bytes = .ok (.ok (), later)) :
    written later = written out ++ bytes := by
  cases out with
  | buffer b =>
    obtain ⟨next, appended, done⟩ := okBind done
    cases done
    have sound := (Blob.appendAppends bytes).sound b wf
    simp only at appended sound
    rw [appended] at sound
    exact sound.content
  | channel w =>
    cases wrote : w.writeAll bytes with
    | mk outcome next =>
      simp only [append, deliver, wrote] at done
      cases done
      exact Writer.writeAllTakes wrote

theorem writeTextsTakes {w next : Writer} (done : writeTexts w pieces = (.ok (), next)) :
    next.taken = w.taken ++ pieces.flatMap Utf8.ofString := by
  induction pieces generalizing w with
  | nil =>
    cases done
    exact (List.append_nil _).symm
  | cons text pieces ih =>
    rw [writeTexts] at done
    split at done
    · rename_i later wrote
      rw [ih done, Writer.writeAllTakes wrote, List.flatMap_cons, List.append_assoc]
    · cases done

theorem writeTextsUnlimited (taken : Bytes) (flushes : Nat) (pieces : List String) :
    writeTexts ⟨[], none, taken, flushes⟩ pieces =
      (.ok (), ⟨[], none, taken ++ pieces.flatMap Utf8.ofString, flushes⟩) := by
  induction pieces generalizing taken with
  | nil => rw [writeTexts, List.flatMap_nil, List.append_nil]
  | cons text pieces ih =>
    rw [writeTexts, Writer.writeAllUnlimited, List.flatMap_cons, ← List.append_assoc]
    exact ih _

theorem formattedContent {b next : Blob} (wf : b.WellFormed)
    (done : b.appendFormatted pieces = .ok next) :
    next.content = b.content ++ pieces.flatMap Utf8.ofString := by
  induction pieces generalizing b with
  | nil =>
    cases done
    exact (List.append_nil _).symm
  | cons text pieces ih =>
    rw [Blob.appendFormatted, List.foldlM_cons] at done
    obtain ⟨later, wrote, done⟩ := okBind done
    have sound := Blob.writeTextSound wf text
    rw [wrote] at sound
    rw [ih sound.wellFormed done, sound.content, List.flatMap_cons, List.append_assoc]
    rfl

theorem formattedWritten (wf : out.WellFormed)
    (done : out.appendFormatted pieces = .ok (.ok (), later)) :
    written later = written out ++ pieces.flatMap Utf8.ofString := by
  cases out with
  | buffer b =>
    obtain ⟨next, appended, done⟩ := okBind done
    cases done
    exact formattedContent wf appended
  | channel w =>
    cases wrote : writeTexts w pieces with
    | mk outcome next =>
      simp only [appendFormatted, deliver, wrote] at done
      cases done
      exact writeTextsTakes wrote

theorem appendUnlimited (taken bytes : Bytes) (flushes : Nat) :
    (channel ⟨[], none, taken, flushes⟩).append bytes =
      .ok (.ok (), channel ⟨[], none, taken ++ bytes, flushes⟩) := by
  simp only [append, deliver, Writer.writeAllUnlimited]

theorem formattedUnlimited (taken : Bytes) (flushes : Nat) (pieces : List String) :
    (channel ⟨[], none, taken, flushes⟩).appendFormatted pieces =
      .ok (.ok (), channel ⟨[], none, taken ++ pieces.flatMap Utf8.ofString, flushes⟩) := by
  simp only [appendFormatted, deliver, writeTextsUnlimited]

end Output

end ArtifactVault
