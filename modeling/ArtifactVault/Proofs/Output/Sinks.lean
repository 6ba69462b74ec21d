import ArtifactVault.Output.Program
import ArtifactVault.Proofs.Output

/-! Buffers and channels agree. A channel that takes any number of bytes is given just those that a
buffer would hold; one that takes no more than a limit is given the first of them, and each step is
answered by what room is left when it comes, whatever became of the steps before it. -/
namespace ArtifactVault.Output
open Blob (RoomFor emptyRoom)

def Step.bytes : Step → Bytes
  | .append bytes | .write bytes | .writeAll bytes => bytes
  | .appendText text | .appendFormatted text | .writeFormatted text => Utf8.ofString text
  | .flush => []

def Step.formats : Step → Bool
  | .appendFormatted _ | .writeFormatted _ => true
  | _ => false

def offered (steps : List Step) : Bytes := steps.flatMap Step.bytes

def Step.inFull : Step → Reply
  | .write bytes => .wrote bytes.length
  | _ => .done

def Step.within (room : Nat) : Step → Reply
  | .write bytes => .wrote (min room bytes.length)
  | step => if step.bytes.length ≤ room then .done else .failed .writeZero

def Step.reply (room : Option Nat) (step : Step) : Reply := room.elim step.inFull step.within

def replies (room : Option Nat) : List Step → List Reply
  | [] => []
  | step :: steps => step.reply room :: replies (room.map (· - step.bytes.length)) steps

theorem repliesInFull (steps : List Step) : replies none steps = steps.map Step.inFull := by
  induction steps with
  | nil => rfl
  | cons step steps ih => exact congrArg (step.inFull :: ·) ih

theorem repliesAt (room : Nat) (before : List Step) (step : Step) (after : List Step) :
    (replies (some room) (before ++ step :: after))[before.length]? =
      some (step.within (room - (offered before).length)) := by
  induction before generalizing room with
  | nil => rfl
  | cons first before ih =>
    have left : room - (offered (first :: before)).length =
        room - first.bytes.length - (offered before).length := by
      rw [offered, List.flatMap_cons, List.length_append, Nat.sub_sub]
      rfl
    rw [List.cons_append, replies, List.length_cons, List.getElem?_cons_succ, left]
    exact ih _

theorem lengthReplies (room : Option Nat) (steps : List Step) :
    (replies room steps).length = steps.length := by
  induction steps generalizing room with
  | nil => rfl
  | cons step steps ih => exact congrArg (· + 1) (ih _)

section
variable {w : Writer}

theorem writeAllChannel (bytes : Bytes) : (channel w).writeAll bytes = (channel w).append bytes := by
  cases bytes with
  | nil =>
    simp only [append, deliver, Writer.writeAllNothing]
    rfl
  | cons byte rest => rfl

theorem formattedChannel (text : String) :
    (channel w).appendFormatted [text] = (channel w).append (Utf8.ofString text) := by
  simp only [appendFormatted, append, deliver, writeTexts]
  cases w.writeAll (Utf8.ofString text) with
  | mk outcome later => cases outcome <;> rfl

theorem appendChannel (bare : w.replies = []) (bytes : Bytes) :
    replying (fun _ => .done) ((channel w).append bytes) =
      .ok (w.room.elim .done fun room => if bytes.length ≤ room then .done else .failed .writeZero,
        channel (w.offered bytes)) := by
  simp only [append, deliver, Writer.writeAllUnscripted bare]
  cases room : w.room with
  | none =>
    have whole : w.fitting bytes.length = bytes.length := by rw [Writer.fitting, room]
    rw [if_pos whole]
    rfl
  | some most =>
    have fitting : w.fitting bytes.length = min most bytes.length := by rw [Writer.fitting, room]
    by_cases fits : bytes.length ≤ most
    · rw [if_pos (fitting.trans (Nat.min_eq_right fits)), Option.elim_some, if_pos fits]
      rfl
    · rw [if_neg (by omega), Option.elim_some, if_neg fits]
      rfl

theorem performChannel (bare : w.replies = []) (step : Step) :
    ∃ flushes, (channel w).perform step =
      .ok (step.reply w.room, channel { w.offered step.bytes with flushes }) := by
  cases step with
  | append bytes => exact ⟨w.flushes, appendChannel bare bytes⟩
  | appendText text => exact ⟨w.flushes, appendChannel bare (Utf8.ofString text)⟩
  | appendFormatted text | writeFormatted text =>
    refine ⟨w.flushes, ?_⟩
    simp only [perform, writeFormatted, formattedChannel]
    exact appendChannel bare (Utf8.ofString text)
  | write bytes =>
    refine ⟨w.flushes, ?_⟩
    have count : Step.reply w.room (.write bytes) = .wrote (w.fitting bytes.length) := by
      rw [Writer.fitting]
      cases w.room <;> rfl
    rw [perform, write, Writer.writeUnscripted bare, count]
    rfl
  | writeAll bytes =>
    refine ⟨w.flushes, ?_⟩
    rw [perform, writeAllChannel]
    exact appendChannel bare bytes
  | flush =>
    have reply : Step.reply w.room .flush = .done := by
      cases w.room with
      | none => rfl
      | some most =>
        show (if 0 ≤ most then Reply.done else .failed .writeZero) = .done
        rw [if_pos (Nat.zero_le most)]
    refine ⟨w.flushes + 1, ?_⟩
    rw [perform, reply, Step.bytes, Writer.offeredNothing]
    rfl

theorem runChannel (bare : w.replies = []) (steps : List Step) :
    ∃ flushes, (channel w).run steps =
      .ok (replies w.room steps, channel { w.offered (offered steps) with flushes }) := by
  induction steps generalizing w with
  | nil => exact ⟨w.flushes, by rw [offered, List.flatMap_nil, Writer.offeredNothing]; rfl⟩
  | cons step steps ih =>
    obtain ⟨between, performed⟩ := performChannel bare step
    obtain ⟨flushes, ran⟩ := @ih { w.offered step.bytes with flushes := between } bare
    refine ⟨flushes, ?_⟩
    have both : (w.offered step.bytes).offered (offered steps) = w.offered (offered (step :: steps)) :=
      w.offeredAppend step.bytes (offered steps)
    rw [run, performed, ← both]
    simp only [bind, Except.bind, ran]
    rfl

end

structure Buffered (b : Blob) (bytes : Bytes) (formats : Bool) (held : Blob) : Prop where
  content : held.content = b.content ++ bytes
  formatted : held.formatted = (b.formatted || formats)

section
variable {b : Blob} {limit : Nat}

theorem appendBuffer {bytes : Bytes} (room : RoomFor b limit) (fits : b.used + bytes.length ≤ limit) :
    ∃ held, b.append bytes = .ok held ∧ Buffered b bytes false held ∧ RoomFor held limit := by
  obtain ⟨held, appended, written, left⟩ := (Blob.appendAppends bytes).within b limit room fits
  refine ⟨held, appended, ⟨written.content, ?_⟩, left⟩
  rw [written.formatted, Bool.or_false]

theorem formattedBuffer {text : String} (room : RoomFor b limit)
    (fits : b.used + (Utf8.ofString text).length ≤ limit) :
    ∃ held, b.appendFormatted [text] = .ok held ∧ Buffered b (Utf8.ofString text) true held ∧
      RoomFor held limit := by
  obtain ⟨held, appended, written, left⟩ := Blob.writeTextWithin room fits
  refine ⟨held, ?_, ⟨written.content, ?_⟩, left⟩
  · rw [Blob.appendFormatted, List.foldlM_cons, appended]
    rfl
  · rw [written.formatted, Bool.or_true]
    rfl

theorem performBuffer {step : Step} (room : RoomFor b limit)
    (fits : b.used + step.bytes.length ≤ limit) :
    ∃ held, (buffer b).perform step = .ok (step.inFull, buffer held) ∧
      Buffered b step.bytes step.formats held ∧ RoomFor held limit := by
  have untouched : Buffered b [] false b := ⟨(List.append_nil _).symm, (Bool.or_false _).symm⟩
  cases step with
  | append bytes =>
    obtain ⟨held, appended, buffered⟩ := @appendBuffer b limit bytes room fits
    exact ⟨held, by simp only [perform, append, deliver, appended]; rfl, buffered⟩
  | appendText text =>
    obtain ⟨held, appended, buffered⟩ := @appendBuffer b limit (Utf8.ofString text) room fits
    exact ⟨held, by simp only [perform, appendText, append, deliver, appended]; rfl, buffered⟩
  | appendFormatted text | writeFormatted text =>
    obtain ⟨held, appended, buffered⟩ := @formattedBuffer b limit text room fits
    refine ⟨held, ?_, buffered⟩
    simp only [perform, writeFormatted, appendFormatted, deliver, appended]
    rfl
  | write bytes =>
    obtain ⟨held, appended, buffered⟩ := @appendBuffer b limit bytes room fits
    exact ⟨held, by simp only [perform, write, appended]; rfl, buffered⟩
  | writeAll bytes =>
    cases bytes with
    | nil => exact ⟨b, rfl, untouched, room⟩
    | cons byte rest =>
      obtain ⟨held, appended, buffered⟩ := @appendBuffer b limit (byte :: rest) room fits
      exact ⟨held, by simp only [perform, writeAll, append, deliver, appended]; rfl, buffered⟩
  | flush => exact ⟨b, rfl, untouched, room⟩

theorem runBuffer {steps : List Step} (room : RoomFor b limit)
    (fits : b.used + (offered steps).length ≤ limit) :
    ∃ held, (buffer b).run steps = .ok (steps.map Step.inFull, buffer held) ∧
      Buffered b (offered steps) (steps.any Step.formats) held := by
  induction steps generalizing b with
  | nil => exact ⟨b, rfl, (List.append_nil _).symm, (Bool.or_false _).symm⟩
  | cons step steps ih =>
    rw [offered, List.flatMap_cons, List.length_append] at fits
    obtain ⟨between, performed, first, left⟩ := @performBuffer b limit step room (by omega)
    have used : between.used = b.used + step.bytes.length := by
      rw [← Blob.lengthContent left.wellFormed, first.content, List.length_append,
        Blob.lengthContent room.wellFormed]
    obtain ⟨held, ran, later⟩ := ih left (by rw [used, offered]; omega)
    refine ⟨held, ?_, ?_, ?_⟩
    · rw [run, performed]
      simp only [bind, Except.bind, ran]
      rfl
    · rw [later.content, first.content, List.append_assoc]
      rfl
    · rw [later.formatted, first.formatted, List.any_cons, Bool.or_assoc]

end

/-- A buffer takes every step in full and is marked just when a step formats. A channel without limit
is given what the buffer holds then, and one with a limit as much of its front: of each step, what
the steps before leave room for. -/
theorem sinksAgree {b : Blob} {steps : List Step} (empty : b.content = [])
    (room : RoomFor b (offered steps).length) :
    ∃ held, (buffer b).run steps = .ok (steps.map Step.inFull, buffer held) ∧
      held.content = offered steps ∧
      (held.formatted = true ↔ b.formatted = true ∨ ∃ step ∈ steps, step.formats = true) ∧
      (∃ w, (channel .unlimited).run steps = .ok (steps.map Step.inFull, channel w) ∧
        w.taken = held.content) ∧
      ∀ limit, ∃ answers w, (channel (.limited limit)).run steps = .ok (answers, channel w) ∧
        w.taken = held.content.take limit ∧ answers.length = steps.length ∧
        ∀ before step after, steps = before ++ step :: after →
          answers[before.length]? = some (step.within (limit - (offered before).length)) := by
  have blank : b.used = 0 := by rw [← Blob.lengthContent room.wellFormed, empty]; rfl
  obtain ⟨held, ran, buffered⟩ := @runBuffer b _ steps room (by omega)
  have content : held.content = offered steps := by rw [buffered.content, empty, List.nil_append]
  refine ⟨held, ran, content, ?_, ?_, fun limit => ?_⟩
  · rw [buffered.formatted, Bool.or_eq_true, List.any_eq_true]
  · obtain ⟨flushes, passed⟩ := @runChannel .unlimited rfl steps
    rw [← repliesInFull]
    exact ⟨_, passed, by rw [content]; rfl⟩
  · obtain ⟨flushes, passed⟩ := @runChannel (.limited limit) rfl steps
    refine ⟨_, _, passed, by rw [content]; rfl, lengthReplies _ steps, ?_⟩
    rintro before step after rfl
    exact repliesAt limit before step after

def letters : List Step :=
  [.append [0x61], .write [0x62, 0x63], .appendFormatted "d", .flush]

theorem lettersCutShort :
    ∃ held answers w,
      (buffer .empty).run letters = .ok ([.done, .wrote 2, .done, .done], buffer held) ∧
      held.content = [0x61, 0x62, 0x63, 0x64] ∧ held.formatted = true ∧
      (channel (.limited 2)).run letters = .ok (answers, channel w) ∧ w.taken = [0x61, 0x62] ∧
      answers[1]? = some (.wrote 1) ∧ answers[2]? = some (.failed .writeZero) := by
  obtain ⟨held, ran, content, marked, -, limited⟩ :=
    @sinksAgree .empty letters rfl (emptyRoom (by decide +kernel))
  obtain ⟨answers, w, passed, taken, -, answered⟩ := limited 2
  have bytes : offered letters = [0x61, 0x62, 0x63, 0x64] := by decide +kernel
  have second := answered [.append [0x61]] (.write [0x62, 0x63]) [.appendFormatted "d", .flush] rfl
  have third := answered [.append [0x61], .write [0x62, 0x63]] (.appendFormatted "d") [.flush] rfl
  refine ⟨held, answers, w, ran, content.trans bytes, marked.mpr (.inr ?_), passed, ?_, ?_, ?_⟩
  · exact ⟨.appendFormatted "d", by simp [letters], rfl⟩
  · rw [taken, content, bytes]
    rfl
  · exact second.trans (by decide +kernel)
  · exact third.trans (by decide +kernel)

end ArtifactVault.Output
