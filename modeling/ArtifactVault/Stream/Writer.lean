import ArtifactVault.Byte
import ArtifactVault.SystemError

/-!
Writing streams. A writer answers its first calls as scripted and then takes what it has room for;
a call may take fewer bytes than it is offered.
-/
namespace ArtifactVault

inductive WriteReply
  | takes (most : Nat)
  | interrupted
  | fails (e : SystemError)
  deriving DecidableEq, Repr

structure Writer where
  replies : List WriteReply
  room : Option Nat
  taken : Bytes
  flushes : Nat
  deriving DecidableEq, Repr

namespace Writer

def unlimited : Writer := ⟨[], none, [], 0⟩

def limited (room : Nat) : Writer := ⟨[], some room, [], 0⟩

def fitting (w : Writer) (n : Nat) : Nat :=
  match w.room with
  | some room => min room n
  | none => n

def write (w : Writer) (bytes : Bytes) : Except SystemError Nat × Writer :=
  match w.replies with
  | [] =>
    let n := w.fitting bytes.length
    (.ok n, { w with room := w.room.map (· - n), taken := w.taken ++ bytes.take n })
  | .takes most :: replies =>
    let n := min most bytes.length
    (.ok n, { w with replies, taken := w.taken ++ bytes.take n })
  | .interrupted :: replies => (.error .interrupted, { w with replies })
  | .fails e :: replies => (.error e, { w with replies })

def flush (w : Writer) : Writer := { w with flushes := w.flushes + 1 }

theorem length_replies_write_le {w w' : Writer} {bytes : Bytes} {outcome : Except SystemError Nat}
    (h : w.write bytes = (outcome, w')) : w'.replies.length ≤ w.replies.length := by
  unfold write at h
  split at h <;> simp_all <;> (obtain ⟨-, rfl⟩ := h; simp_all)

theorem length_replies_write_lt {w w' : Writer} {bytes : Bytes} {e : SystemError}
    (h : w.write bytes = (.error e, w')) : w'.replies.length < w.replies.length := by
  unfold write at h
  split at h <;> simp_all <;> (obtain ⟨-, rfl⟩ := h; simp)

inductive Trouble
  | stopped (written : Nat)
  | failed (e : SystemError)
  deriving DecidableEq, Repr

def writeFrom (written : Nat) (w : Writer) (bytes : Bytes) : Except Trouble Unit × Writer :=
  match bytes with
  | [] => (.ok (), w)
  | byte :: rest =>
    match _ : w.write (byte :: rest) with
    | (.ok 0, w) => (.error (.stopped written), w)
    | (.ok (n + 1), w) => writeFrom (written + n + 1) w (rest.drop n)
    | (.error .interrupted, w) => writeFrom written w (byte :: rest)
    | (.error e, w) => (.error (.failed e), w)
  termination_by w.replies.length + bytes.length
  decreasing_by
    · have := length_replies_write_le ‹_›
      simp only [List.length_drop, List.length_cons]
      omega
    · have := length_replies_write_lt ‹_›
      simp only [List.length_cons]
      omega

def writeExact (w : Writer) (bytes : Bytes) : Except Trouble Unit × Writer := w.writeFrom 0 bytes

def writeAll (w : Writer) (bytes : Bytes) : Except SystemError Unit × Writer :=
  match w.writeExact bytes with
  | (.ok _, w) => (.ok (), w)
  | (.error (.stopped _), w) => (.error .writeZero, w)
  | (.error (.failed e), w) => (.error e, w)

end Writer

end ArtifactVault
