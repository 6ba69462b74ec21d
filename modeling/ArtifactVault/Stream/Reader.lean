import ArtifactVault.Blob.Growth
import ArtifactVault.SystemError

/-!
Reading streams. A source is what its reads will meet, in order: bytes, which a read takes from the
front of, interruptions, and failures. After the last of them the stream is at its end.
-/
namespace ArtifactVault

inductive Delivery
  | bytes (bs : Bytes)
  | interrupted
  | fails (e : SystemError)
  deriving DecidableEq, Repr

abbrev Source := List Delivery

namespace Source

def ofBytes (bs : Bytes) : Source := [.bytes bs]

def weight : Source → Nat
  | [] => 0
  | .bytes bs :: rest => bs.length + 1 + weight rest
  | _ :: rest => 1 + weight rest

def read (n : Nat) : Source → Except SystemError Bytes × Source
  | [] => (.ok [], [])
  | .bytes [] :: rest => read n rest
  | .bytes (b :: bs) :: rest => (.ok ((b :: bs).take n), .bytes ((b :: bs).drop n) :: rest)
  | .interrupted :: rest => (.error .interrupted, rest)
  | .fails e :: rest => (.error e, rest)

theorem weight_read_lt {n : Nat} {s rest : Source} {b : UInt8} {bs : Bytes} (hn : 0 < n)
    (h : s.read n = (.ok (b :: bs), rest)) : rest.weight < s.weight := by
  induction s with
  | nil => simp [read] at h
  | cons d s ih =>
    cases d with
    | bytes cs =>
      cases cs with
      | nil => have := ih (by simpa [read] using h); simp [weight]; omega
      | cons c cs =>
        simp only [read, Prod.mk.injEq] at h
        obtain ⟨-, rfl⟩ := h
        simp only [weight, List.length_drop, List.length_cons]
        omega
    | interrupted => simp [read] at h
    | fails e => simp [read] at h

theorem weight_read_error_lt {n : Nat} {s rest : Source} {e : SystemError}
    (h : s.read n = (.error e, rest)) : rest.weight < s.weight := by
  induction s with
  | nil => simp [read] at h
  | cons d s ih =>
    cases d with
    | bytes cs =>
      cases cs with
      | nil => have := ih (by simpa [read] using h); simp [weight]; omega
      | cons c cs => simp [read] at h
    | interrupted =>
      simp only [read, Prod.mk.injEq] at h
      obtain ⟨-, rfl⟩ := h
      simp [weight]
    | fails e' =>
      simp only [read, Prod.mk.injEq] at h
      obtain ⟨-, rfl⟩ := h
      simp [weight]

end Source

namespace Blob

def chunk : Nat := 65536

def request (limit : Option Nat) : Nat :=
  match limit with
  | some left => min chunk left
  | none => chunk

/-- Appends what a source yields, up to the limit if there is one, and gives the new length. An
interruption is passed over; another failure ends the reading and keeps what has been read. -/
def collect (b : Blob) (limit : Option Nat) (source : Source) :
    Except Abort (Except SystemError Nat × Blob × Source) :=
  if _ : 0 < request limit then
    match _ : source.read (request limit) with
    | (.ok [], rest) => .ok (.ok b.used, b, rest)
    | (.ok (byte :: bytes), rest) =>
      match b.append (byte :: bytes) with
      | .ok b => collect b (limit.map (· - (bytes.length + 1))) rest
      | .error abort => .error abort
    | (.error .interrupted, rest) => collect b limit rest
    | (.error e, rest) => .ok (.error e, b, rest)
  else .ok (.ok b.used, b, source)
  termination_by source.weight
  decreasing_by
    · exact Source.weight_read_lt ‹_› ‹_›
    · exact Source.weight_read_error_lt ‹_›

def readStream (b : Blob) (limit : Option Nat) (source : Source) :
    Except Abort (Except SystemError Nat × Blob × Source) := b.reset.collect limit source

end Blob

end ArtifactVault
