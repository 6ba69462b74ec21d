import ArtifactVault.Transfer

/-! What a writer has taken, call by call: the front of what it is offered, however little it takes at
a time and however often it is interrupted. A writer without a script takes what it has room for. -/
namespace ArtifactVault.Writer
variable {w later : Writer} {bytes : Bytes} {count : Nat}

theorem writeTakes (done : w.write bytes = (.ok count, later)) :
    later.taken = w.taken ++ bytes.take count := by
  rw [write] at done
  split at done
  · cases done
    rfl
  · cases done
    rfl
  · cases done
  · cases done

theorem writeRefused {e : SystemError} (done : w.write bytes = (.error e, later)) :
    later.taken = w.taken := by
  rw [write] at done
  split at done
  · cases done
  · cases done
  · cases done
    rfl
  · cases done
    rfl

theorem fittingLe (w : Writer) (n : Nat) : w.fitting n ≤ n := by
  unfold fitting
  split
  · exact Nat.min_le_right _ _
  · exact Nat.le_refl n

theorem writeOffered (done : w.write bytes = (.ok count, later)) : count ≤ bytes.length := by
  rw [write] at done
  split at done
  · cases done
    exact w.fittingLe _
  · cases done
    exact Nat.min_le_right _ _
  · cases done
  · cases done

abbrev Answer := Except SystemError Nat

def accepted : List Answer → Nat
  | [] => 0
  | .ok n :: answers => n + accepted answers
  | .error _ :: answers => accepted answers

inductive Calls : Writer → Bytes → List Answer → Writer → Prop
  | none (w : Writer) (bytes : Bytes) : Calls w bytes [] w
  | takes {w next last : Writer} {bytes : Bytes} {answers n} (offers : bytes ≠ [])
      (wrote : w.write bytes = (.ok n, next)) (more : Calls next (bytes.drop n) answers last) :
      Calls w bytes (.ok n :: answers) last
  | refuses {w next last : Writer} {bytes : Bytes} {answers e} (offers : bytes ≠ [])
      (wrote : w.write bytes = (.error e, next)) (more : Calls next bytes answers last) :
      Calls w bytes (.error e :: answers) last

theorem Calls.handed {w last : Writer} {bytes : Bytes} {answers : List Answer}
    (calls : Calls w bytes answers last) :
    accepted answers ≤ bytes.length ∧ last.taken = w.taken ++ bytes.take (accepted answers) := by
  induction calls with
  | none w bytes => exact ⟨Nat.zero_le _, (List.append_nil _).symm⟩
  | takes offers wrote more ih =>
    obtain ⟨inside, taken⟩ := ih
    have offered := writeOffered wrote
    rw [List.length_drop] at inside
    refine ⟨by rw [accepted]; omega, ?_⟩
    rw [taken, writeTakes wrote, accepted, List.append_assoc, List.take_add]
  | refuses offers wrote more ih =>
    obtain ⟨inside, taken⟩ := ih
    exact ⟨inside, by rw [taken, writeRefused wrote, accepted]⟩

def Answer.waits : Answer → Bool
  | .error e => e = .interrupted
  | .ok _ => false

structure Told (bytes : Bytes) (answers : List Answer) (written : Nat)
    (outcome : Except Trouble Unit) : Prop where
  whole : outcome = .ok () ↔ accepted answers = bytes.length
  stopped : ∀ count, outcome = .error (.stopped count) ↔
    .ok 0 ∈ answers ∧ count = written + accepted answers
  failed : ∀ e, outcome = .error (.failed e) ↔ e ≠ .interrupted ∧ .error e ∈ answers
  soon : answers.length ≤ answers.countP Answer.waits + bytes.length

theorem toldNothing (written : Nat) : Told [] [] written (.ok ()) where
  whole := ⟨fun _ => rfl, fun _ => rfl⟩
  stopped _ := ⟨nofun, nofun⟩
  failed _ := ⟨nofun, nofun⟩
  soon := Nat.le_refl _

theorem toldStopped {bytes : Bytes} (left : bytes ≠ []) (written : Nat) :
    Told bytes [.ok 0] written (.error (.stopped written)) where
  whole := ⟨nofun, fun all => absurd (List.length_eq_zero_iff.mp all.symm) left⟩
  stopped count := by simp [accepted, eq_comm]
  failed e := by simp
  soon := by
    have some := List.length_pos_iff.mpr left
    have calls : [(Except.ok 0 : Answer)].length = 1 := rfl
    omega

theorem toldFailed {bytes : Bytes} {e : SystemError} (left : bytes ≠ [])
    (final : e ≠ .interrupted) (written : Nat) :
    Told bytes [.error e] written (.error (.failed e)) where
  whole := ⟨nofun, fun all => absurd (List.length_eq_zero_iff.mp all.symm) left⟩
  stopped count := by simp
  failed other := by
    simp only [Except.error.injEq, Trouble.failed.injEq, List.mem_singleton]
    exact ⟨fun same => ⟨same ▸ final, same.symm⟩, fun both => both.2.symm⟩
  soon := by
    have some := List.length_pos_iff.mpr left
    have calls : [(Except.error e : Answer)].length = 1 := rfl
    omega

theorem Told.behind {bytes : Bytes} {answers : List Answer} {n written : Nat}
    {outcome : Except Trouble Unit} (inside : n + 1 ≤ bytes.length)
    (told : Told (bytes.drop (n + 1)) answers (written + n + 1) outcome) :
    Told bytes (.ok (n + 1) :: answers) written outcome := by
  have waits : Answer.waits (.ok (n + 1)) = false := rfl
  obtain ⟨whole, stopped, failed, soon⟩ := told
  rw [List.length_drop] at whole soon
  refine ⟨?_, fun count => ?_, fun e => ?_, ?_⟩
  · rw [whole, accepted]
    omega
  · rw [stopped, accepted, Nat.add_assoc, Nat.add_assoc, Nat.add_assoc]
    simp
  · rw [failed]
    simp
  · rw [List.countP_cons_of_neg (Bool.eq_false_iff.mp waits), List.length_cons]
    omega

theorem Told.afterWait {bytes : Bytes} {answers : List Answer} {written : Nat}
    {outcome : Except Trouble Unit} (told : Told bytes answers written outcome) :
    Told bytes (.error .interrupted :: answers) written outcome := by
  have waits : Answer.waits (.error .interrupted) = true := rfl
  obtain ⟨whole, stopped, failed, soon⟩ := told
  refine ⟨whole, fun count => ?_, fun e => ?_, ?_⟩
  · rw [stopped, accepted]
    simp
  · rw [failed, List.mem_cons]
    exact and_congr_right fun final => ⟨.inr, fun mem => mem.resolve_left fun same =>
      final (Except.error.inj same)⟩
  · rw [List.countP_cons_of_pos waits, List.length_cons]
    omega

theorem writeFromCalls (written : Nat) (w : Writer) (bytes : Bytes) :
    ∃ answers, Calls w bytes answers (w.writeFrom written bytes).2 ∧
      Told bytes answers written (w.writeFrom written bytes).1 := by
  fun_induction writeFrom written w bytes with
  | case1 => exact ⟨[], .none _ _, toldNothing _⟩
  | case2 written w byte rest last wrote =>
    exact ⟨[.ok 0], .takes (List.cons_ne_nil _ _) wrote (.none _ _), toldStopped (List.cons_ne_nil _ _) _⟩
  | case3 written w byte rest n next wrote ih =>
    obtain ⟨answers, calls, told⟩ := ih
    exact ⟨_, .takes (List.cons_ne_nil _ _) wrote calls, told.behind (writeOffered wrote)⟩
  | case4 written w byte rest next wrote ih =>
    obtain ⟨answers, calls, told⟩ := ih
    exact ⟨_, .refuses (List.cons_ne_nil _ _) wrote calls, told.afterWait⟩
  | case5 written w byte rest e last final wrote =>
    exact ⟨[.error e], .refuses (List.cons_ne_nil _ _) wrote (.none _ _),
      toldFailed (List.cons_ne_nil _ _) final _⟩

theorem writeFromTakes (done : w.writeFrom count bytes = (.ok (), later)) :
    later.taken = w.taken ++ bytes := by
  obtain ⟨answers, calls, told⟩ := writeFromCalls count w bytes
  rw [done] at calls told
  rw [calls.handed.2, told.whole.mp rfl, List.take_length]

theorem writeAllTakes (done : w.writeAll bytes = (.ok (), later)) :
    later.taken = w.taken ++ bytes := by
  rw [writeAll] at done
  cases wrote : w.writeExact bytes with
  | mk outcome next =>
    rw [wrote] at done
    cases outcome with
    | ok _ =>
      cases done
      exact writeFromTakes wrote
    | error trouble => cases trouble <;> cases done

def waits : WriteReply → Bool
  | .interrupted => true
  | .fails e => e = .interrupted
  | .takes _ => false

theorem writeFromCons (written : Nat) (w : Writer) (byte : UInt8) (rest : Bytes) :
    w.writeFrom written (byte :: rest) =
      match w.write (byte :: rest) with
      | (.ok 0, w) => (.error (.stopped written), w)
      | (.ok (n + 1), w) => writeFrom (written + n + 1) w (rest.drop n)
      | (.error .interrupted, w) => writeFrom written w (byte :: rest)
      | (.error e, w) => (.error (.failed e), w) := by
  rw [writeFrom]
  split <;> simp only [*]

theorem writeFromSettled (replies : List WriteReply) :
    ∀ (bytes : Bytes) (written : Nat), bytes.length ≤ replies.countP (!waits ·) →
      ∃ outcome taken left, ∀ later room before flushes,
        writeFrom written ⟨replies ++ later, room, before, flushes⟩ bytes =
          (outcome, ⟨left ++ later, room, before ++ taken, flushes⟩) := by
  -- On the replies, not on the bytes: a call that is interrupted leaves all of them.
  induction replies with
  | nil =>
    intro bytes written enough
    obtain rfl : bytes = [] := List.length_eq_zero_iff.mp (Nat.le_zero.mp enough)
    refine ⟨.ok (), [], [], fun later room before flushes => ?_⟩
    rw [writeFrom, List.append_nil]
  | cons reply replies ih =>
    intro bytes written enough
    cases bytes with
    | nil =>
      refine ⟨.ok (), [], reply :: replies, fun later room before flushes => ?_⟩
      rw [writeFrom, List.append_nil]
    | cons byte rest =>
      cases reply with
      | takes most =>
        cases most with
        | zero =>
          refine ⟨.error (.stopped written), [], replies, fun later room before flushes => ?_⟩
          rw [writeFromCons]
          simp only [List.cons_append, write, Nat.zero_min, List.take_zero]
        | succ most =>
          have fits : (rest.drop (min most rest.length)).length ≤ replies.countP (!waits ·) := by
            rw [List.countP_cons_of_pos rfl, List.length_cons] at enough
            rw [List.length_drop]
            omega
          obtain ⟨outcome, taken, left, settled⟩ := ih _ (written + min most rest.length + 1) fits
          refine ⟨outcome, byte :: rest.take (min most rest.length) ++ taken, left,
            fun later room before flushes => ?_⟩
          rw [writeFromCons, ← List.append_assoc, ← settled]
          simp only [List.cons_append, write, List.length_cons, Nat.succ_min_succ]
          rfl
      | interrupted =>
        obtain ⟨outcome, taken, left, settled⟩ := ih (byte :: rest) written enough
        refine ⟨outcome, taken, left, fun later room before flushes => ?_⟩
        rw [← settled, writeFromCons]
        rfl
      | fails e =>
        by_cases waiting : e = .interrupted
        · subst waiting
          obtain ⟨outcome, taken, left, settled⟩ := ih (byte :: rest) written enough
          refine ⟨outcome, taken, left, fun later room before flushes => ?_⟩
          rw [← settled, writeFromCons]
          rfl
        · refine ⟨.error (.failed e), [], replies, fun later room before flushes => ?_⟩
          rw [writeFromCons, List.append_nil]
          cases e with
          | interrupted => exact absurd rfl waiting
          | _ => rfl

theorem repliesSettle {script : Nat → WriteReply}
    (goesOn : ∀ n, ∃ k, n ≤ k ∧ waits (script k) = false) (count : Nat) :
    ∃ n, count ≤ ((List.range n).map script).countP (!waits ·) := by
  induction count with
  | zero => exact ⟨0, Nat.zero_le _⟩
  | succ count ih =>
    obtain ⟨n, enough⟩ := ih
    obtain ⟨k, later, settles⟩ := goesOn n
    have before := ((List.range_sublist.mpr later).map script).countP_le (p := (!waits ·))
    refine ⟨k + 1, ?_⟩
    rw [List.range_succ, List.map_append, List.countP_append, List.map_singleton,
      List.countP_singleton, settles]
    simp only [Bool.not_false, if_true]
    omega

def kept (room : Option Nat) (bytes : Bytes) : Bytes := room.elim bytes bytes.take

theorem keptNothing (room : Option Nat) : kept room [] = [] := by
  cases room with
  | none => rfl
  | some most => exact List.take_nil

theorem keptAppend (room : Option Nat) (xs ys : Bytes) :
    kept room (xs ++ ys) = kept room xs ++ kept (room.map (· - xs.length)) ys := by
  cases room with
  | none => rfl
  | some most => exact List.take_append

def offered (w : Writer) (bytes : Bytes) : Writer :=
  { w with room := w.room.map (· - bytes.length), taken := w.taken ++ kept w.room bytes }

theorem offeredNothing (w : Writer) : w.offered [] = w := by
  simp [offered, keptNothing]

theorem offeredAppend (w : Writer) (xs ys : Bytes) :
    (w.offered xs).offered ys = w.offered (xs ++ ys) := by
  have room : (w.room.map (· - xs.length)).map (· - ys.length) =
      w.room.map (· - (xs ++ ys).length) := by
    rw [Option.map_map, List.length_append]
    congr 1
    funext most
    exact Nat.sub_sub most xs.length ys.length
  simp only [offered, room, keptAppend, List.append_assoc]

theorem writeUnscripted (bare : w.replies = []) (bytes : Bytes) :
    w.write bytes = (.ok (w.fitting bytes.length), w.offered bytes) := by
  rw [write, bare]
  cases room : w.room with
  | none => simp only [fitting, offered, kept, room, bare, Option.map_none, Option.elim_none,
      List.take_length]
  | some most =>
    have left : most - min most bytes.length = most - bytes.length := by omega
    have same : bytes.take (min most bytes.length) = bytes.take most := by
      rw [← List.take_take, List.take_length]
    simp only [fitting, offered, kept, room, bare, Option.map_some, Option.elim_some, left, same]

theorem writeFromFull (bare : w.replies = []) (full : w.room = some 0) (count : Nat) (byte : UInt8)
    (rest : Bytes) : w.writeFrom count (byte :: rest) = (.error (.stopped count), w) := by
  have wrote : w.write (byte :: rest) = (.ok 0, w) := by
    rw [writeUnscripted bare]
    cases w
    cases full
    simp [fitting, offered, kept]
  rw [writeFromCons, wrote]

theorem offeredFills {bytes : Bytes} (short : w.fitting bytes.length < bytes.length) :
    (w.offered bytes).room = some 0 := by
  rw [fitting] at short
  split at short
  · rename_i room
    simp only [offered, room, Option.map_some, Option.some.injEq]
    omega
  · exact absurd short (Nat.lt_irrefl _)

theorem writeExactUnscripted (bare : w.replies = []) (bytes : Bytes) :
    w.writeExact bytes =
      (if w.fitting bytes.length = bytes.length then .ok ()
        else .error (.stopped (w.fitting bytes.length)), w.offered bytes) := by
  have most := w.fittingLe bytes.length
  cases bytes with
  | nil =>
    have none : w.fitting ([] : Bytes).length = ([] : Bytes).length := Nat.le_zero.mp most
    rw [writeExact, writeFrom, offeredNothing, if_pos none]
  | cons byte rest =>
    have wrote := writeUnscripted bare (byte :: rest)
    have fills := @offeredFills w (byte :: rest)
    generalize w.fitting (byte :: rest).length = fitting at most wrote fills
    rw [writeExact, writeFromCons, wrote]
    cases fitting with
    | zero => rfl
    | succ n =>
      change writeFrom (0 + n + 1) (w.offered (byte :: rest)) (rest.drop n) = _
      rw [Nat.zero_add]
      by_cases whole : n + 1 = (byte :: rest).length
      · have all : rest.length ≤ n := Nat.le_of_succ_le_succ (Nat.le_of_eq whole.symm)
        rw [if_pos whole, List.drop_of_length_le all, writeFrom]
      · have short : n + 1 < (byte :: rest).length := Nat.lt_of_le_of_ne most whole
        have later : (w.offered (byte :: rest)).replies = [] := bare
        rw [if_neg whole, List.drop_eq_getElem_cons (Nat.lt_of_succ_lt_succ short)]
        exact writeFromFull later (fills short) _ _ _

theorem writeAllUnscripted (bare : w.replies = []) (bytes : Bytes) :
    w.writeAll bytes =
      (if w.fitting bytes.length = bytes.length then .ok () else .error .writeZero,
        w.offered bytes) := by
  rw [writeAll, writeExactUnscripted bare]
  by_cases whole : w.fitting bytes.length = bytes.length
  · simp only [if_pos whole]
  · simp only [if_neg whole]

theorem writeAllNothing (w : Writer) : w.writeAll [] = (.ok (), w) := by
  rw [writeAll, writeExact, writeFrom]

theorem writeUnlimited (taken bytes : Bytes) (flushes : Nat) :
    (⟨[], none, taken, flushes⟩ : Writer).writeExact bytes =
      (.ok (), ⟨[], none, taken ++ bytes, flushes⟩) := by
  have whole : (⟨[], none, taken, flushes⟩ : Writer).fitting bytes.length = bytes.length := rfl
  rw [writeExactUnscripted rfl, if_pos whole]
  rfl

theorem writeAllUnlimited (taken bytes : Bytes) (flushes : Nat) :
    (⟨[], none, taken, flushes⟩ : Writer).writeAll bytes =
      (.ok (), ⟨[], none, taken ++ bytes, flushes⟩) := by
  have whole : (⟨[], none, taken, flushes⟩ : Writer).fitting bytes.length = bytes.length := rfl
  rw [writeAllUnscripted rfl, if_pos whole]
  rfl

end ArtifactVault.Writer

namespace ArtifactVault.Transfer
open Writer

structure HandsOver (w : Writer) (bytes path : Bytes) (answers : List Writer.Answer)
    (outcome : Except TransferError Unit) (after : Writer) : Prop where
  calls : w.Calls bytes answers after
  inside : accepted answers ≤ bytes.length
  handed : after.taken = w.taken ++ bytes.take (accepted answers)
  whole : outcome = .ok () ↔ accepted answers = bytes.length
  short : ∀ place written expected, outcome = .error (.shortWrite place written expected) ↔
    .ok 0 ∈ answers ∧ place = path ∧ written = accepted answers ∧ expected = bytes.length
  failed : ∀ e, outcome = .error (.system e) ↔ e ≠ .interrupted ∧ .error e ∈ answers
  ended : accepted answers = bytes.length ∨ .ok 0 ∈ answers ∨
    ∃ e, e ≠ .interrupted ∧ .error e ∈ answers
  soon : answers.length ≤ answers.countP Answer.waits + bytes.length

def reported (path : Bytes) (expected : Nat) : Except Trouble Unit → Except TransferError Unit
  | .ok _ => .ok ()
  | .error (.stopped written) => .error (.shortWrite path written expected)
  | .error (.failed e) => .error (.system e)

theorem writeExactReported (w : Writer) (bytes path : Bytes) : writeExact w bytes path =
    (reported path bytes.length (w.writeExact bytes).1, (w.writeExact bytes).2) := by
  rw [writeExact]
  split <;> simp only [*, reported]

theorem toldHandsOver {w after : Writer} {bytes : Bytes} {answers : List Writer.Answer}
    {outcome : Except Trouble Unit} (calls : w.Calls bytes answers after)
    (told : Told bytes answers 0 outcome) (path : Bytes) :
    HandsOver w bytes path answers (reported path bytes.length outcome) after := by
  obtain ⟨inside, handed⟩ := calls.handed
  refine ⟨calls, inside, handed, ?_, fun place written expected => ?_, fun e => ?_, ?_, told.soon⟩
  · rw [← told.whole]
    rcases outcome with (count | e) | _
    · exact ⟨nofun, nofun⟩
    · exact ⟨nofun, nofun⟩
    · exact ⟨fun _ => rfl, fun _ => rfl⟩
  · have stopped := told.stopped written
    rw [Nat.zero_add] at stopped
    have same : reported path bytes.length outcome = .error (.shortWrite place written expected) ↔
        outcome = .error (.stopped written) ∧ place = path ∧ expected = bytes.length := by
      rcases outcome with (count | e) | _
      · simp only [reported, Except.error.injEq, TransferError.shortWrite.injEq, Trouble.stopped.injEq]
        exact ⟨fun ⟨p, c, t⟩ => ⟨c, p.symm, t.symm⟩, fun ⟨c, p, t⟩ => ⟨p.symm, c, t.symm⟩⟩
      · exact ⟨nofun, nofun⟩
      · exact ⟨nofun, nofun⟩
    rw [same, stopped]
    exact ⟨fun ⟨⟨stalled, count⟩, place, total⟩ => ⟨stalled, place, count, total⟩,
      fun ⟨stalled, place, count, total⟩ => ⟨⟨stalled, count⟩, place, total⟩⟩
  · rw [← told.failed]
    rcases outcome with (count | other) | _
    · exact ⟨nofun, nofun⟩
    · simp only [reported, Except.error.injEq, TransferError.system.injEq, Trouble.failed.injEq]
    · exact ⟨nofun, nofun⟩
  · rcases outcome with (count | e) | _
    · exact .inr (.inl ((told.stopped count).mp rfl).1)
    · exact .inr (.inr ⟨e, (told.failed e).mp rfl⟩)
    · exact .inl (told.whole.mp rfl)

/-- A writer is handed the front of the bytes in order, and what is told is what its calls came to:
all was taken, a call took nothing, or one failed for good. A writer that does not wait for ever is
done after finitely many replies, whatever it would do later. -/
theorem handsOverInOrder :
    (∀ (w : Writer) (bytes path : Bytes), ∃ answers,
      HandsOver w bytes path answers (writeExact w bytes path).1 (writeExact w bytes path).2) ∧
    ∀ (script : Nat → WriteReply) (bytes path : Bytes),
      (∀ n, ∃ k, n ≤ k ∧ waits (script k) = false) →
      ∃ n outcome taken left, ∀ later room before flushes,
        writeExact ⟨(List.range n).map script ++ later, room, before, flushes⟩ bytes path =
          (outcome, ⟨left ++ later, room, before ++ taken, flushes⟩) := by
  refine ⟨fun w bytes path => ?_, fun script bytes path goesOn => ?_⟩
  · obtain ⟨answers, calls, told⟩ := writeFromCalls 0 w bytes
    rw [writeExactReported]
    exact ⟨answers, toldHandsOver calls told path⟩
  · obtain ⟨n, enough⟩ := repliesSettle goesOn bytes.length
    obtain ⟨outcome, taken, left, settled⟩ := writeFromSettled _ bytes 0 enough
    refine ⟨n, reported path bytes.length outcome, taken, left, fun later room before flushes => ?_⟩
    rw [writeExactReported, Writer.writeExact, settled]

theorem everyOtherWaits :
    let script (n : Nat) : WriteReply := if n % 2 = 0 then .interrupted else .takes 2
    ∃ n outcome taken left, ∀ later room before flushes,
      writeExact ⟨(List.range n).map script ++ later, room, before, flushes⟩ [0x61, 0x62, 0x63] dash =
        (outcome, ⟨left ++ later, room, before ++ taken, flushes⟩) := by
  intro script
  refine handsOverInOrder.2 script _ _ fun n => ⟨2 * n + 1, by omega, ?_⟩
  have odd : (2 * n + 1) % 2 ≠ 0 := by omega
  have settles : script (2 * n + 1) = .takes 2 := if_neg odd
  rw [settles]
  rfl

end ArtifactVault.Transfer
