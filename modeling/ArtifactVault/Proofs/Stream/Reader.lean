import ArtifactVault.Proofs.Blob.Append
import ArtifactVault.Stream.Reader

/-! Reading a stream into a blob. However a source cuts what it delivers into reads, and wherever it
interrupts them, the blob gets the bytes that come before the first failure, up to the limit. -/
namespace ArtifactVault

namespace Source
variable {source rest : Source} {got : Bytes} {e : SystemError} {n : Nat}

def delivered : Source → Bytes
  | [] => []
  | .bytes bs :: rest => bs ++ delivered rest
  | .interrupted :: rest => delivered rest
  | .fails e :: rest => if e = .interrupted then delivered rest else []

def failure? : Source → Option SystemError
  | [] => none
  | .bytes _ :: rest => failure? rest
  | .interrupted :: rest => failure? rest
  | .fails e :: rest => if e = .interrupted then failure? rest else some e

def upTo (source : Source) (limit : Option Nat) : Bytes :=
  limit.elim source.delivered source.delivered.take

def Suffices (source : Source) (limit : Option Nat) : Prop :=
  ∃ most, limit = some most ∧ most ≤ source.delivered.length

structure Delivers (source : Source) (got : Bytes) (rest : Source) : Prop where
  bytes : source.delivered = got ++ rest.delivered
  failure : rest.failure? = source.failure?

theorem Delivers.trans {more : Bytes} {last : Source} (first : source.Delivers got rest)
    (second : rest.Delivers more last) : source.Delivers (got ++ more) last :=
  ⟨by rw [first.bytes, second.bytes, List.append_assoc], second.failure.trans first.failure⟩

theorem readDelivers (read : source.read n = (.ok got, rest)) :
    source.Delivers got rest ∧ got.length ≤ n := by
  fun_induction Source.read n source with
  | case1 =>
    cases read
    exact ⟨⟨rfl, rfl⟩, Nat.zero_le _⟩
  | case2 later ih =>
    obtain ⟨same, short⟩ := ih read
    exact ⟨⟨same.bytes, same.failure⟩, short⟩
  | case3 byte bytes later =>
    cases read
    refine ⟨⟨?_, rfl⟩, by rw [List.length_take]; exact Nat.min_le_left _ _⟩
    rw [delivered, delivered, ← List.append_assoc, List.take_append_drop]
  | case4 => cases read
  | case5 => cases read

theorem readEnds (asks : 0 < n) (read : source.read n = (.ok [], rest)) :
    source.delivered = [] ∧ source.failure? = none := by
  fun_induction Source.read n source with
  | case1 => exact ⟨rfl, rfl⟩
  | case2 later ih => exact ih read
  | case3 byte bytes later =>
    obtain ⟨n, rfl⟩ := Nat.exists_eq_succ_of_ne_zero (Nat.ne_of_gt asks)
    cases read
  | case4 => cases read
  | case5 => cases read

theorem readInterrupted (read : source.read n = (.error .interrupted, rest)) :
    source.Delivers [] rest := by
  fun_induction Source.read n source with
  | case1 => cases read
  | case2 later ih =>
    obtain ⟨bytes, failure⟩ := ih read
    exact ⟨bytes, failure⟩
  | case3 => cases read
  | case4 later =>
    cases read
    exact ⟨rfl, rfl⟩
  | case5 e later =>
    cases read
    exact ⟨rfl, rfl⟩

theorem readFails (read : source.read n = (.error e, rest)) (final : e ≠ .interrupted) :
    source.delivered = [] ∧ source.failure? = some e := by
  fun_induction Source.read n source with
  | case1 => cases read
  | case2 later ih => exact ih read
  | case3 => cases read
  | case4 later =>
    cases read
    exact absurd rfl final
  | case5 e later =>
    cases read
    exact ⟨if_neg final, if_neg final⟩

theorem upToNothing {limit : Option Nat} (nothing : source.delivered = []) :
    source.upTo limit = [] := by
  cases limit with
  | none => exact nothing
  | some most => rw [upTo, nothing, Option.elim_some, List.take_nil]

theorem Delivers.upTo (delivers : source.Delivers got rest) {limit : Option Nat}
    (within : ∀ most, limit = some most → got.length ≤ most) :
    source.upTo limit = got ++ rest.upTo (limit.map (· - got.length)) := by
  cases limit with
  | none => exact delivers.bytes
  | some most =>
    have short := within most rfl
    simp only [Source.upTo, Option.elim_some, Option.map_some, delivers.bytes, List.take_append,
      List.take_of_length_le short]

theorem Delivers.suffices (delivers : source.Delivers got rest) {limit : Option Nat}
    (within : ∀ most, limit = some most → got.length ≤ most) :
    source.Suffices limit ↔ rest.Suffices (limit.map (· - got.length)) := by
  cases limit with
  | none => exact ⟨nofun, nofun⟩
  | some most =>
    have short := within most rfl
    simp only [Suffices, Option.map_some, Option.some.injEq, exists_eq_left', delivers.bytes,
      List.length_append]
    omega

end Source

namespace Blob
variable {b : Blob}
open Source

theorem collectEq (limit : Option Nat) (source : Source) : b.collect limit source =
    if 0 < request limit then
      match source.read (request limit) with
      | (.ok [], rest) => .ok (.ok b.used, b, rest)
      | (.ok (byte :: bytes), rest) =>
        match b.append (byte :: bytes) with
        | .ok b => collect b (limit.map (· - (bytes.length + 1))) rest
        | .error abort => .error abort
      | (.error .interrupted, rest) => collect b limit rest
      | (.error e, rest) => .ok (.error e, b, rest)
    else .ok (.ok b.used, b, source) := by
  rw [collect]
  split
  · split
    · simp only [*]
    · rename_i byte bytes rest read
      cases appended : b.append (byte :: bytes) with
      | ok b => simp only [read, appended]
      | error cause => simp only [read, appended]
    · simp only [*]
    · simp only [*]
  · rfl

theorem requestWithin {limit : Option Nat} {n most : Nat} (asked : n ≤ request limit)
    (limited : limit = some most) : n ≤ most := by
  rw [limited] at asked
  exact Nat.le_trans asked (Nat.min_le_right _ _)

theorem nothingAsked {limit : Option Nat} (asks : ¬ 0 < request limit) : limit = some 0 := by
  have chunks : 0 < chunk := by decide
  cases limit with
  | none => exact absurd chunks asks
  | some most =>
    rw [request] at asks
    rw [(by omega : most = 0)]

def Takes (keeps : Blob → Prop) (most : Nat) : Prop :=
  ∀ b bytes, keeps b → b.used + bytes.length ≤ most →
    ∃ e, b.append bytes = .ok e ∧ Written b bytes e ∧ keeps e

structure Collected (b : Blob) (limit : Option Nat) (source : Source)
    (outcome : Except SystemError Nat) (r : Blob) (rest : Source) : Prop where
  written : Written b (source.upTo limit) r
  ended : source.Suffices limit ∨ source.failure? = none →
    outcome = .ok r.used ∧ source.Delivers (source.upTo limit) rest
  failed : ∀ e, source.failure? = some e → ¬ source.Suffices limit → outcome = .error e

theorem Collected.behind {e r : Blob} {limit : Option Nat} {source rest last : Source} {got : Bytes}
    {outcome : Except SystemError Nat} (delivers : source.Delivers got rest)
    (within : ∀ most, limit = some most → got.length ≤ most) (written : Written b got e)
    (collected : Collected e (limit.map (· - got.length)) rest outcome r last) :
    Collected b limit source outcome r last := by
  have enough := delivers.suffices within
  refine ⟨?_, fun ends => ?_, fun failure fails short => ?_⟩
  · rw [delivers.upTo within]
    exact written.trans collected.written
  · rw [← delivers.failure, enough] at ends
    obtain ⟨outcome, onward⟩ := collected.ended ends
    rw [delivers.upTo within]
    exact ⟨outcome, delivers.trans onward⟩
  · rw [← delivers.failure] at fails
    rw [enough] at short
    exact collected.failed failure fails short

theorem collectedAtEnd {limit : Option Nat} {source rest : Source} (wf : b.WellFormed)
    (delivers : source.Delivers [] rest) (nothing : source.upTo limit = [])
    (ends : source.Suffices limit ∨ source.failure? = none) :
    Collected b limit source (.ok b.used) b rest := by
  refine ⟨?_, fun _ => ⟨rfl, ?_⟩, fun e fails short => ?_⟩
  · rw [nothing]
    exact ⟨wf, (List.append_nil _).symm, rfl, rfl⟩
  · rw [nothing]
    exact delivers
  · rcases ends with enough | final
    · exact absurd enough short
    · cases final.symm.trans fails

theorem collectTakes {keeps : Blob → Prop} {most : Nat} (takes : Takes keeps most)
    {limit : Option Nat} {source : Source} (wf : b.WellFormed) (kept : keeps b)
    (fits : b.used + (source.upTo limit).length ≤ most) :
    ∃ outcome r rest, b.collect limit source = .ok (outcome, r, rest) ∧
      Collected b limit source outcome r rest := by
  -- A read that delivers bytes leaves less to be collected, an interrupted one leaves all of it.
  fun_induction collect b limit source with
  | case1 b limit source asks rest read =>
    obtain ⟨delivers, -⟩ := readDelivers read
    obtain ⟨nothing, final⟩ := readEnds asks read
    exact ⟨_, b, rest, rfl, collectedAtEnd wf delivers (upToNothing nothing) (.inr final)⟩
  | case2 b limit source asks byte bytes rest read e appended ih =>
    obtain ⟨delivers, asked⟩ := readDelivers read
    have within (most : Nat) (limited : limit = some most) := requestWithin asked limited
    rw [delivers.upTo within, List.length_append] at fits
    obtain ⟨_, again, written, kept⟩ := takes b (byte :: bytes) kept (by omega)
    cases appended.symm.trans again
    have used := written.used wf
    obtain ⟨outcome, r, last, collects, collected⟩ := ih written.wellFormed kept (by
      rw [used, Nat.add_assoc]
      exact fits)
    exact ⟨outcome, r, last, collects, .behind delivers within written collected⟩
  | case3 b limit source asks byte bytes rest read cause appended =>
    obtain ⟨delivers, asked⟩ := readDelivers read
    have within (most : Nat) (limited : limit = some most) := requestWithin asked limited
    rw [delivers.upTo within, List.length_append] at fits
    obtain ⟨_, again, -⟩ := takes b (byte :: bytes) kept (by omega)
    cases appended.symm.trans again
  | case4 b limit source asks rest read ih =>
    have delivers := readInterrupted read
    have same : limit.map (· - ([] : Bytes).length) = limit := Option.map_id_apply
    have within (most : Nat) (_ : limit = some most) : ([] : Bytes).length ≤ most := Nat.zero_le _
    rw [delivers.upTo within, same, List.nil_append] at fits
    obtain ⟨outcome, r, last, collects, collected⟩ := ih wf kept fits
    have nothing : Written b [] b := ⟨wf, (List.append_nil _).symm, rfl, rfl⟩
    exact ⟨outcome, r, last, collects, .behind delivers within nothing (same.symm ▸ collected)⟩
  | case5 b limit source asks e rest final read =>
    obtain ⟨nothing, fails⟩ := readFails read final
    have short : ¬ source.Suffices limit := by
      rintro ⟨most, limited, enough⟩
      rw [nothing] at enough
      have asked := requestWithin asks limited
      exact absurd (Nat.lt_of_lt_of_le asked enough) (Nat.lt_irrefl 0)
    refine ⟨_, b, rest, rfl, ?_, fun ends => ?_, fun failure same _ => ?_⟩
    · rw [upToNothing nothing]
      exact ⟨wf, (List.append_nil _).symm, rfl, rfl⟩
    · rcases ends with enough | final
      · exact absurd enough short
      · cases final.symm.trans fails
    · cases fails.symm.trans same
      rfl
  | case6 b limit source asks =>
    obtain rfl := nothingAsked asks
    exact ⟨_, b, source, rfl, collectedAtEnd wf ⟨rfl, rfl⟩ rfl (.inl ⟨0, rfl, Nat.zero_le _⟩)⟩

theorem appendWithin {bytes : Bytes} (wf : b.WellFormed) (owned : b.ownership = .owned)
    (room : b.used + bytes.length < b.capacity) :
    ∃ e, b.append bytes = .ok e ∧ Extended b bytes e ∧ e.capacity = b.capacity := by
  obtain ⟨e, extended, facts⟩ := extendInside bytes wf owned room
  refine ⟨e, ?_, facts⟩
  rw [append, growForAppendStays wf owned room]
  exact extended

theorem takesWithin (most : Nat) :
    Takes (fun b => b.WellFormed ∧ b.ownership = .owned ∧ most < b.capacity) most := by
  rintro b bytes ⟨wf, owned, room⟩ fits
  obtain ⟨e, appended, extended, capacity⟩ := appendWithin wf owned (Nat.lt_of_le_of_lt fits room)
  exact ⟨e, appended, extended.written, extended.wellFormed, extended.owned, capacity ▸ room⟩

theorem collectWithin (bytes : Bytes) (wf : b.WellFormed) (owned : b.ownership = .owned)
    (room : b.used + bytes.length < b.capacity) :
    ∃ r rest, b.collect none (.ofBytes bytes) = .ok (.ok r.used, r, rest) ∧
      r.WellFormed ∧ r.content = b.content ++ bytes := by
  have whole : (Source.ofBytes bytes).upTo none = bytes := List.append_nil bytes
  obtain ⟨outcome, r, rest, collects, collected⟩ :=
    @collectTakes b _ _ (takesWithin (b.used + bytes.length)) none (.ofBytes bytes) wf
      ⟨wf, owned, room⟩ (Nat.le_of_eq (by rw [whole]))
  obtain ⟨rfl, -⟩ := collected.ended (.inr rfl)
  have written := collected.written
  rw [whole] at written
  exact ⟨r, rest, collects, written.wellFormed, written.content⟩

theorem collectWellFormed (wf : b.WellFormed) (limit : Option Nat) (source : Source) :
    Sound (fun ended => ended.2.1.WellFormed) (b.collect limit source) := by
  fun_induction collect b limit source with
  | case1 b limit source asks rest => exact wf
  | case2 b limit source asks byte bytes rest read longer appended ih =>
    have extended := (appendAppending wf (byte :: bytes)).sound
    rw [appended] at extended
    exact ih extended.wellFormed
  | case3 b limit source asks byte bytes rest read abort appended =>
    have extended := (appendAppending wf (byte :: bytes)).sound
    rw [appended] at extended
    exact extended
  | case4 b limit source asks rest read ih => exact ih wf
  | case5 => exact wf
  | case6 => exact wf

/-- However a stream is cut into reads, and wherever it interrupts them, a blob holds afterwards what
the stream delivers, up to the limit, and nothing of what it held before. The count of it is told
unless a failure comes first, and nothing beyond it is read. -/
theorem chunksNeverShow {limit : Option Nat} {source : Source} (b : Blob)
    (small : 2 * (source.upTo limit).length + 200 < sizeCeiling) :
    ∃ outcome r rest, b.readStream limit source = .ok (outcome, r, rest) ∧
      r.WellFormed ∧ r.content = source.upTo limit ∧
      (source.Suffices limit ∨ source.failure? = none →
        outcome = .ok (source.upTo limit).length ∧ source.Delivers (source.upTo limit) rest) ∧
      ∀ e, source.failure? = some e → ¬ source.Suffices limit → outcome = .error e := by
  have takes : Takes (RoomFor · (source.upTo limit).length) (source.upTo limit).length :=
    fun b bytes room fits => (appendAppends bytes).within b _ room fits
  have unused : empty.used = 0 := rfl
  obtain ⟨outcome, r, rest, collects, collected⟩ :=
    @collectTakes empty _ _ takes limit source emptyWellFormed (emptyRoom small) (by omega)
  have used := collected.written.used emptyWellFormed
  rw [unused, Nat.zero_add] at used
  refine ⟨outcome, r, rest, collects, collected.written.wellFormed, collected.written.content,
    fun ends => ?_, collected.failed⟩
  rw [← used]
  exact collected.ended ends

theorem lettersInPieces :
    let source : Source :=
      [.bytes [0x61, 0x62], .interrupted, .bytes [0x63, 0x64], .fails .brokenPipe]
    let old : Blob := ⟨[0x78, 0x79], .owned, 1, 1, true⟩
    (∃ r rest, old.readStream (some 3) source = .ok (.ok 3, r, rest) ∧
      r.content = [0x61, 0x62, 0x63] ∧ rest.delivered = [0x64]) ∧
    ∃ r rest, old.readStream none source = .ok (.error .brokenPipe, r, rest) ∧
      r.content = [0x61, 0x62, 0x63, 0x64] := by
  intro source old
  obtain ⟨outcome, r, rest, reads, -, content, ended, -⟩ :=
    @chunksNeverShow (some 3) source old (by decide)
  obtain ⟨rfl, delivers⟩ := ended (.inl ⟨3, rfl, by decide⟩)
  obtain ⟨outcome, all, left, readsAll, -, whole, -, failed⟩ :=
    @chunksNeverShow none source old (by decide)
  obtain rfl := failed .brokenPipe rfl nofun
  have onward : [0x61, 0x62, 0x63] ++ [0x64] = [0x61, 0x62, 0x63] ++ rest.delivered := delivers.bytes
  exact ⟨⟨r, rest, reads, content, (List.append_cancel_left onward).symm⟩, all, left, readsAll, whole⟩

end Blob

end ArtifactVault
