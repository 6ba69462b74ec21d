import ArtifactVault.Proofs.Blob.Marks
import ArtifactVault.Proofs.Blob.Tails

/-! What growing can bring back. A borrowed store is copied and ends there; an owned one is kept with
what lies in it behind the live bytes, so a blob that grows again shows what it held when it was
longer. Read from a run, nothing but zeros comes from where the blob has never reached. -/
namespace ArtifactVault.Blob
variable {b e : Blob} {blobs after : Registers}

theorem creationClean {creation : Creation} (done : creation.make = .ok b) :
    b.CleanFrom b.used := by
  cases creation with
  | new =>
    cases done
    exact cleanBorrowed rfl _
  | ofBytes bytes => exact ofBytesClean done
  | borrow bytes | borrowUntilNul bytes =>
    obtain ⟨_, -, same⟩ := okBind done
    cases same
    exact cleanBorrowed rfl _
  | withCapacity minimum =>
    exact reserveTail done b.used (Nat.zero_le _) (Nat.le_refl _) (cleanBorrowed rfl _)

theorem adjustmentTended (b : Blob) (adjustment : Adjustment) :
    Tended (adjustment.apply b) (if adjustment.renews then none else some b) := by
  have kept {n : Nat} : KeepsTail b (b.setUsed n) := fun _ _ _ clean => clean
  cases adjustment with
  | reset => exact cleanBorrowed rfl _
  | truncate n =>
    simp only [Adjustment.apply, truncate]
    split
    · exact kept
    · exact .refl b
  | trim => exact kept
  | seek | rewind => exact fun _ _ _ clean => clean

theorem editTail {change : Edit} (done : change.apply b = .ok e) : KeepsTail b e := by
  cases change with
  | append bytes => exact appendTail done
  | appendByte byte => exact appendByteTail done
  | appendRepeat byte count => exact appendRepeatTail done
  | appendFromSelf start stop => exact appendFromSelfTail done
  | resize n => exact resizeTail done
  | reserve minimum => exact reserveTail done
  | materialize => exact resizeTail done
  | terminated =>
    obtain ⟨answer, ended, same⟩ := okBind done
    cases same
    exact terminatedTail ended
  | cString =>
    obtain ⟨answer, ended, same⟩ := okBind done
    obtain ⟨pair, terminated, whole⟩ := okBind ended
    have kept : KeepsTail b pair.2 := terminatedTail terminated
    cases whole
    cases same
    exact kept
  | setByte index byte =>
    obtain ⟨answer, set, same⟩ := okBind done
    cases same
    exact setByteTail set

theorem textEditTended (wf : b.WellFormed) {change : TextEdit} (done : change.apply b = .ok e) :
    Tended e (if change.renews b then none else some b) := by
  have lengthened {act : Blob → Except Abort Blob} {bytes : Bytes} (built : Built act bytes)
      (done : act b = .ok e) : KeepsTail b e := (built.lengthens b e wf done).tail
  have inscription (inscribes : change.inscribes = true) : KeepsTail b e := by
    obtain ⟨act, bytes, built, acted⟩ := inscriptionBuilt wf inscribes done
    exact (built.lengthens.marked b e wf acted).tail
  cases change with
  | writeText | html | json | argument => exact inscription rfl
  | formatted pieces =>
    cases pieces with
    | nil =>
      cases done
      exact .refl b
    | cons => exact inscription rfl
  | sql statement => exact lengthened (appendSqlBuilt statement) done
  | sqlEscaped text => exact lengthened (appendSqlEscapedBuilt text) done
  | sqlString text => exact lengthened (appendSqlStringBuilt text) done
  | sqlIdentifier name => exact lengthened (appendSqlIdentifierBuilt name) done
  | sqlInt value => exact lengthened (appendSqlIntBuilt value) done
  | sqlText =>
    obtain ⟨_, -, same⟩ := okBind done
    cases same
    exact .refl b
  | addCarriageReturns => exact addCarriageReturnsTail done
  | newlinesOnly => exact newlinesOnlyTail done
  | transcodeCodePage => exact transcodeCodePageTail done
  | stripUtf8Mark =>
    obtain ⟨answer, stripped, same⟩ := okBind done
    cases same
    exact (stripUtf8MarkTail stripped).1
  | normalize assumeCodePage => exact normalizeTended done

theorem viewBorrowed {start stop : Nat} (done : b.view start stop = .ok e) :
    e.ownership = .borrowed := by
  obtain ⟨bytes, -, made⟩ := okBind done
  obtain ⟨_, -, same⟩ := okBind made
  cases same
  rfl

theorem extractBorrowed {n : Nat} {answer : Blob × Blob} (done : b.extract n = .ok answer) :
    answer.1.ownership = .borrowed := by
  obtain ⟨bytes, -, done⟩ := okBind done
  obtain ⟨found, viewed, same⟩ := okBind done
  cases same
  exact viewBorrowed viewed

theorem finishTokenBorrowed {start stop : Nat} {answer : Option Blob × Blob}
    (done : b.finishToken start stop = .ok answer) :
    (answer.1.getD empty).ownership = .borrowed := by
  unfold finishToken at done
  dsimp only at done
  split at done
  · obtain ⟨found, viewed, same⟩ := okBind done
    cases same
    exact viewBorrowed viewed
  · cases done
    rfl

theorem readerBorrows {reader : Reader} {answer : Option Blob × Blob}
    (done : reader.read b = .ok answer) : (answer.1.getD empty).ownership = .borrowed := by
  cases reader with
  | extract n =>
    obtain ⟨pair, extracted, same⟩ := okBind done
    cases same
    exact extractBorrowed extracted
  | extractLines n =>
    obtain ⟨found, read, same⟩ := okBind done
    cases same
    obtain ⟨bytes, -, viewed⟩ := okBind read
    exact viewBorrowed viewed
  | line =>
    obtain ⟨bytes, -, read⟩ := okBind done
    obtain ⟨pair, extracted, same⟩ := okBind read
    cases same
    dsimp only
    split
    · rfl
    · exact extractBorrowed extracted
  | token => exact finishTokenBorrowed done
  | sqlToken => exact finishTokenBorrowed done
  | tail =>
    obtain ⟨found, viewed, same⟩ := okBind done
    cases same
    exact viewBorrowed viewed

theorem transferTended {source : Blob} {transfer : Transfer} {answer : Blob × Blob}
    (wf : b.WellFormed) (sourceWf : source.WellFormed)
    (done : transfer.apply b source = .ok answer) :
    Tended answer.1 (if transfer.renews then none else some b) ∧
      Tended answer.2 (if transfer.drains then none else some source) := by
  cases transfer with
  | copyFrom =>
    obtain ⟨copied, made, same⟩ := okBind done
    cases same
    exact ⟨((Built.append _).lengthens _ _ resetWellFormed made).fresh rfl, .refl source⟩
  | appendConsume =>
    obtain ⟨extended, made, same⟩ := okBind done
    cases same
    exact ⟨appendTail made, cleanBorrowed rfl _⟩
  | toOwned =>
    obtain ⟨copied, made, same⟩ := okBind done
    cases same
    exact ⟨((Built.append _).lengthens _ _ emptyWellFormed made).fresh rfl, .refl source⟩
  | copyLines n =>
    obtain ⟨whole, copied, same⟩ := okBind done
    cases same
    rw [copyLinesInside sourceWf] at copied
    obtain ⟨extended, made, same⟩ := okBind copied
    cases same
    exact ⟨appendTail made, moveToTail source _⟩
  | stripCommentLines =>
    obtain ⟨whole, copied, same⟩ := okBind done
    cases same
    rw [stripCommentLinesInside sourceWf] at copied
    obtain ⟨extended, made, same⟩ := okBind copied
    cases same
    exact ⟨((Built.each .append _).lengthens _ _ wf made).tail, moveToTail source _⟩

theorem setTended {target : Nat} (renews : Bool)
    (tended : Tended e (if renews then none else some (blobs target))) (register : Nat) :
    Tended (blobs.set target e register) ((keptUnless renews target register).map blobs) := by
  rw [Registers.set, keptUnless]
  by_cases here : register = target
  · rw [if_pos here, here]
    cases renews <;> simpa using tended
  · simp only [here, decide_false, Bool.false_and, Bool.false_eq_true, if_false]
    exact .refl (blobs register)

theorem setBothTended {target source : Nat} {f : Blob} (renews drains : Bool)
    (changed : Tended e (if renews then none else some (blobs target)))
    (read : Tended f (if drains then none else some (blobs source))) (register : Nat) :
    Tended ((blobs.set source f).set target e register)
      ((keptOfTwo renews drains target source register).map blobs) := by
  by_cases here : register = target
  · have known := setTended renews changed register
    simpa [Registers.set, keptOfTwo, here] using known
  · have known := setTended drains read register
    simpa [Registers.set, keptOfTwo, here] using known

theorem stepTended (kept : Kept blobs) {operation : Operation}
    (done : step blobs operation = .ok after) (register : Nat) :
    Tended (after register) ((operation.origin? blobs register).map blobs) := by
  cases operation with
  | create target creation =>
    obtain ⟨made, created, same⟩ := okBind done
    cases same
    exact setTended true (creationClean created) register
  | adjust target adjustment =>
    cases done
    exact setTended _ (adjustmentTended (blobs target) adjustment) register
  | edit target change =>
    obtain ⟨edited, applied, same⟩ := okBind done
    cases same
    exact setTended false (editTail applied) register
  | text target change =>
    obtain ⟨edited, applied, same⟩ := okBind done
    cases same
    exact setTended _ (textEditTended (kept target) applied) register
  | read target source reader =>
    obtain ⟨found, moved, read, reads⟩ := readerRead (kept source) reader
    obtain ⟨n, -, rfl⟩ := reads.moved
    simp only [step, read] at done
    cases done
    have view : Tended (found.getD empty) (if true then none else some (blobs target)) :=
      cleanBorrowed (readerBorrows read) _
    exact setBothTended true false view (moveToTail (blobs source) n) register
  | transfer target source kind =>
    obtain ⟨answer, transferred, same⟩ := okBind done
    cases same
    obtain ⟨changed, read⟩ := transferTended (kept target) (kept source) transferred
    exact setBothTended _ _ changed read register
  | copy target source =>
    cases done
    simp only [Registers.set, Operation.origin?]
    split
    · exact .refl _
    · exact .refl _
  | swap left right =>
    cases done
    simp only [Registers.set, Operation.origin?]
    split
    · exact .refl _
    · split
      · exact .refl _
      · exact .refl _
  | resetAll targets =>
    cases done
    rw [resetAllAt, Operation.origin?]
    split
    · exact cleanBorrowed rfl _
    · exact .refl _

def peaksAfter (blobs after : Registers) (peaks : Nat → Nat) (operation : Operation)
    (register : Nat) : Nat :=
  max (after register).used (((operation.origin? blobs register).map peaks).getD 0)

def peaksFrom (blobs : Registers) (peaks : Nat → Nat) : List Operation → Nat → Nat
  | [] => peaks
  | operation :: rest =>
    match step blobs operation with
    | .ok after => peaksFrom after (peaksAfter blobs after peaks operation) rest
    | .error _ => peaks

def peak (program : List Operation) (register : Nat) : Nat :=
  peaksFrom blank (fun _ => 0) program register

def Peaked (blobs : Registers) (peaks : Nat → Nat) : Prop :=
  ∀ register, (blobs register).used ≤ peaks register ∧ (blobs register).CleanFrom (peaks register)

theorem stepPeaked {peaks : Nat → Nat} {operation : Operation} (kept : Kept blobs)
    (peaked : Peaked blobs peaks) (done : step blobs operation = .ok after) :
    Peaked after (peaksAfter blobs after peaks operation) := by
  intro register
  have tended := stepTended kept done register
  refine ⟨Nat.le_max_left _ _, ?_⟩
  rw [peaksAfter]
  cases origin : operation.origin? blobs register with
  | none =>
    rw [origin] at tended
    have fresh : (after register).CleanFrom (after register).used := tended
    exact fresh.later (Nat.le_max_left _ _)
  | some giver =>
    rw [origin] at tended
    have tail : KeepsTail (blobs giver) (after register) := tended
    obtain ⟨short, clean⟩ := peaked giver
    exact tail _ (Nat.le_trans short (Nat.le_max_right _ _)) (Nat.le_max_left _ _)
      (clean.later (Nat.le_max_right _ _))

theorem runPeaked {program : List Operation} {peaks : Nat → Nat} {final : Registers}
    (kept : Kept blobs) (peaked : Peaked blobs peaks) (done : run blobs program = .ok final) :
    Peaked final (peaksFrom blobs peaks program) := by
  induction program generalizing blobs peaks with
  | nil =>
    cases done
    exact peaked
  | cons operation rest ih =>
    obtain ⟨after, stepped, finished⟩ := okBind done
    have still := stepSound kept operation
    rw [stepped] at still
    rw [peaksFrom, stepped]
    exact ih still (stepPeaked kept peaked stepped) finished

theorem blankPeaked : Peaked blank (fun _ => 0) :=
  fun _ => ⟨Nat.le_refl _, cleanBorrowed rfl _⟩

def stale (b : Blob) (n : Nat) : Bytes :=
  match b.ownership with
  | .owned => (b.store.take n).drop b.used
  | .borrowed => []

theorem lengthStale (n : Nat) : (b.stale n).length ≤ n - b.used := by
  unfold stale
  split
  · simp only [List.length_drop, List.length_take]
    omega
  · exact Nat.zero_le _

theorem takeOwned {n : Nat} (owned : b.ownership = .owned) (longer : b.used ≤ n) :
    b.content ++ b.stale n = b.store.take n := by
  have front : b.content = (b.store.take n).take b.used := by
    rw [content, List.take_take, Nat.min_eq_left longer]
  simp only [stale, owned]
  rw [front, List.take_append_drop]

theorem takeResized {n : Nat} (wf : b.WellFormed) (longer : b.used ≤ n) :
    (b.resizedStore (n + 1)).take n =
      b.content ++ b.stale n ++ List.replicate (n - b.used - (b.stale n).length) 0 := by
  have live := lengthContent wf
  have usedLe := wf.used_le
  have store : b.store.length = b.capacity := rfl
  rcases ownedOrBorrowed b with owned | borrowed
  · have length : (b.stale n).length = min n b.capacity - b.used := by
      simp only [stale, owned, List.length_drop, List.length_take, store]
    rw [takeOwned owned longer, length, resizedStoreOwned owned]
    split
    · rw [List.take_append, List.take_replicate, store]
      congr 2
      omega
    · have none : n - b.used - (min n b.capacity - b.used) = 0 := by omega
      rw [none, List.replicate_zero, List.append_nil]
      split
      · rw [List.take_take, Nat.min_eq_left (Nat.le_succ n)]
      · rfl
  · have whole : b.content.take (n + 1) = b.content := List.take_of_length_le (by omega)
    have none : b.stale n = [] := by simp only [stale, borrowed]
    rw [resizedStoreBorrowed borrowed, whole, none, List.append_nil, List.take_append,
      List.take_of_length_le (by omega), List.take_replicate, live, List.length_nil]
    congr 2
    omega

theorem resizedTakes {n : Nat} (wf : b.WellFormed) (below : n + 1 < sizeCeiling) :
    ∃ r, b.resize n = .ok r ∧ r.WellFormed ∧ r.ownership = .owned ∧
      r.content = (b.resizedStore (n + 1)).take n := by
  obtain ⟨r, done, resized⟩ := (resizeAsking wf n).below below
  refine ⟨r, done, resized.wellFormed, resized.owned, ?_⟩
  obtain ⟨_, -, ended⟩ := okBind done
  obtain ⟨-, room, rfl⟩ := writtenInside ended
  rw [patchedBehindContent (Nat.le_refl _) room, ← reallocateStore (Nat.succ_pos n)]
  rfl

structure Regrown (b : Blob) (peak n : Nat) (r : Blob) : Prop where
  content : r.content = b.content ++ b.stale n ++ List.replicate (n - b.used - (b.stale n).length) 0
  zeros : r.content = b.content ++ List.replicate (n - b.used) 0 ↔ ∀ byte ∈ b.stale n, byte = 0
  behindPeak : r.content.drop peak = List.replicate (n - peak) 0
  atPeak : b.ownership = .borrowed ∨ peak = b.used →
    r.content = b.content ++ List.replicate (n - b.used) 0

theorem zerosBehind {content tail : Bytes} {n : Nat} (short : tail.length ≤ n) :
    content ++ tail ++ List.replicate (n - tail.length) 0 = content ++ List.replicate n 0 ↔
      ∀ byte ∈ tail, byte = 0 := by
  rw [List.append_assoc, List.append_cancel_left_eq, List.eq_replicate_iff, List.length_append,
    List.length_replicate, List.forall_mem_append]
  constructor
  · exact fun zero => zero.2.1
  · exact fun zero => ⟨by omega, zero, fun _ => List.eq_of_mem_replicate⟩

/-- Resizing a blob that a run made shows what its owned store still holds, and zeros from there on:
all zeros if nothing else is stale, as where the blob was never longer, or is borrowed. -/
theorem resizeShowsStale {program : List Operation} {register n : Nat}
    (reached : run blank program = .ok blobs) (longer : (blobs register).used ≤ n)
    (below : n + 1 < sizeCeiling) :
    ∃ r, (blobs register).resize n = .ok r ∧
      Regrown (blobs register) (peak program register) n r := by
  have kept := runSound program blankKept
  rw [reached] at kept
  have wf := kept register
  obtain ⟨short, clean⟩ := runPeaked blankKept blankPeaked reached register
  obtain ⟨r, done, sized, owned, taken⟩ := resizedTakes wf below
  have content := taken.trans (takeResized wf longer)
  have zeros : r.content = (blobs register).content ++
      List.replicate (n - (blobs register).used) 0 ↔ ∀ byte ∈ (blobs register).stale n, byte = 0 := by
    rw [content]
    exact zerosBehind (lengthStale n)
  have behindPeak : r.content.drop (peak program register) =
      List.replicate (n - peak program register) 0 := by
    have length : r.content.length = n := by rw [lengthContent sized, resizeUsed done]
    refine List.eq_replicate_iff.mpr ⟨by rw [List.length_drop, length], ?_⟩
    exact (resizeClean done short clean owned).take r.used
  refine ⟨r, done, content, zeros, behindPeak, ?_⟩
  rintro (borrowed | never)
  · rw [zeros, stale, borrowed]
    exact nofun
  · have front : r.content.take (blobs register).used = (blobs register).content := by
      rw [content, List.append_assoc]
      exact List.take_left' (lengthContent wf)
    rw [never] at behindPeak
    rw [← List.take_append_drop (blobs register).used r.content, front, behindPeak]

def lettersRewritten : List Operation :=
  [.create 0 (.ofBytes [0x61, 0x62, 0x63]), .adjust 0 (.truncate 1),
    .edit 0 (.append [0x78, 0x79, 0x7a])]

theorem rewrittenGrowsByZeros : ∃ blobs r, run blank lettersRewritten = .ok blobs ∧
    (blobs 0).used ≤ 6 ∧ 6 + 1 < sizeCeiling ∧ (blobs 0).resize 6 = .ok r ∧
    r.content = [0x61, 0x78, 0x79, 0x7a, 0, 0] := by
  have state : (run blank lettersRewritten).toOption.map (fun blobs =>
      ((blobs 0).used, (blobs 0).content)) = some (4, [0x61, 0x78, 0x79, 0x7a]) := by decide +kernel
  have never : peak lettersRewritten 0 = 4 := by decide +kernel
  cases reached : run blank lettersRewritten with
  | error cause =>
    rw [reached] at state
    cases state
  | ok blobs =>
    rw [reached] at state
    obtain ⟨used, content⟩ := Prod.mk.inj (Option.some.inj state)
    have longer : (blobs 0).used ≤ 6 := by omega
    obtain ⟨r, done, regrown⟩ := resizeShowsStale reached longer (by decide)
    refine ⟨blobs, r, rfl, longer, by decide, done, ?_⟩
    rw [regrown.atPeak (.inr (never.trans used.symm)), used, content]
    rfl

def lettersCut (creation : Creation) : List Operation :=
  [.create 0 creation, .adjust 0 (.truncate 1)]

theorem cutLettersReturn :
    ((run blank (lettersCut (.ofBytes [0x61, 0x62, 0x63]))).toOption.map fun blobs =>
      ((blobs 0).content, ((blobs 0).resize 3).toOption.map content)) =
      some ([0x61], some [0x61, 0x62, 0x63]) ∧
    ((run blank (lettersCut (.borrow [0x61, 0x62, 0x63]))).toOption.map fun blobs =>
      ((blobs 0).content, ((blobs 0).resize 3).toOption.map content)) =
      some ([0x61], some [0x61, 0, 0]) := by
  decide +kernel

end ArtifactVault.Blob
