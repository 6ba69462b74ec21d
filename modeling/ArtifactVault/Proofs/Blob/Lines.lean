import ArtifactVault.Blob.Compare
import ArtifactVault.Blob.Program
import ArtifactVault.Proofs.Blob.Tokens

/-! Reading by lines. `Lined` lays bytes out as lines, and whatever reads lines goes by that layout:
one line at a time, a number of them at once, all but the comments, or just counting them. -/
namespace ArtifactVault.Blob
variable {b : Blob}

inductive Lined : Bytes → List Bytes → Prop where
  | nothing : Lined [] []
  | last {body} (filled : body ≠ []) (plain : 0x0a ∉ body) : Lined body [body]
  | line {body rest lines} (plain : 0x0a ∉ body) (later : Lined rest lines) :
      Lined (body ++ 0x0a :: rest) ((body ++ [0x0a]) :: lines)

variable {bytes : Bytes} {lines : List Bytes}

theorem Lined.flatten (lined : Lined bytes lines) : lines.flatten = bytes := by
  induction lined with
  | nothing => rfl
  | last => simp
  | line plain later ih => simp [ih]

theorem Lined.plain (lined : Lined bytes lines) :
    ∀ line ∈ lines, line ≠ [] ∧ 0x0a ∉ line.dropLast := by
  induction lined with
  | nothing => nofun
  | last filled plain =>
    intro line mem
    cases List.mem_singleton.mp mem
    exact ⟨filled, fun within => plain (List.dropLast_subset _ within)⟩
  | line plain later ih =>
    intro line mem
    obtain rfl | mem := List.mem_cons.mp mem
    · exact ⟨by simp, by simpa using plain⟩
    · exact ih line mem

theorem Lined.ended (lined : Lined bytes lines) :
    ∀ line ∈ lines.dropLast, line.getLast? = some 0x0a := by
  induction lined with
  | nothing => nofun
  | last filled plain => nofun
  | @line body rest lines plain later ih =>
    intro line mem
    cases lines with
    | nil => cases mem
    | cons next lines =>
      rw [List.dropLast_cons_of_ne_nil (List.cons_ne_nil _ _)] at mem
      obtain rfl | mem := List.mem_cons.mp mem
      · exact List.getLast?_concat
      · exact ih line mem

theorem plainCount {body : Bytes} (plain : 0x0a ∉ body) (rest : Bytes) :
    (body ++ 0x0a :: rest).count 0x0a = rest.count 0x0a + 1 := by
  rw [List.count_append, List.count_eq_zero_of_not_mem plain, List.count_cons_self, Nat.zero_add]

theorem Lined.counted (lined : Lined bytes lines) : lines.length =
    match bytes.getLast? with
    | some final => if final = 0x0a then bytes.count 0x0a else bytes.count 0x0a + 1
    | none => bytes.count 0x0a := by
  induction lined with
  | nothing => rfl
  | @last body filled plain =>
    obtain ⟨final, found⟩ := Option.isSome_iff_exists.mp (List.getLast?_isSome.mpr filled)
    have other : final ≠ 0x0a := fun same => plain (same ▸ List.mem_of_getLast? found)
    simp only [found, if_neg other, List.count_eq_zero_of_not_mem plain, List.length_singleton]
  | @line body rest lines plain later ih =>
    rw [plainCount plain, List.length_cons, ih, List.getLast?_append, List.getLast?_cons]
    cases rest.getLast? with
    | none => rfl
    | some final =>
      simp only [Option.getD_some, Option.some_or]
      split <;> rfl

theorem Lined.sublist (lined : Lined bytes lines) {kept : List Bytes} (fewer : kept.Sublist lines) :
    Lined kept.flatten kept := by
  induction lined generalizing kept with
  | nothing =>
    cases fewer
    exact .nothing
  | last filled plain =>
    obtain none | ⟨more, rfl, none⟩ := List.sublist_cons_iff.mp fewer
    · cases none
      exact .nothing
    · cases none
      simpa using Lined.last filled plain
  | line plain later ih =>
    obtain rest | ⟨more, rfl, rest⟩ := List.sublist_cons_iff.mp fewer
    · exact ih rest
    · simpa using Lined.line plain (ih rest)

def splitLines (bytes : Bytes) : List Bytes :=
  bytes.foldr (fun byte lines =>
    if byte = 0x0a then [byte] :: lines
    else match lines with
      | [] => [[byte]]
      | line :: lines => (byte :: line) :: lines) []

theorem splitLinesOther {byte : UInt8} (other : byte ≠ 0x0a) (bytes : Bytes) :
    splitLines (byte :: bytes) = match splitLines bytes with
      | [] => [[byte]]
      | line :: lines => (byte :: line) :: lines :=
  if_neg other

theorem splitLinesLast {body : Bytes} (filled : body ≠ []) (plain : 0x0a ∉ body) :
    splitLines body = [body] := by
  induction body with
  | nil => exact absurd rfl filled
  | cons byte body ih =>
    rw [splitLinesOther (List.ne_of_not_mem_cons plain).symm]
    cases body with
    | nil => rfl
    | cons next body => rw [ih (List.cons_ne_nil _ _) (List.not_mem_of_not_mem_cons plain)]

theorem splitLinesNext {body : Bytes} (plain : 0x0a ∉ body) (rest : Bytes) :
    splitLines (body ++ 0x0a :: rest) = (body ++ [0x0a]) :: splitLines rest := by
  induction body with
  | nil => rfl
  | cons byte body ih =>
    rw [List.cons_append, splitLinesOther (List.ne_of_not_mem_cons plain).symm,
      ih (List.not_mem_of_not_mem_cons plain)]
    rfl

theorem Lined.split (lined : Lined bytes lines) : splitLines bytes = lines := by
  induction lined with
  | nothing => rfl
  | last filled plain => exact splitLinesLast filled plain
  | line plain later ih => rw [splitLinesNext plain, ih]

theorem linedSplit (bytes : Bytes) : Lined bytes (splitLines bytes) := by
  induction length : bytes.length using Nat.strongRecOn generalizing bytes with
  | ind length ih =>
    by_cases newline : 0x0a ∈ bytes
    · obtain ⟨body, rest, rfl, plain⟩ := List.eq_append_cons_of_mem newline
      rw [splitLinesNext plain]
      exact .line plain (ih rest.length (by simp at length; omega) rest rfl)
    · by_cases filled : bytes = []
      · subst filled
        exact .nothing
      · rw [splitLinesLast filled newline]
        exact .last filled newline

def linesAhead (b : Blob) : List Bytes := splitLines (b.content.drop b.cursor)

theorem linedAhead (b : Blob) : Lined (b.content.drop b.cursor) b.linesAhead := linedSplit _

theorem bodyTaken {body rest : Bytes} (plain : 0x0a ∉ body)
    (stops : ∀ byte, rest.head? = some byte → byte = 0x0a) :
    (body ++ rest).takeWhile (· ≠ 0x0a) = body := by
  refine takeWhileAppend (fun byte mem => ?_) fun byte first => ?_
  · exact decide_eq_true fun newline => plain (newline ▸ mem)
  · exact decide_eq_false (Decidable.not_not.mpr (stops byte first))

theorem lineLengthLast {body : Bytes} (plain : 0x0a ∉ body) : lineLength body = body.length := by
  have taken := @bodyTaken body [] plain nofun
  rw [List.append_nil] at taken
  rw [lineLength, taken, if_neg (Nat.lt_irrefl _)]

theorem lineLengthNext {body : Bytes} (plain : 0x0a ∉ body) (rest : Bytes) :
    lineLength (body ++ 0x0a :: rest) = body.length + 1 := by
  have taken := @bodyTaken body (0x0a :: rest) plain fun byte first => (Option.some.inj first).symm
  rw [lineLength, taken, if_pos (by simp)]

theorem lineNext {first : Bytes} (wf : b.WellFormed)
    (lined : Lined (b.content.drop b.cursor) (first :: lines)) :
    b.line = .ok (some (viewOf first), b.moveTo (b.cursor + first.length)) ∧
      b.cursor + first.length ≤ b.used ∧
      Lined (b.content.drop (b.cursor + first.length)) lines := by
  obtain ⟨rest, ahead, filled, taken, later⟩ : ∃ rest, b.content.drop b.cursor = first ++ rest ∧
      first ≠ [] ∧ lineLength (first ++ rest) = first.length ∧ Lined rest lines := by
    generalize b.content.drop b.cursor = ahead at lined
    cases lined with
    | last filled plain =>
      exact ⟨[], (List.append_nil _).symm, filled, by simpa using lineLengthLast plain, .nothing⟩
    | @line body rest _ plain later =>
      refine ⟨rest, by simp, by simp, ?_, later⟩
      simpa using lineLengthNext plain rest
  have left := lengthRemaining wf
  have inside := wf.cursor_le
  rw [ahead, List.length_append] at left
  have fits : min first.length (b.used - b.cursor) = first.length := by omega
  have some : (viewOf first).isEmpty = false := by
    simpa [isEmpty, viewOf] using filled
  refine ⟨?_, by omega, by rwa [dropAhead ahead]⟩
  rw [lineInside wf, ahead, taken, extractInside wf, fits, partAhead ahead]
  exact congrArg Except.ok (Prod.ext (if_neg (by simp [some])) rfl)

theorem lineEnd (wf : b.WellFormed) (ended : b.content.drop b.cursor = []) :
    b.line = .ok (none, b) := by
  have nothing : b.part b.cursor b.cursor = [] := @partAhead b b.cursor [] _ rfl
  have length : lineLength [] = 0 := rfl
  rw [lineInside wf, ended, length, extractInside wf, Nat.zero_min, Nat.add_zero, nothing]
  rfl

theorem linesDrain (wf : b.WellFormed) (lined : Lined (b.content.drop b.cursor) lines) :
    Drained line b lines (b.moveTo b.used) := by
  induction lines generalizing b with
  | nil =>
    have ended : b.content.drop b.cursor = [] := lined.flatten.symm
    rw [moveToEnd wf ended]
    exact .done (lineEnd wf ended)
  | cons first lines ih =>
    obtain ⟨read, inside, later⟩ := lineNext wf lined
    have content : (viewOf first).content = first := List.take_length
    exact content ▸ .next read (ih (moveToWellFormed wf inside) later)

def readLines : Nat → Blob → Except Abort Blob
  | 0, b => .ok b
  | n + 1, b => do readLines n (← b.line).2

theorem readLinesInside (wf : b.WellFormed) (lined : Lined (b.content.drop b.cursor) lines)
    (n : Nat) : readLines n b = .ok (b.moveTo (b.cursor + (lines.take n).flatten.length)) := by
  induction n generalizing b lines with
  | zero => rfl
  | succ n ih =>
    cases lines with
    | nil =>
      have later := ih wf lined
      rw [List.take_nil] at later ⊢
      rw [readLines, lineEnd wf lined.flatten.symm]
      exact later
    | cons first lines =>
      obtain ⟨read, inside, later⟩ := lineNext wf lined
      rw [readLines, read, List.take_succ_cons, List.flatten_cons, List.length_append,
        ← Nat.add_assoc]
      exact ih (moveToWellFormed wf inside) later

theorem linesLengthLast {body : Bytes} (plain : 0x0a ∉ body) (taken n : Nat) :
    linesLength taken (n + 1) body = taken + body.length := by
  induction body generalizing taken with
  | nil => simp [linesLength]
  | cons byte body ih =>
    rw [linesLength, if_neg (List.ne_of_not_mem_cons plain).symm,
      ih (List.not_mem_of_not_mem_cons plain), List.length_cons, Nat.add_assoc, Nat.add_comm 1]

theorem linesLengthNext {body : Bytes} (plain : 0x0a ∉ body) (rest : Bytes) (taken n : Nat) :
    linesLength taken (n + 1) (body ++ 0x0a :: rest) =
      linesLength (taken + (body.length + 1)) n rest := by
  induction body generalizing taken with
  | nil => rw [List.nil_append, linesLength, if_pos rfl, List.length_nil, Nat.zero_add]
  | cons byte body ih =>
    rw [List.cons_append, linesLength, if_neg (List.ne_of_not_mem_cons plain).symm,
      ih (List.not_mem_of_not_mem_cons plain), List.length_cons, Nat.add_assoc, Nat.add_comm 1]

theorem Lined.taken (lined : Lined bytes lines) (taken n : Nat) :
    linesLength taken n bytes = taken + (lines.take n).flatten.length := by
  induction lined generalizing taken n with
  | nothing => cases n <;> simp [linesLength]
  | last filled plain =>
    cases n with
    | zero => rw [linesLength]; rfl
    | succ n => simp [linesLengthLast plain]
  | line plain later ih =>
    cases n with
    | zero => rw [linesLength]; rfl
    | succ n =>
      rw [linesLengthNext plain, ih, List.take_succ_cons, List.flatten_cons, List.length_append,
        List.length_append, List.length_singleton, Nat.add_assoc]

theorem Lined.apart (lined : Lined bytes lines) (n : Nat) :
    bytes = (lines.take n).flatten ++ (lines.drop n).flatten := by
  rw [← List.flatten_append, List.take_append_drop, lined.flatten]

theorem linesPartTaken (lined : Lined (b.content.drop b.cursor) lines) (n : Nat) :
    b.linesPart n = (lines.take n).flatten := by
  rw [linesPart, lined.taken, Nat.zero_add, partAhead (lined.apart n)]

theorem copyLinesWithin {target : Blob} {limit : Nat} (wf : b.WellFormed)
    (lined : Lined (b.content.drop b.cursor) lines) (n : Nat) (room : RoomFor target limit)
    (fits : target.used + (lines.take n).flatten.length ≤ limit) :
    ∃ e, b.copyLines target n = .ok ((lines.take n).flatten.length,
        b.moveTo (b.cursor + (lines.take n).flatten.length), e) ∧
      Written target (lines.take n).flatten e ∧ RoomFor e limit := by
  obtain ⟨e, done, written, left⟩ := (appendAppends _).within target limit room fits
  refine ⟨e, ?_, written, left⟩
  rw [copyLinesInside wf, linesPartTaken lined, done]
  rfl

theorem Lined.behind (lined : Lined (b.content.drop b.cursor) lines) (n : Nat) :
    Lined (b.content.drop (b.cursor + (lines.take n).flatten.length)) (lines.drop n) := by
  rw [dropAhead (lined.apart n)]
  exact lined.sublist (List.drop_sublist n lines)

theorem copyLinesTwice {target : Blob} {limit : Nat} (wf : b.WellFormed)
    (lined : Lined (b.content.drop b.cursor) lines) (n m : Nat) (room : RoomFor target limit)
    (fits : target.used + (lines.take (n + m)).flatten.length ≤ limit) :
    ∃ first moved e second after f whole, b.copyLines target n = .ok (first, moved, e) ∧
      moved.copyLines e m = .ok (second, after, f) ∧
      b.copyLines target (n + m) = .ok (first + second, after, whole) ∧ SameContent whole f := by
  have parts : (lines.take (n + m)).flatten =
      (lines.take n).flatten ++ ((lines.drop n).take m).flatten := by
    rw [List.take_add, List.flatten_append]
  have length := congrArg List.length parts
  rw [List.length_append] at length
  obtain ⟨whole, once, written, -⟩ := copyLinesWithin wf lined (n + m) room fits
  obtain ⟨e, first, writtenFirst, left⟩ := copyLinesWithin wf lined n room (by omega)
  have inside : b.cursor + (lines.take n).flatten.length ≤ b.used := by
    rw [← linesPartTaken lined]
    exact linesPartInside wf n
  have used := writtenFirst.used room.wellFormed
  obtain ⟨f, second, writtenSecond, -⟩ :=
    copyLinesWithin (moveToWellFormed wf inside) (lined.behind n) m left (by omega)
  refine ⟨_, _, e, _, _, f, whole, first, second, ?_, ?_⟩
  · rw [once, length, ← Nat.add_assoc]
    rfl
  · exact written.same (parts ▸ writtenFirst.trans writtenSecond)

-- The loop keeps the equation of what it matched on, so the match can be split but not rewritten.
theorem stripDone {after : Blob} (ended : b.line = .ok (none, after)) (target : Blob) :
    b.stripCommentLines target = .ok (after, target) := by
  rw [stripCommentLines]
  split <;> rename_i read <;> cases ended.symm.trans read
  rfl

theorem stripNext {found after : Blob} (read : b.line = .ok (some found, after)) (target : Blob) :
    b.stripCommentLines target =
      if isComment found.content then after.stripCommentLines target
      else target.append found.content >>= after.stripCommentLines := by
  rw [stripCommentLines]
  split <;> rename_i again <;> cases read.symm.trans again
  cases target.append found.content <;> rfl

theorem Drained.strip {after : Blob} (drained : Drained line b lines after) (target : Blob) :
    b.stripCommentLines target =
      (lines.filter (!isComment ·)).foldlM append target >>= fun extended =>
        .ok (after, extended) := by
  induction drained generalizing target with
  | done ended => exact stripDone ended target
  | @next b found moved lines after read later ih =>
    rw [stripNext read]
    by_cases comment : isComment found.content = true
    · rw [if_pos comment, ih, List.filter_cons_of_neg (by simp [comment])]
    · rw [if_neg comment, List.filter_cons_of_pos (by simp [comment]), List.foldlM_cons]
      cases target.append found.content with
      | error abort => rfl
      | ok target => exact ih target

def keptLines (b : Blob) : List Bytes := b.linesAhead.filter (!isComment ·)

theorem stripCommentLinesInside (wf : b.WellFormed) (target : Blob) : b.stripCommentLines target =
    b.keptLines.foldlM append target >>= fun extended => .ok (b.moveTo b.used, extended) :=
  (linesDrain wf b.linedAhead).strip target

theorem stripCommentLinesSound {target : Blob} (wf : b.WellFormed) (targetWf : target.WellFormed) :
    Sound (fun answer => answer.1 = b.moveTo b.used ∧ Written target b.keptLines.flatten answer.2)
      (b.stripCommentLines target) := by
  rw [stripCommentLinesInside wf, ← List.flatMap_id']
  exact soundBind ((Appends.each appendAppends b.keptLines).sound target targetWf) fun _ written =>
    ⟨rfl, written⟩

theorem stripCommentLinesWithin {target : Blob} {limit : Nat} (wf : b.WellFormed)
    (room : RoomFor target limit) (fits : target.used + b.keptLines.flatten.length ≤ limit) :
    ∃ e, b.stripCommentLines target = .ok (b.moveTo b.used, e) ∧
      Written target b.keptLines.flatten e := by
  rw [← List.flatMap_id'] at fits ⊢
  obtain ⟨e, done, written, -⟩ :=
    (Appends.each appendAppends b.keptLines).within target limit room fits
  exact ⟨e, by rw [stripCommentLinesInside wf, done]; rfl, written⟩

theorem keptLinesAgain {again : Blob}
    (same : again.content.drop again.cursor = b.keptLines.flatten) : again.keptLines = b.keptLines := by
  have lined : Lined b.keptLines.flatten b.keptLines :=
    b.linedAhead.sublist List.filter_sublist
  rw [keptLines, linesAhead, same, lined.split, keptLines, List.filter_filter]
  simp only [Bool.and_self]

structure Partition (b : Blob) (lines : List Bytes) : Prop where
  found : Drained line b lines (b.moveTo b.used)
  whole : lines.flatten = b.content.drop b.cursor
  plain : ∀ line ∈ lines, line ≠ [] ∧ 0x0a ∉ line.dropLast
  ended : ∀ line ∈ lines.dropLast, line.getLast? = some 0x0a
  counted : b.cursor = 0 → lines.length = b.lineCount

theorem linesPartition (wf : b.WellFormed) : Partition b b.linesAhead where
  found := linesDrain wf b.linedAhead
  whole := b.linedAhead.flatten
  plain := b.linedAhead.plain
  ended := b.linedAhead.ended
  counted start := by
    have lined := b.linedAhead
    rw [start, List.drop_zero] at lined
    exact lined.counted

def Strips (b : Blob) (kept : List Bytes) : Prop :=
  ∀ target limit, RoomFor target limit → target.used + kept.flatten.length ≤ limit →
    ∃ e, b.stripCommentLines target = .ok (b.moveTo b.used, e) ∧ Written target kept.flatten e

theorem lineReadersAgree (wf : b.WellFormed) :
    Partition b b.linesAhead ∧
    (∀ n, Reader.read b (.extractLines n) =
      .ok (some (viewOf (b.linesAhead.take n).flatten), b)) ∧
    (∀ n target limit, RoomFor target limit →
      target.used + (b.linesAhead.take n).flatten.length ≤ limit →
      ∃ moved e, readLines n b = .ok moved ∧
        b.copyLines target n = .ok ((b.linesAhead.take n).flatten.length, moved, e) ∧
        Written target (b.linesAhead.take n).flatten e) ∧
    (∀ n m target limit, RoomFor target limit →
      target.used + (b.linesAhead.take (n + m)).flatten.length ≤ limit →
      ∃ first moved e second after f whole, b.copyLines target n = .ok (first, moved, e) ∧
        moved.copyLines e m = .ok (second, after, f) ∧
        b.copyLines target (n + m) = .ok (first + second, after, whole) ∧ SameContent whole f) ∧
    Strips b (b.linesAhead.filter (·.head? ≠ some 0x23)) ∧
    ∀ again : Blob, again.WellFormed → again.content.drop again.cursor =
        (b.linesAhead.filter (·.head? ≠ some 0x23)).flatten →
      Strips again (b.linesAhead.filter (·.head? ≠ some 0x23)) := by
  have kept : b.linesAhead.filter (·.head? ≠ some 0x23) = b.keptLines := by
    simp [keptLines, isComment]
  rw [kept]
  refine ⟨linesPartition wf, fun n => ?_, fun n target limit room fits => ?_,
    fun n m target limit => copyLinesTwice wf b.linedAhead n m,
    fun target limit => stripCommentLinesWithin wf, fun again wf' same target limit => ?_⟩
  · rw [← linesPartTaken b.linedAhead]
    simp only [Reader.read, extractLinesInside wf]
    rfl
  · obtain ⟨e, copied, written, -⟩ := copyLinesWithin wf b.linedAhead n room fits
    exact ⟨_, e, readLinesInside wf b.linedAhead n, copied, written⟩
  · have again := @stripCommentLinesWithin again target limit wf'
    rwa [keptLinesAgain same] at again

theorem commentBetweenLines : ∃ b e f : Blob,
    b.content = Bytes.ascii ['a', 'b', '\n', '#', 'c', '\n', '\n', 'd'] ∧
    Partition b [Bytes.ascii ['b', '\n'], Bytes.ascii ['#', 'c', '\n'], Bytes.ascii ['\n'],
      Bytes.ascii ['d']] ∧
    b.stripCommentLines empty = .ok (b.moveTo 8, e) ∧
    e.content = Bytes.ascii ['b', '\n', '\n', 'd'] ∧
    e.stripCommentLines empty = .ok (e.moveTo e.used, f) ∧ f.content = e.content := by
  obtain ⟨partition, -, -, -, strips, again⟩ := @lineReadersAgree
    ⟨Bytes.ascii ['a', 'b', '\n', '#', 'c', '\n', '\n', 'd'], .owned, 8, 1, false⟩
    ⟨by decide, by decide, by decide⟩
  obtain ⟨e, done, written⟩ := strips empty 8 (emptyRoom (by decide)) (by decide)
  obtain ⟨f, redone, rewritten⟩ := again e written.wellFormed
    (by rw [written.content, written.cursor]; rfl) empty 8 (emptyRoom (by decide)) (by decide)
  exact ⟨_, e, f, rfl, partition, done, written.content, redone,
    rewritten.content.trans written.content.symm⟩

end ArtifactVault.Blob
