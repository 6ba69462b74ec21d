import ArtifactVault.Proofs.Shell.PosixWords

/-! Argument boundaries on a POSIX command line. `gluedWords` is what the shell makes of any list of
accepted arguments; it is the list itself exactly when no argument but the last ends the line in an
escaped space. -/
namespace ArtifactVault.Shell
open Blob (RoomFor)

def gluedWords (current : Bytes) (glued : Prop) [Decidable glued] : List (Bytes × Bool) → List Bytes
  | [] => [current]
  | argument :: rest =>
    if glued then gluedWords (current ++ guarded argument) (EndsOpen argument.1) rest
    else current :: gluedWords (guarded argument) (EndsOpen argument.1) rest

theorem lengthGluedWords (current : Bytes) (glued : Prop) [Decidable glued]
    (arguments : List (Bytes × Bool)) :
    (gluedWords current glued arguments).length ≤ arguments.length + 1 := by
  induction arguments generalizing current glued with
  | nil => exact Nat.le_refl _
  | cons argument rest ih =>
    rw [gluedWords]
    split
    · exact Nat.le_succ_of_le (ih _ _)
    · exact Nat.succ_le_succ (ih _ _)

theorem gluedWordsFewer (current : Bytes) (glued : Prop) [Decidable glued]
    {arguments : List (Bytes × Bool)} {argument : Bytes × Bool}
    (early : argument ∈ arguments.dropLast) (ends : EndsOpen argument.1) :
    (gluedWords current glued arguments).length ≤ arguments.length := by
  induction arguments generalizing current glued with
  | nil => cases early
  | cons first rest ih =>
    cases rest with
    | nil => cases early
    | cons second rest =>
      have tail (current : Bytes) :
          (gluedWords current (EndsOpen first.1) (second :: rest)).length ≤ (second :: rest).length := by
        rcases List.mem_cons.mp early with rfl | later
        · rw [gluedWords, if_pos ends]
          exact lengthGluedWords _ _ rest
        · exact ih _ _ later
      rw [gluedWords]
      split
      · exact Nat.le_succ_of_le (tail _)
      · exact Nat.succ_le_succ (tail _)

theorem gluedWordsParted (current : Bytes) {arguments : List (Bytes × Bool)}
    (parted : ∀ argument ∈ arguments.dropLast, ¬ EndsOpen argument.1) :
    gluedWords current False arguments = current :: arguments.map guarded := by
  induction arguments generalizing current with
  | nil => rfl
  | cons first rest ih =>
    rw [gluedWords, if_neg not_false, List.map_cons]
    cases rest with
    | nil => rfl
    | cons second rest =>
      have open' : ¬ EndsOpen first.1 := parted first (by simp)
      have same : gluedWords (guarded first) (EndsOpen first.1) (second :: rest) =
          gluedWords (guarded first) False (second :: rest) := by
        rw [gluedWords, gluedWords, if_neg open', if_neg not_false]
      rw [same, ih _ fun argument mem => parted argument (List.mem_cons_of_mem _ mem)]

theorem gluedWordsSame (current : Bytes) (arguments : List (Bytes × Bool)) :
    gluedWords current False arguments = current :: arguments.map guarded ↔
      ∀ argument ∈ arguments.dropLast, ¬ EndsOpen argument.1 := by
  refine ⟨fun same argument early ends => ?_, gluedWordsParted current⟩
  have fewer := gluedWordsFewer current False early ends
  rw [same, List.length_cons, List.length_map] at fewer
  exact Nat.not_succ_le_self _ fewer

def appendArguments (b : Blob) (arguments : List (Bytes × Bool)) : Except Abort Blob :=
  arguments.foldlM (fun b argument => appendArgument b .posix argument.1 argument.2) b

theorem lineGlues {line whole : Bytes} {arguments : List (Bytes × Bool)}
    (built : Line .posix line arguments whole) {finished : List Bytes} {current : Bytes}
    {glued : Prop} [Decidable glued] (before : LineReads line finished current glued) :
    posixWords? whole = some (finished ++ gluedWords current glued arguments) := by
  induction built generalizing finished current glued with
  | done line =>
    have reads := before.reads []
    rw [List.append_nil] at reads
    refine reads.trans ?_
    simp [posixWordsFrom, finish, gluedWords]
  | @argument line argument quoting arguments whole accepted _ ih =>
    rw [ih (before.argument argument.2 accepted), gluedWords]
    split
    · rfl
    · rw [List.append_assoc]
      rfl

theorem appendArgumentsReads {limit : Nat} {arguments : List (Bytes × Bool)}
    (accepted : ∀ argument ∈ arguments, ∃ quoting, scan .posix false argument.1 = .ok quoting)
    {b : Blob} {finished : List Bytes} {current : Bytes} {glued : Prop} [Decidable glued]
    (room : RoomFor b limit) (fits : b.used + (arguments.map (cost ·.1)).sum ≤ limit)
    (before : LineReads b.content finished current glued) :
    ∃ line, appendArguments b arguments = .ok line ∧
      posixWords? line.content = some (finished ++ gluedWords current glued arguments) := by
  obtain ⟨line, appended, built⟩ := appendArgumentsLine accepted room fits
  exact ⟨line, appended, lineGlues built before⟩

/-- The words are the command and its arguments, each unchanged behind its guard, exactly when no
argument but the last holds a single quote and ends in a space. -/
theorem posixBoundariesKept {b : Blob} {arguments : List (Bytes × Bool)}
    (named : b.content ≠ []) (safe : ∀ byte ∈ b.content, Flavor.posix.role byte = .safe)
    (accepted : ∀ argument ∈ arguments, ∃ quoting, scan .posix false argument.1 = .ok quoting)
    (room : RoomFor b (b.used + (arguments.map fun argument => 2 * argument.1.length + 5).sum)) :
    ∃ line, arguments.foldlM
        (fun b argument => appendArgument b .posix argument.1 argument.2) b = .ok line ∧
      (posixWords? line.content = some (b.content ::
          arguments.map fun argument => guardOf .posix argument.1 argument.2 ++ argument.1) ↔
        ∀ argument ∈ arguments.dropLast,
          ¬ (0x27 ∈ argument.1 ∧ argument.1.getLast? = some 0x20)) := by
  obtain ⟨line, built, words⟩ := appendArgumentsReads accepted room (Nat.le_refl _)
    (wordReads named safe)
  refine ⟨line, built, ?_⟩
  rw [words, List.nil_append, Option.some.injEq]
  exact gluedWordsSame b.content arguments

def removal : Blob := ⟨Bytes.ascii ['r', 'm'], .borrowed, 2, 0, false⟩

theorem removalReads : LineReads removal.content [] removal.content False :=
  wordReads (by decide) (by decide +kernel)

theorem removalRoom {limit : Nat} (small : 2 * limit + 200 < sizeCeiling) : RoomFor removal limit := by
  have capacity : removal.capacity = 2 := rfl
  have pad : Blob.appendPad = 100 := rfl
  exact ⟨⟨by decide, by decide, by decide⟩, by omega, fun _ => by omega⟩

theorem boundariesOfRemoval :
    ∃ line, [(Bytes.ascii ['i', 't', '\'', 's'], false), (Bytes.ascii ['-', 'a', ' '], true)].foldlM
        (fun b argument => appendArgument b .posix argument.1 argument.2) removal = .ok line ∧
      posixWords? line.content = some [Bytes.ascii ['r', 'm'], Bytes.ascii ['i', 't', '\'', 's'],
        Bytes.ascii ['.', '/', '-', 'a', ' ']] := by
  obtain ⟨line, built, words⟩ := @posixBoundariesKept removal
    [(Bytes.ascii ['i', 't', '\'', 's'], false), (Bytes.ascii ['-', 'a', ' '], true)]
    (by decide) (by decide +kernel) (by
      intro argument mem
      exact ⟨true, by revert argument; decide +kernel⟩) (removalRoom (by decide))
  exact ⟨line, built, words.mpr (by decide)⟩

theorem escapedSpaceJoins :
    (∀ argument ∈ [(Bytes.ascii ['i', 't', '\'', 's', ' '], false), (Bytes.ascii ['b'], false)],
      ∃ quoting, scan .posix false argument.1 = .ok quoting) ∧
    (∀ byte ∈ removal.content, Flavor.posix.role byte = .safe) ∧ RoomFor removal 100 ∧
    ∃ line, [(Bytes.ascii ['i', 't', '\'', 's', ' '], false), (Bytes.ascii ['b'], false)].foldlM
        (fun b argument => appendArgument b .posix argument.1 argument.2) removal = .ok line ∧
      posixWords? line.content =
        some [Bytes.ascii ['r', 'm'], Bytes.ascii ['i', 't', '\'', 's', ' ', 'b']] ∧
      posixWords? line.content ≠
        some [Bytes.ascii ['r', 'm'], Bytes.ascii ['i', 't', '\'', 's', ' '], Bytes.ascii ['b']] := by
  have accepted : ∀ argument ∈
      [(Bytes.ascii ['i', 't', '\'', 's', ' '], false), (Bytes.ascii ['b'], false)],
      ∃ quoting, scan .posix false argument.1 = .ok quoting := by
    intro argument mem
    rcases List.mem_cons.mp mem with rfl | last
    · exact ⟨true, by decide +kernel⟩
    · cases List.mem_singleton.mp last
      exact ⟨false, by decide +kernel⟩
  have room : RoomFor removal 100 := removalRoom (by decide)
  obtain ⟨line, built, words⟩ := appendArgumentsReads accepted room (by decide) removalReads
  have joined : posixWords? line.content =
      some [Bytes.ascii ['r', 'm'], Bytes.ascii ['i', 't', '\'', 's', ' ', 'b']] :=
    words.trans (by decide)
  refine ⟨accepted, by decide +kernel, room, line, built, joined, ?_⟩
  rw [joined]
  decide

end ArtifactVault.Shell
