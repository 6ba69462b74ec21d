import Mathlib.Algebra.Ring.Nat
import ArtifactVault.Proofs.Blob.Compose
import ArtifactVault.Shell.Quoting

/-! What an accepted argument adds to a command line: a separator that depends on the last byte of
the line alone, and a text that depends on the argument alone. -/
namespace ArtifactVault.Shell
open Blob (Built Written RoomFor)

theorem scanByteFault {flavor : Flavor} {quoting : Bool} {argument : Bytes} {byte : UInt8}
    (fault : scan flavor quoting argument = .error (.byte byte)) :
    byte ∈ argument ∧ flavor.role byte = .illegal := by
  fun_induction scan flavor quoting argument with
  | case1 => cases fault
  | case2 quoting b rest role ih => exact ⟨List.mem_cons_of_mem _ (ih fault).1, (ih fault).2⟩
  | case3 quoting b rest role ih => exact ⟨List.mem_cons_of_mem _ (ih fault).1, (ih fault).2⟩
  | case4 quoting b rest role =>
    cases fault
    exact ⟨List.mem_cons_self, role⟩
  | case5 quoting b rest n role continuations whole ih =>
    exact ⟨List.mem_cons_of_mem _ (List.mem_of_mem_drop (ih fault).1), (ih fault).2⟩
  | case6 => cases fault

theorem scanQuoting {flavor : Flavor} {quoting result : Bool} {argument : Bytes}
    (accepted : scan flavor quoting argument = .ok result) (began : quoting = true) :
    result = true := by
  fun_induction scan flavor quoting argument with
  | case1 => cases accepted; exact began
  | case2 quoting b rest role ih => exact ih accepted began
  | case3 quoting b rest role ih => exact ih accepted rfl
  | case4 => cases accepted
  | case5 quoting b rest n role continuations whole ih => exact ih accepted rfl
  | case6 => cases accepted

theorem scanSafe {flavor : Flavor} {argument : Bytes}
    (accepted : scan flavor false argument = .ok false) :
    ∀ byte ∈ argument, flavor.role byte = .safe := by
  induction argument with
  | nil =>
    intro byte mem
    cases mem
  | cons b rest ih =>
    rw [scan] at accepted
    cases role : flavor.role b with
    | safe =>
      rw [role] at accepted
      intro byte mem
      rcases List.mem_cons.mp mem with rfl | later
      · exact role
      · exact ih accepted byte later
    | quoted =>
      rw [role] at accepted
      cases scanQuoting accepted rfl
    | illegal => rw [role] at accepted; cases accepted
    | lead n =>
      rw [role] at accepted
      simp only at accepted
      split at accepted
      · cases scanQuoting accepted rfl
      · cases accepted

theorem checkSound (flavor : Flavor) (argument : Bytes) (command : Option Bytes) :
    Sound (fun quoting => scan flavor false argument = .ok quoting)
      (check flavor argument command) := by
  unfold check
  split
  · assumption
  · rename_i fault
    obtain ⟨present, illegal⟩ := scanByteFault fault
    exact .argumentByte present ⟨flavor, illegal⟩
  · exact .argumentText

theorem checkAccepted {flavor : Flavor} {argument : Bytes} {quoting : Bool}
    (accepted : scan flavor false argument = .ok quoting) (command : Option Bytes) :
    check flavor argument command = .ok quoting := by
  simp only [check, accepted]

def escapedBy (escape? : UInt8 → Option UInt8) (byte : UInt8) : Bytes :=
  match escape? byte with
  | some before => [before, byte]
  | none => [byte]

def quotedText (flavor : Flavor) (shield argument : Bytes) : Bytes :=
  match flavor with
  | .posix =>
    if argument.contains 0x27 then shield ++ argument.flatMap (escapedBy posixEscape?)
    else [0x27] ++ shield ++ argument ++ [0x27]
  | .windows => [0x22] ++ shield ++ argument.flatMap (escapedBy windowsEscape?) ++ [0x22]

def argumentText (flavor : Flavor) (quoting : Bool) (argument : Bytes) (isFilename : Bool) : Bytes :=
  if quoting || argument.isEmpty then quotedText flavor (guardOf flavor argument isFilename) argument
  else guardOf flavor argument isFilename ++ argument

theorem guardSafe (flavor : Flavor) (argument : Bytes) (isFilename : Bool) :
    ∀ byte ∈ guardOf flavor argument isFilename, flavor.role byte = .safe := by
  unfold guardOf
  split
  · cases flavor <;> decide +kernel
  · nofun

theorem argumentTextCases {flavor : Flavor} {quoting : Bool} {argument : Bytes} (isFilename : Bool)
    (accepted : scan flavor false argument = .ok quoting) :
    argumentText flavor quoting argument isFilename =
        quotedText flavor (guardOf flavor argument isFilename) argument ∨
      argument ≠ [] ∧ (∀ byte ∈ argument, flavor.role byte = .safe) ∧
        argumentText flavor quoting argument isFilename =
          guardOf flavor argument isFilename ++ argument := by
  unfold argumentText
  by_cases quoted : (quoting || argument.isEmpty) = true
  · rw [if_pos quoted]
    exact .inl rfl
  · obtain ⟨bare, filled⟩ := Bool.or_eq_false_iff.mp (Bool.eq_false_iff.mpr quoted)
    rw [bare] at accepted
    rw [if_neg quoted]
    exact .inr ⟨List.isEmpty_eq_false_iff.mp filled, scanSafe accepted, rfl⟩

def separator (line : Bytes) : Bytes :=
  match line.getLast? with
  | some last => if Byte.isSpace last then [] else [0x20]
  | none => []

theorem appendEscapedBuilt (escape? : UInt8 → Option UInt8) (byte : UInt8) :
    Built (appendEscaped escape? · byte) (escapedBy escape? byte) := by
  unfold appendEscaped escapedBy
  cases escape? byte with
  | none => exact Built.byte byte
  | some before => exact (Built.byte before).andThen (Built.byte byte)

theorem appendQuotedBuilt (flavor : Flavor) (shield argument : Bytes) :
    Built (appendQuoted · flavor shield argument) (quotedText flavor shield argument) := by
  unfold appendQuoted quotedText
  cases flavor with
  | posix =>
    simp only
    split
    · exact (Built.append shield).andThen (.each (appendEscapedBuilt posixEscape?) argument)
    · have quoted := (Built.byte 0x27).andThen ((Built.append shield).andThen
        ((Built.append argument).andThen (Built.byte 0x27)))
      exact quoted.congr (fun _ => rfl) (by simp only [List.append_assoc])
  | windows =>
    have quoted := (Built.byte 0x22).andThen ((Built.append shield).andThen
      ((Built.each (appendEscapedBuilt windowsEscape?) argument).andThen (Built.byte 0x22)))
    exact quoted.congr (fun _ => rfl) (by simp only [List.append_assoc])

def appendText (b : Blob) (flavor : Flavor) (quoting : Bool) (argument : Bytes)
    (isFilename : Bool) : Except Abort Blob :=
  if quoting || argument.isEmpty then
    appendQuoted b flavor (guardOf flavor argument isFilename) argument
  else do (← b.append (guardOf flavor argument isFilename)).append argument

theorem appendTextBuilt (flavor : Flavor) (quoting : Bool) (argument : Bytes)
    (isFilename : Bool) :
    Built (appendText · flavor quoting argument isFilename)
      (argumentText flavor quoting argument isFilename) := by
  unfold appendText argumentText
  split
  · exact appendQuotedBuilt flavor _ argument
  · exact (Built.append _).andThen (Built.append argument)

def separate (line : Bytes) (b : Blob) : Except Abort Blob :=
  if separator line = [] then .ok b else b.appendByte 0x20

theorem separatorCases (line : Bytes) : separator line = [] ∨ separator line = [0x20] := by
  unfold separator
  split
  · split
    · exact .inl rfl
    · exact .inr rfl
  · exact .inl rfl

theorem separateBuilt (line : Bytes) : Built (separate line) (separator line) := by
  unfold separate
  rcases separatorCases line with none | space
  · simp only [none, if_true]
    exact .nothing
  · simp only [space]
    exact Built.byte 0x20

theorem appendSeparatorEq (b : Blob) : appendSeparator b = separate b.content b := by
  unfold appendSeparator separate separator
  cases b.content.getLast? with
  | none => rfl
  | some last => cases space : Byte.isSpace last <;> simp [space]

def added (flavor : Flavor) (line : Bytes) (quoting : Bool) (argument : Bytes) (isFilename : Bool) :
    Bytes :=
  separator line ++ argumentText flavor quoting argument isFilename

theorem lengthEscapedBy (escape? : UInt8 → Option UInt8) (bytes : Bytes) :
    (bytes.flatMap (escapedBy escape?)).length ≤ 2 * bytes.length := by
  induction bytes with
  | nil => exact Nat.zero_le _
  | cons byte bytes ih =>
    have one : (escapedBy escape? byte).length ≤ 2 := by
      unfold escapedBy
      split <;> simp
    rw [List.flatMap_cons, List.length_append, List.length_cons]
    omega

theorem lengthGuard (flavor : Flavor) (argument : Bytes) (isFilename : Bool) :
    (guardOf flavor argument isFilename).length ≤ 2 := by
  unfold guardOf
  split
  · cases flavor <;> decide
  · exact Nat.zero_le _

theorem lengthQuotedText (flavor : Flavor) (shield argument : Bytes) :
    (quotedText flavor shield argument).length ≤ shield.length + 2 * argument.length + 2 := by
  cases flavor with
  | posix =>
    have escaped := lengthEscapedBy posixEscape? argument
    by_cases held : argument.contains 0x27 = true
    · simp only [quotedText, if_pos held, List.length_append]
      omega
    · simp only [quotedText, if_neg held, List.length_append, List.length_singleton]
      omega
  | windows =>
    have escaped := lengthEscapedBy windowsEscape? argument
    simp only [quotedText, List.length_append, List.length_singleton]
    omega

def cost (argument : Bytes) : Nat := 2 * argument.length + 5

theorem lengthAdded (flavor : Flavor) (line : Bytes) (quoting : Bool) (argument : Bytes)
    (isFilename : Bool) : (added flavor line quoting argument isFilename).length ≤ cost argument := by
  have between : (separator line).length ≤ 1 := by
    rcases separatorCases line with none | space
    · simp [none]
    · simp [space]
  have guarding := lengthGuard flavor argument isFilename
  have quoted := lengthQuotedText flavor (guardOf flavor argument isFilename) argument
  have text : (argumentText flavor quoting argument isFilename).length ≤ 2 * argument.length + 4 := by
    unfold argumentText
    split
    · omega
    · rw [List.length_append]
      omega
  rw [added, List.length_append, cost]
  omega

theorem addedBuilt (flavor : Flavor) (line : Bytes) (quoting : Bool) (argument : Bytes)
    (isFilename : Bool) :
    Built (fun b => separate line b >>= (appendText · flavor quoting argument isFilename))
      (added flavor line quoting argument isFilename) :=
  (separateBuilt line).andThen (appendTextBuilt flavor quoting argument isFilename)

theorem appendArgumentEq (b : Blob) (flavor : Flavor) (argument : Bytes) (isFilename : Bool) :
    appendArgument b flavor argument isFilename =
      check flavor argument (some (commandWord b.content)) >>= fun quoting =>
        separate b.content b.mark >>= (appendText · flavor quoting argument isFilename) := by
  unfold appendArgument
  rw [appendSeparatorEq]
  rfl

theorem appendArgumentSound {b : Blob} (wf : b.WellFormed) (flavor : Flavor) (argument : Bytes)
    (isFilename : Bool) :
    Sound (fun e => ∃ quoting, scan flavor false argument = .ok quoting ∧
        Written b.mark (added flavor b.content quoting argument isFilename) e)
      (appendArgument b flavor argument isFilename) := by
  rw [appendArgumentEq]
  refine soundBind (checkSound flavor argument _) fun quoting accepted => ?_
  exact soundMono ((addedBuilt flavor b.content quoting argument isFilename).appends.sound b.mark
    (Blob.markWellFormed wf)) fun e written => ⟨quoting, accepted, written⟩

theorem appendArgumentWithin {b : Blob} {limit : Nat} {flavor : Flavor} {argument : Bytes}
    {quoting : Bool} (isFilename : Bool) (room : RoomFor b limit)
    (accepted : scan flavor false argument = .ok quoting)
    (fits : b.used + (added flavor b.content quoting argument isFilename).length ≤ limit) :
    ∃ e, appendArgument b flavor argument isFilename = .ok e ∧
      Written b.mark (added flavor b.content quoting argument isFilename) e ∧ RoomFor e limit := by
  rw [appendArgumentEq, checkAccepted accepted]
  exact (addedBuilt flavor b.content quoting argument isFilename).appends.within b.mark limit
    room.mark fits

inductive Line (flavor : Flavor) : Bytes → List (Bytes × Bool) → Bytes → Prop where
  | done (line) : Line flavor line [] line
  | argument {line argument quoting arguments whole}
      (accepted : scan flavor false argument.1 = .ok quoting)
      (rest : Line flavor (line ++ added flavor line quoting argument.1 argument.2) arguments whole) :
      Line flavor line (argument :: arguments) whole

theorem appendArgumentsLine {flavor : Flavor} {limit : Nat} {arguments : List (Bytes × Bool)}
    (accepted : ∀ argument ∈ arguments, ∃ quoting, scan flavor false argument.1 = .ok quoting)
    {b : Blob} (room : RoomFor b limit)
    (fits : b.used + (arguments.map (cost ·.1)).sum ≤ limit) :
    ∃ whole, arguments.foldlM
        (fun b argument => appendArgument b flavor argument.1 argument.2) b = .ok whole ∧
      Line flavor b.content arguments whole.content := by
  induction arguments generalizing b with
  | nil => exact ⟨b, rfl, .done _⟩
  | cons argument rest ih =>
    obtain ⟨quoting, scanned⟩ := accepted argument (by simp)
    have short := lengthAdded flavor b.content quoting argument.1 argument.2
    rw [List.map_cons, List.sum_cons] at fits
    obtain ⟨e, appended, written, left⟩ :=
      appendArgumentWithin argument.2 room scanned (by omega)
    have used := written.used (Blob.markWellFormed room.wellFormed)
    have start : b.mark.used = b.used := rfl
    have content : e.content =
        b.content ++ added flavor b.content quoting argument.1 argument.2 := written.content
    obtain ⟨whole, built, line⟩ :=
      ih (fun later mem => accepted later (by simp [mem])) left (by omega)
    rw [content] at line
    refine ⟨whole, ?_, .argument scanned line⟩
    rw [List.foldlM_cons, appended]
    exact built

end ArtifactVault.Shell
