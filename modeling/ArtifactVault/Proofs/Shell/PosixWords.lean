import Mathlib.Data.List.Basic
import ArtifactVault.Shell.Words
import ArtifactVault.Proofs.Byte
import ArtifactVault.Proofs.Shell.Quoting

/-! What a POSIX shell reads back from a command line that was built argument by argument. Each
argument is read as itself, behind its guard. An argument that holds a single quote and ends in a
space ends the line in an escaped space, which is taken for a separator: the next argument is then
read as part of it, and nothing else ever joins two arguments. -/
namespace ArtifactVault.Shell
open Blob (RoomFor Written)

def Plain (byte : UInt8) : Prop :=
  isBlank byte = false ∧ byte ≠ 0x27 ∧ byte ≠ 0x5c ∧ isPosixActive byte = false ∧
    Byte.isSpace byte = false

instance (byte : UInt8) : Decidable (Plain byte) := inferInstanceAs (Decidable (_ ∧ _))

theorem safePlain : ∀ byte, Flavor.posix.role byte = .safe → Plain byte :=
  Byte.everyByte (by decide +kernel)

theorem continuationPlain : ∀ byte, Utf8.isContinuation byte = true →
    Plain byte ∧ posixEscape? byte = none :=
  Byte.everyByte (by decide +kernel)

theorem newlineIllegal (byte : UInt8) (legal : Flavor.posix.role byte ≠ .illegal) :
    byte ≠ 0x0a := by
  rintro rfl
  exact legal (by decide)

theorem spaceIllegal : ∀ byte, Flavor.posix.role byte ≠ .illegal → byte ≠ 0x20 →
    Byte.isSpace byte = false :=
  Byte.everyByte (by decide +kernel)

theorem scanBytes {quoting result : Bool} {argument : Bytes}
    (accepted : scan .posix quoting argument = .ok result) :
    ∀ byte ∈ argument, Flavor.posix.role byte ≠ .illegal ∨ Utf8.isContinuation byte = true := by
  fun_induction scan .posix quoting argument with
  | case1 =>
    intro byte mem
    cases mem
  | case2 quoting b rest role ih =>
    intro byte mem
    rcases List.mem_cons.mp mem with rfl | later
    · exact .inl (by simp [role])
    · exact ih accepted byte later
  | case3 quoting b rest role ih =>
    intro byte mem
    rcases List.mem_cons.mp mem with rfl | later
    · exact .inl (by simp [role])
    · exact ih accepted byte later
  | case4 => cases accepted
  | case5 quoting b rest n role continuations whole ih =>
    intro byte mem
    rcases List.mem_cons.mp mem with rfl | later
    · exact .inl (by simp [role])
    · rw [← List.take_append_drop n rest, List.mem_append] at later
      rcases later with early | later
      · exact .inr (List.all_eq_true.mp whole.2 byte early)
      · exact ih accepted byte later
  | case6 => cases accepted

def Reads (bytes word : Bytes) : Prop :=
  ∀ current rest, posixWordsFrom .plain current (bytes ++ rest) =
    posixWordsFrom .plain (some (word.reverse ++ current.getD [])) rest

theorem Reads.append {xs ys first second : Bytes} (reads : Reads xs first)
    (next : Reads ys second) : Reads (xs ++ ys) (first ++ second) := by
  intro current rest
  rw [List.append_assoc, reads, next]
  simp

theorem readsPlain {byte : UInt8} (plain : Plain byte) : Reads [byte] [byte] := by
  obtain ⟨blank, quote, backslash, active, _⟩ := plain
  intro current rest
  rw [List.singleton_append, posixWordsFrom]
  simp only [blank, quote, backslash, active, Bool.false_eq_true, if_false]
  rfl

theorem readsBackslash {byte : UInt8} (notNewline : byte ≠ 0x0a) :
    Reads [0x5c, byte] [byte] := by
  intro current rest
  have blank : isBlank 0x5c = false := by decide
  rw [List.cons_append, List.singleton_append, posixWordsFrom]
  simp only [blank, Bool.false_eq_true, if_false, if_true,
    show (0x5c : UInt8) ≠ 0x27 by decide]
  rw [posixWordsFrom]
  simp only [if_neg notNewline]
  rfl

theorem quotedWordsFrom (bytes word rest : Bytes) (none : (0x27 : UInt8) ∉ bytes) :
    posixWordsFrom .quoted (some word) (bytes ++ 0x27 :: rest) =
      posixWordsFrom .plain (some (bytes.reverse ++ word)) rest := by
  induction bytes generalizing word with
  | nil =>
    rw [List.nil_append, posixWordsFrom]
    simp
  | cons byte bytes ih =>
    obtain ⟨first, later⟩ := not_or.mp (fun mem => none (List.mem_cons.mpr mem))
    rw [List.cons_append, posixWordsFrom]
    simp only [if_neg (Ne.symm first), push, Option.getD_some]
    rw [ih _ later]
    simp

theorem readsQuoted (bytes : Bytes) (none : (0x27 : UInt8) ∉ bytes) :
    Reads ([0x27] ++ bytes ++ [0x27]) bytes := by
  intro current rest
  have blank : isBlank 0x27 = false := by decide
  have open' : posixWordsFrom .plain current (0x27 :: (bytes ++ 0x27 :: rest)) =
      posixWordsFrom .quoted (start current) (bytes ++ 0x27 :: rest) := by
    rw [posixWordsFrom]
    simp [blank]
  have layout : [0x27] ++ bytes ++ [0x27] ++ rest = 0x27 :: (bytes ++ 0x27 :: rest) := by simp
  rw [layout, open', start]
  exact quotedWordsFrom bytes _ rest none

/-- A text and what it stands for: bytes that stand for themselves, bytes behind a backslash, and
stretches between single quotes, one behind the other. -/
inductive Quotation : Bytes → Bytes → Prop where
  | plain {byte : UInt8} (plain : Plain byte) : Quotation [byte] [byte]
  | escaped {byte : UInt8} (notNewline : byte ≠ 0x0a) : Quotation [0x5c, byte] [byte]
  | quoted {bytes : Bytes} (none : (0x27 : UInt8) ∉ bytes) :
      Quotation ([0x27] ++ bytes ++ [0x27]) bytes
  | append {xs ys first second : Bytes} (front : Quotation xs first) (back : Quotation ys second) :
      Quotation (xs ++ ys) (first ++ second)

theorem Quotation.reads {text word : Bytes} (quotation : Quotation text word) : Reads text word := by
  induction quotation with
  | plain plain => exact readsPlain plain
  | escaped notNewline => exact readsBackslash notNewline
  | quoted none => exact readsQuoted _ none
  | append _ _ front back => exact front.append back

theorem plainQuotation {bytes : Bytes} (nonempty : bytes ≠ [])
    (plain : ∀ byte ∈ bytes, Plain byte) : Quotation bytes bytes := by
  induction bytes with
  | nil => exact absurd rfl nonempty
  | cons byte bytes ih =>
    have first := Quotation.plain (plain byte (by simp))
    by_cases last : bytes = []
    · rw [last]
      exact first
    · exact first.append (ih last fun later mem => plain later (by simp [mem]))

theorem escapedQuotation {byte : UInt8}
    (accepted : Flavor.posix.role byte ≠ .illegal ∨ Utf8.isContinuation byte = true) :
    Quotation (escapedBy posixEscape? byte) [byte] := by
  rcases accepted with legal | continuation
  · have newline := newlineIllegal byte legal
    unfold escapedBy posixEscape?
    cases role : Flavor.posix.role byte with
    | safe => exact .plain (safePlain byte role)
    | quoted => exact .escaped newline
    | illegal => exact absurd role legal
    | lead n => exact .escaped newline
  · obtain ⟨plain, bare⟩ := continuationPlain byte continuation
    unfold escapedBy
    rw [bare]
    exact .plain plain

theorem allEscapedQuotation {bytes : Bytes} (nonempty : bytes ≠ [])
    (accepted : ∀ byte ∈ bytes,
      Flavor.posix.role byte ≠ .illegal ∨ Utf8.isContinuation byte = true) :
    Quotation (bytes.flatMap (escapedBy posixEscape?)) bytes := by
  induction bytes with
  | nil => exact absurd rfl nonempty
  | cons byte bytes ih =>
    have first := escapedQuotation (accepted byte (by simp))
    by_cases last : bytes = []
    · rw [last, List.flatMap_singleton]
      exact first
    · exact first.append (ih last fun later mem => accepted later (by simp [mem]))

def guarded (argument : Bytes × Bool) : Bytes :=
  guardOf .posix argument.1 argument.2 ++ argument.1

theorem argumentQuotation {argument : Bytes} {quoting : Bool} (isFilename : Bool)
    (accepted : scan .posix false argument = .ok quoting) :
    Quotation (argumentText .posix quoting argument isFilename) (guarded (argument, isFilename)) := by
  have guardPlain byte (mem : byte ∈ guardOf .posix argument isFilename) : Plain byte :=
    safePlain byte (guardSafe .posix argument isFilename byte mem)
  rw [guarded]
  rcases argumentTextCases isFilename accepted with text | ⟨filled, safe, text⟩
  · rw [text, quotedText]
    by_cases held : argument.contains 0x27 = true
    · have nonempty : argument ≠ [] := by rintro rfl; cases held
      have escaped := allEscapedQuotation nonempty (scanBytes accepted)
      simp only [if_pos held]
      by_cases unguarded : guardOf .posix argument isFilename = []
      · rw [unguarded]
        exact escaped
      · exact (plainQuotation unguarded guardPlain).append escaped
    · have notInArgument : (0x27 : UInt8) ∉ argument := by simpa using held
      have notInGuard : (0x27 : UInt8) ∉ guardOf .posix argument isFilename := fun mem =>
        (guardPlain _ mem).2.1 rfl
      have none : (0x27 : UInt8) ∉ guardOf .posix argument isFilename ++ argument := by
        rw [List.mem_append]
        exact not_or.mpr ⟨notInGuard, notInArgument⟩
      have quoted := Quotation.quoted none
      simp only [if_neg held]
      rw [← List.append_assoc] at quoted
      exact quoted
  · rw [text]
    refine plainQuotation (fun none => filled (List.append_eq_nil_iff.mp none).2) ?_
    refine List.forall_mem_append.mpr ⟨guardPlain, fun byte mem => ?_⟩
    exact safePlain byte (safe byte mem)

/-- The line ends in a space after this argument, although the shell reads that space as part of
the argument. -/
def EndsOpen (argument : Bytes) : Prop := 0x27 ∈ argument ∧ argument.getLast? = some 0x20

instance (argument : Bytes) : Decidable (EndsOpen argument) := by
  unfold EndsOpen
  infer_instance

theorem separatorBehind (line : Bytes) (byte : UInt8) :
    separator (line ++ [byte]) = if Byte.isSpace byte then [] else [0x20] := by
  simp only [separator, List.getLast?_concat]

theorem escapedByEnds (escape? : UInt8 → Option UInt8) (byte : UInt8) :
    ∃ front, escapedBy escape? byte = front ++ [byte] := by
  unfold escapedBy
  split
  · exact ⟨[_], rfl⟩
  · exact ⟨[], rfl⟩

theorem separatorAfter (line : Bytes) {argument : Bytes} {quoting : Bool} (isFilename : Bool)
    (accepted : scan .posix false argument = .ok quoting) :
    separator (line ++ argumentText .posix quoting argument isFilename) =
      if EndsOpen argument then [] else [0x20] := by
  rcases argumentTextCases isFilename accepted with text | ⟨filled, safe, text⟩
  · rw [text, quotedText]
    by_cases held : argument.contains 0x27 = true
    · have nonempty : argument ≠ [] := by rintro rfl; cases held
      have inside : (0x27 : UInt8) ∈ argument := by simpa using held
      obtain ⟨front, last, rfl⟩ := List.eq_nil_or_concat' argument |>.resolve_left nonempty
      obtain ⟨before, ends⟩ := escapedByEnds posixEscape? last
      have legal := scanBytes accepted last (by simp)
      simp only [if_pos held, List.flatMap_append, List.flatMap_singleton, ends]
      rw [← List.append_assoc, ← List.append_assoc, ← List.append_assoc, separatorBehind]
      simp only [EndsOpen, inside, List.getLast?_concat, Option.some.injEq, true_and]
      by_cases space : last = 0x20
      · rw [if_pos space, space]
        rfl
      · have dark : Byte.isSpace last = false := by
          rcases legal with role | continuation
          · exact spaceIllegal last role space
          · exact (continuationPlain last continuation).1.2.2.2.2
        rw [if_neg space, dark]
        rfl
    · have notOpen : ¬ EndsOpen argument := fun ends => held (by simpa using ends.1)
      simp only [if_neg held, if_neg notOpen]
      rw [← List.append_assoc, separatorBehind]
      rfl
  · have notOpen : ¬ EndsOpen argument := fun ends => absurd (safe _ ends.1) (by decide)
    rw [text, if_neg notOpen]
    obtain ⟨front, last, rfl⟩ := List.eq_nil_or_concat' argument |>.resolve_left filled
    rw [← List.append_assoc, ← List.append_assoc, separatorBehind,
      (safePlain last (safe last (by simp))).2.2.2.2]
    rfl

/-- The shell has read the words `finished` and is reading `current` at the end of the line; the
line is `glued` to what comes next. -/
structure LineReads (line : Bytes) (finished : List Bytes) (current : Bytes) (glued : Prop)
    [Decidable glued] : Prop where
  reads : ∀ rest, posixWordsFrom .plain none (line ++ rest) =
    (posixWordsFrom .plain (some current.reverse) rest).map (finished ++ ·)
  separated : separator line = if glued then [] else [0x20]

theorem wordReads {word : Bytes} (named : word ≠ [])
    (safe : ∀ byte ∈ word, Flavor.posix.role byte = .safe) : LineReads word [] word False := by
  have plain byte (mem : byte ∈ word) : Plain byte := safePlain byte (safe byte mem)
  refine ⟨fun rest => ?_, ?_⟩
  · rw [(plainQuotation named plain).reads]
    simp
  · obtain ⟨front, last, rfl⟩ := List.eq_nil_or_concat' word |>.resolve_left named
    rw [separatorBehind, (plain last (by simp)).2.2.2.2]
    simp

theorem LineReads.argument {line : Bytes} {finished : List Bytes} {current argument : Bytes}
    {glued : Prop} [Decidable glued] {quoting : Bool} (before : LineReads line finished current glued)
    (isFilename : Bool) (accepted : scan .posix false argument = .ok quoting) :
    LineReads (line ++ added .posix line quoting argument isFilename)
      (if glued then finished else finished ++ [current])
      (if glued then current ++ guarded (argument, isFilename) else guarded (argument, isFilename))
      (EndsOpen argument) := by
  have reads := (argumentQuotation isFilename accepted).reads
  refine ⟨fun rest => ?_, ?_⟩
  · rw [added, before.separated, List.append_assoc, List.append_assoc, before.reads]
    by_cases joined : glued
    · rw [if_pos joined, if_pos joined, if_pos joined, List.nil_append, reads]
      simp
    · have ended : finish (some current.reverse) = (current :: ·) := by
        funext words
        simp [finish]
      have parted : posixWordsFrom .plain (some current.reverse)
          (0x20 :: (argumentText .posix quoting argument isFilename ++ rest)) =
          (posixWordsFrom .plain none
            (argumentText .posix quoting argument isFilename ++ rest)).map (current :: ·) := by
        rw [posixWordsFrom, ended]
        rfl
      rw [if_neg joined, if_neg joined, if_neg joined, List.singleton_append, parted, reads]
      simp [Function.comp_def]
  · rw [added, ← List.append_assoc]
    exact separatorAfter _ isFilename accepted

end ArtifactVault.Shell
