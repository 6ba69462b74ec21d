import Mathlib.Data.List.Basic
import ArtifactVault.Shell.Words
import ArtifactVault.Proofs.Byte
import ArtifactVault.Proofs.Shell.Quoting

/-! Argument boundaries on a Windows command line. A quoted part ends in a quote that no other quote
follows, so whatever an argument holds is read back as one word, and no line ends in white space:
the separator is always there. -/
namespace ArtifactVault.Shell
open Blob (RoomFor)

theorem windowsSafeBare : ∀ byte, Flavor.windows.role byte = .safe →
    Byte.isSpace byte = false ∧ byte ≠ 0x22 :=
  Byte.everyByte (by decide +kernel)

theorem windowsEscapes (byte : UInt8) :
    escapedBy windowsEscape? byte = if byte = 0x22 then [0x22, 0x22] else [byte] := by
  unfold escapedBy windowsEscape?
  by_cases quote : byte = 0x22
  · rw [if_pos quote, if_pos quote, quote]
  · rw [if_neg quote, if_neg quote]

theorem windowsEscapesNothing {bytes : Bytes} (none : (0x22 : UInt8) ∉ bytes) :
    bytes.flatMap (escapedBy windowsEscape?) = bytes := by
  induction bytes with
  | nil => rfl
  | cons byte bytes ih =>
    obtain ⟨first, later⟩ := not_or.mp (fun mem => none (List.mem_cons.mpr mem))
    rw [List.flatMap_cons, windowsEscapes, if_neg (Ne.symm first), ih later]
    rfl

theorem insideReads (bytes word rest : Bytes) :
    windowsWordsFrom .inside (some word) (bytes.flatMap (escapedBy windowsEscape?) ++ rest) =
      windowsWordsFrom .inside (some (bytes.reverse ++ word)) rest := by
  induction bytes generalizing word with
  | nil => rfl
  | cons byte bytes ih =>
    have further := ih (byte :: word)
    rw [List.reverse_cons, List.append_assoc, List.singleton_append, ← further,
      List.flatMap_cons, windowsEscapes]
    by_cases quote : byte = 0x22
    · subst quote
      rw [if_pos rfl, List.append_assoc, List.cons_append, windowsWordsFrom]
      simp only [if_true]
      rw [List.cons_append, windowsWordsFrom]
      simp only [if_true, List.nil_append, push, Option.getD_some]
    · rw [if_neg quote, List.append_assoc, List.singleton_append, windowsWordsFrom]
      simp only [if_neg quote, push, Option.getD_some]

theorem bareReads (bytes word rest : Bytes)
    (bare : ∀ byte ∈ bytes, Byte.isSpace byte = false ∧ byte ≠ 0x22) :
    windowsWordsFrom .outside (some word) (bytes ++ rest) =
      windowsWordsFrom .outside (some (bytes.reverse ++ word)) rest := by
  induction bytes generalizing word with
  | nil => rfl
  | cons byte bytes ih =>
    obtain ⟨dark, quote⟩ := bare byte (by simp)
    rw [List.reverse_cons, List.append_assoc, List.singleton_append,
      ← ih (byte :: word) fun later mem => bare later (by simp [mem]), List.cons_append,
      windowsWordsFrom]
    simp only [dark, Bool.false_eq_true, if_false, if_neg quote, push, Option.getD_some]

structure ReadsAs (line : Bytes) (words : List Bytes) : Prop where
  whole : windowsWords? line = some words
  onward : ∀ rest, windowsWordsFrom .outside none (line ++ 0x20 :: rest) =
    (windowsWordsFrom .outside none rest).map (words ++ ·)
  ending : ∃ front last, line = front ++ [last] ∧ Byte.isSpace last = false

theorem ReadsAs.separated {line : Bytes} {words : List Bytes} (reads : ReadsAs line words) :
    separator line = [0x20] := by
  obtain ⟨front, last, rfl, dark⟩ := reads.ending
  simp [separator, dark]

theorem readsAsOf {line word : Bytes} {mode : WindowsMode} (closed : mode ≠ .inside)
    (reads : ∀ rest, windowsWordsFrom .outside none (line ++ rest) =
      windowsWordsFrom mode (some word.reverse) rest)
    (ending : ∃ front last, line = front ++ [last] ∧ Byte.isSpace last = false) :
    ReadsAs line [word] := by
  have finished (words : List Bytes) : finish (some word.reverse) words = [word] ++ words := by
    simp [finish]
  have space : Byte.isSpace 0x20 = true := by decide
  refine ⟨?_, fun rest => ?_, ending⟩
  · have whole := reads []
    rw [List.append_nil] at whole
    rw [windowsWords?, whole, windowsWordsFrom, if_neg closed, finished]
    rfl
  · have same : finish (some word.reverse) = ([word] ++ ·) := funext finished
    rw [reads]
    cases mode with
    | inside => exact absurd rfl closed
    | outside =>
      rw [windowsWordsFrom]
      simp only [space, if_true, same]
    | doubled =>
      rw [windowsWordsFrom]
      simp only [space, if_true, same, show (0x20 : UInt8) ≠ 0x22 by decide, if_false]

theorem bareReadsAs {word : Bytes} (filled : word ≠ [])
    (safe : ∀ byte ∈ word, Flavor.windows.role byte = .safe) : ReadsAs word [word] := by
  have bare byte (mem : byte ∈ word) := windowsSafeBare byte (safe byte mem)
  refine @readsAsOf word word .outside nofun (fun rest => ?_) ?_
  · cases word with
    | nil => exact absurd rfl filled
    | cons byte bytes =>
      obtain ⟨dark, quote⟩ := bare byte (by simp)
      have more := bareReads bytes [byte] rest fun later mem => bare later (by simp [mem])
      rw [List.cons_append, windowsWordsFrom]
      simp only [dark, Bool.false_eq_true, if_false, if_neg quote, push, Option.getD_none]
      rw [more, List.reverse_cons]
  · obtain ⟨front, last, rfl⟩ := List.eq_nil_or_concat' word |>.resolve_left filled
    exact ⟨front, last, rfl, (bare last (by simp)).1⟩

theorem quotedReadsAs (bytes : Bytes) :
    ReadsAs ([0x22] ++ bytes.flatMap (escapedBy windowsEscape?) ++ [0x22]) [bytes] := by
  have space : Byte.isSpace 0x22 = false := by decide
  refine @readsAsOf _ bytes .doubled nofun (fun rest => ?_) ⟨_, 0x22, rfl, space⟩
  have inside := insideReads bytes [] (0x22 :: rest)
  rw [List.append_nil] at inside
  rw [List.append_assoc, List.append_assoc, List.singleton_append, List.singleton_append,
    windowsWordsFrom]
  simp only [space, Bool.false_eq_true, if_false, if_true, start, Option.getD_none]
  rw [inside, windowsWordsFrom]
  simp only [if_true]

theorem ReadsAs.next {line text word : Bytes} {words : List Bytes} (before : ReadsAs line words)
    (reads : ReadsAs text [word]) : ReadsAs (line ++ 0x20 :: text) (words ++ [word]) := by
  refine ⟨?_, fun rest => ?_, ?_⟩
  · have whole : windowsWordsFrom .outside none text = some [word] := reads.whole
    rw [windowsWords?, before.onward, whole]
    rfl
  · rw [List.append_assoc, List.cons_append, before.onward, reads.onward, Option.map_map]
    congr 1
    funext later
    simp
  · obtain ⟨front, last, rfl, dark⟩ := reads.ending
    exact ⟨line ++ 0x20 :: front, last, by simp, dark⟩

theorem argumentReadsAs {argument : Bytes} {quoting : Bool} (isFilename : Bool)
    (accepted : scan .windows false argument = .ok quoting) :
    ReadsAs (argumentText .windows quoting argument isFilename)
      [guardOf .windows argument isFilename ++ argument] := by
  have guarding := guardSafe .windows argument isFilename
  rcases argumentTextCases isFilename accepted with text | ⟨filled, safe, text⟩
  · have plainGuard := windowsEscapesNothing fun mem => (windowsSafeBare _ (guarding _ mem)).2 rfl
    have reads := quotedReadsAs (guardOf .windows argument isFilename ++ argument)
    rw [List.flatMap_append, plainGuard, ← List.append_assoc] at reads
    rw [text]
    exact reads
  · rw [text]
    exact bareReadsAs (fun nothing => filled (List.append_eq_nil_iff.mp nothing).2)
      (List.forall_mem_append.mpr ⟨guarding, safe⟩)

theorem lineReadsAs {line whole : Bytes} {arguments : List (Bytes × Bool)} {words : List Bytes}
    (built : Line .windows line arguments whole) (before : ReadsAs line words) :
    windowsWords? whole = some (words ++
      arguments.map fun argument => guardOf .windows argument.1 argument.2 ++ argument.1) := by
  induction built generalizing words with
  | done line => rw [before.whole, List.map_nil, List.append_nil]
  | @argument line argument quoting arguments whole accepted _ ih =>
    have after := before.next (argumentReadsAs argument.2 accepted)
    have added : added .windows line quoting argument.1 argument.2 =
        0x20 :: argumentText .windows quoting argument.1 argument.2 := by
      rw [added, before.separated]
      rfl
    rw [added] at ih
    rw [ih after, List.append_assoc]
    rfl

theorem windowsBoundariesKept {b : Blob} {arguments : List (Bytes × Bool)}
    (named : b.content ≠ []) (safe : ∀ byte ∈ b.content, Flavor.windows.role byte = .safe)
    (accepted : ∀ argument ∈ arguments, ∃ quoting, scan .windows false argument.1 = .ok quoting)
    (room : RoomFor b (b.used + (arguments.map fun argument => 2 * argument.1.length + 5).sum)) :
    ∃ line, arguments.foldlM
        (fun b argument => appendArgument b .windows argument.1 argument.2) b = .ok line ∧
      windowsWords? line.content = some (b.content ::
        arguments.map fun argument => guardOf .windows argument.1 argument.2 ++ argument.1) := by
  obtain ⟨line, appended, built⟩ := appendArgumentsLine accepted room (Nat.le_refl _)
  exact ⟨line, appended, lineReadsAs built (bareReadsAs named safe)⟩

def erasure : Blob := ⟨Bytes.ascii ['d', 'e', 'l'], .borrowed, 3, 0, false⟩

theorem boundariesOfErasure :
    ∃ line, [(Bytes.ascii ['-', '"', '\\', '"'], true), ([], false),
        (Bytes.ascii [' ', '"'], false)].foldlM
        (fun b argument => appendArgument b .windows argument.1 argument.2) erasure = .ok line ∧
      windowsWords? line.content = some [Bytes.ascii ['d', 'e', 'l'],
        Bytes.ascii ['.', '\\', '-', '"', '\\', '"'], [], Bytes.ascii [' ', '"']] := by
  refine @windowsBoundariesKept erasure [(Bytes.ascii ['-', '"', '\\', '"'], true), ([], false),
    (Bytes.ascii [' ', '"'], false)] (by decide) (by decide +kernel) (fun argument mem => ?_)
    ⟨⟨by decide, by decide, by decide⟩, by decide, fun _ => by decide⟩
  rcases List.mem_cons.mp mem with rfl | mem
  · exact ⟨true, by decide +kernel⟩
  · rcases List.mem_cons.mp mem with rfl | mem
    · exact ⟨false, by decide +kernel⟩
    · cases List.mem_singleton.mp mem
      exact ⟨true, by decide +kernel⟩

end ArtifactVault.Shell
