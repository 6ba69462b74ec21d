import ArtifactVault.Proofs.Shell.PosixWords

/-! One argument on a POSIX command line. Behind the separator stands a text that the shell reads as
the argument alone, behind its guard, whatever the line holds in front of it; outside of its quotes
and escapes this text has no byte that means anything to the shell. -/
namespace ArtifactVault.Shell
open Blob (RoomFor emptyRoom)

def bareBytes (mode : PosixMode) : Bytes → Bytes
  | [] => []
  | byte :: rest =>
    match mode with
    | .quoted => bareBytes (if byte = 0x27 then .plain else .quoted) rest
    | .escaped => bareBytes .plain rest
    | .plain =>
      if byte = 0x27 then bareBytes .quoted rest
      else if byte = 0x5c then bareBytes .escaped rest
      else byte :: bareBytes .plain rest

theorem bareBehindQuote (bytes rest : Bytes) (none : (0x27 : UInt8) ∉ bytes) :
    bareBytes .quoted (bytes ++ 0x27 :: rest) = bareBytes .plain rest := by
  induction bytes with
  | nil => rfl
  | cons byte bytes ih =>
    obtain ⟨first, later⟩ := not_or.mp (fun mem => none (List.mem_cons.mpr mem))
    rw [List.cons_append, bareBytes, if_neg (Ne.symm first), ih later]

theorem Quotation.bare {text word : Bytes} (quotation : Quotation text word) (rest : Bytes) :
    ∃ bare, (∀ byte ∈ bare, Plain byte) ∧
      bareBytes .plain (text ++ rest) = bare ++ bareBytes .plain rest := by
  induction quotation generalizing rest with
  | @plain byte plain =>
    refine ⟨[byte], by simpa using plain, ?_⟩
    rw [List.singleton_append, bareBytes, if_neg plain.2.1, if_neg plain.2.2.1]
    rfl
  | escaped => exact ⟨[], nofun, rfl⟩
  | @quoted bytes none =>
    refine ⟨[], nofun, ?_⟩
    have layout : [0x27] ++ bytes ++ [0x27] ++ rest = 0x27 :: (bytes ++ 0x27 :: rest) := by simp
    rw [layout, bareBytes, if_pos rfl]
    exact bareBehindQuote bytes rest none
  | @append xs ys first second _ _ front back =>
    obtain ⟨early, earlyPlain, read⟩ := front (ys ++ rest)
    obtain ⟨late, latePlain, further⟩ := back rest
    refine ⟨early ++ late, List.forall_mem_append.mpr ⟨earlyPlain, latePlain⟩, ?_⟩
    rw [List.append_assoc, read, further, List.append_assoc]

theorem plainOrdinary {byte : UInt8} (plain : Plain byte) : byte ∉ Flavor.posix.special := by
  obtain ⟨-, -, -, active, -⟩ := plain
  rw [isPosixActive, Bool.or_eq_false_iff] at active
  simpa using active.2

theorem Quotation.ordinary {text word : Bytes} (quotation : Quotation text word) :
    ∀ byte ∈ bareBytes .plain text, byte ∉ Flavor.posix.special := by
  obtain ⟨bare, plain, read⟩ := quotation.bare []
  rw [List.append_nil] at read
  rw [read]
  intro byte mem
  rw [bareBytes, List.append_nil] at mem
  exact plainOrdinary (plain byte mem)

theorem Reads.alone {text word : Bytes} (reads : Reads text word) :
    posixWords? text = some [word] := by
  have whole := reads none []
  rw [List.append_nil, Option.getD_none, List.append_nil] at whole
  rw [posixWords?, whole, posixWordsFrom, if_pos rfl, finish, List.reverse_reverse]

theorem guardedEq (argument : Bytes) (isFilename : Bool) :
    guarded (argument, isFilename) =
      if isFilename ∧ argument.head? = some 0x2d then Bytes.ascii ['.', '/'] ++ argument
      else argument := by
  unfold guarded guardOf
  by_cases dashed : isFilename ∧ argument.head? = some 0x2d
  · rw [if_pos dashed, if_pos (by simpa using dashed)]
    rfl
  · rw [if_neg dashed, if_neg (by simpa using dashed), List.nil_append]

theorem guardedUndashed (argument : Bytes) : (guarded (argument, true)).head? ≠ some 0x2d := by
  rw [guardedEq]
  by_cases dashed : argument.head? = some 0x2d
  · rw [if_pos ⟨rfl, dashed⟩]
    show some (0x2e : UInt8) ≠ some 0x2d
    decide
  · rw [if_neg fun both => dashed both.2]
    exact dashed

theorem separatorEq (line : Bytes) :
    separator line = if ∃ last ∈ line.getLast?, Byte.isSpace last = false then [0x20] else [] := by
  unfold separator
  cases line.getLast? with
  | none => rfl
  | some last => cases space : Byte.isSpace last <;> simp [space]

theorem posixArgumentExact {b : Blob} {argument : Bytes} (isFilename : Bool)
    (accepted : ∃ quoting, scan .posix false argument = .ok quoting)
    (room : RoomFor b (b.used + (2 * argument.length + 5))) :
    ∃ line text word, appendArgument b .posix argument isFilename = .ok line ∧
      line.content = b.content ++
        (if ∃ last ∈ b.content.getLast?, Byte.isSpace last = false then [0x20] else []) ++ text ∧
      posixWords? text = some [word] ∧
      word = (if isFilename ∧ argument.head? = some 0x2d then Bytes.ascii ['.', '/'] ++ argument
        else argument) ∧
      (isFilename → word.head? ≠ some 0x2d) ∧
      ∀ byte ∈ bareBytes .plain text, byte ∉ Flavor.posix.special := by
  obtain ⟨quoting, scanned⟩ := accepted
  have quotation := argumentQuotation isFilename scanned
  have short := lengthAdded .posix b.content quoting argument isFilename
  obtain ⟨line, appended, written, -⟩ :=
    appendArgumentWithin isFilename room scanned (Nat.add_le_add_left short _)
  refine ⟨line, argumentText .posix quoting argument isFilename, guarded (argument, isFilename),
    appended, ?_, quotation.reads.alone, guardedEq argument isFilename, ?_, quotation.ordinary⟩
  · rw [written.content, added, ← separatorEq, List.append_assoc]
    rfl
  · rintro rfl
    exact guardedUndashed argument

theorem dashedQuoteGuarded :
    ∃ line text word, appendArgument Blob.empty .posix (Bytes.ascii ['-', '\'', '~']) true = .ok line ∧
      line.content = text ∧ posixWords? text = some [word] ∧
      word = Bytes.ascii ['.', '/', '-', '\'', '~'] ∧
      ∀ byte ∈ bareBytes .plain text, byte ∉ Flavor.posix.special := by
  obtain ⟨line, text, word, appended, content, reads, same, -, ordinary⟩ :=
    @posixArgumentExact Blob.empty (Bytes.ascii ['-', '\'', '~']) true ⟨true, by decide +kernel⟩
      (emptyRoom (by decide))
  exact ⟨line, text, word, appended, content, reads, same.trans (by decide), ordinary⟩

end ArtifactVault.Shell
