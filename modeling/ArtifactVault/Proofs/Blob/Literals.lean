import Mathlib.Algebra.Ring.Nat
import Mathlib.Data.List.Forall2
import ArtifactVault.Proofs.Blob.Compose
import ArtifactVault.Proofs.Blob.Tokens

/-! SQL literals and the tokenizer. A doubled quote never ends a literal and a single one always
does, so a text that stands between white space is one token, whatever quotes it holds, and the next
literal begins where the next token does. -/
namespace ArtifactVault.Blob
variable {b : Blob}

def undoubled : Bytes → Bytes
  | 0x27 :: 0x27 :: rest => 0x27 :: undoubled rest
  | byte :: rest => byte :: undoubled rest
  | [] => []

def Spells (token : Bytes) : Option String → Prop
  | some text => ∃ interior, token = [0x27] ++ interior ++ [0x27] ∧
      undoubled interior = Utf8.ofString text
  | none => token = Bytes.ascii ['N', 'U', 'L', 'L']

theorem replacedQuote (bytes : Bytes) :
    replaced (doubled 0x27) (0x27 :: bytes) = 0x27 :: 0x27 :: replaced (doubled 0x27) bytes :=
  rfl

theorem replacedOther {byte : UInt8} (other : byte ≠ 0x27) (bytes : Bytes) :
    replaced (doubled 0x27) (byte :: bytes) = byte :: replaced (doubled 0x27) bytes := by
  rw [replaced, List.flatMap_cons, doubled, if_neg other]
  rfl

theorem undoubledReplaced (bytes : Bytes) : undoubled (replaced (doubled 0x27) bytes) = bytes := by
  induction bytes with
  | nil => rfl
  | cons byte bytes ih =>
    by_cases quote : byte = 0x27
    · rw [quote, replacedQuote, undoubled, ih]
    · rw [replacedOther quote, undoubled, ih]
      exact fun rest same => absurd same quote

theorem literalSpells (text : Option String) : Spells (sqlLiteral text) text := by
  cases text with
  | none => rfl
  | some text => exact ⟨_, rfl, undoubledReplaced _⟩

theorem quoteDark : Byte.isSpace 0x27 = false := by decide

theorem Parted.unquoted {bytes : Bytes} (parted : Parted bytes) : bytes.head? ≠ some 0x27 := by
  intro quote
  have space := parted 0x27 quote
  rw [quoteDark] at space
  cases space

theorem replacedPaired (bytes : Bytes) : QuotesPaired (replaced (doubled 0x27) bytes) := by
  induction bytes with
  | nil => exact .nil
  | cons byte bytes ih =>
    by_cases quote : byte = 0x27
    · rw [quote, replacedQuote]
      exact .pair ih
    · rw [replacedOther quote]
      exact .other quote ih

theorem sqlTokenLengthLiteral (text : Option String) {rest : Bytes} (parted : Parted rest) :
    sqlTokenLength (sqlLiteral text ++ rest) = (sqlLiteral text).length := by
  cases text with
  | some text =>
    have closing :=
      literalLengthClosed (replacedPaired (Utf8.ofString text)) parted.unquoted 1
    have opened : sqlLiteral (some text) ++ rest =
        0x27 :: (replaced (doubled 0x27) (Utf8.ofString text) ++ 0x27 :: rest) := by
      simp [sqlLiteral]
    rw [opened, sqlTokenLength, closing]
    simp only [sqlLiteral, List.length_append, List.length_singleton]
  | none =>
    have word : ∀ byte ∈ sqlLiteral none, (!Byte.isSpace byte) = true := by decide +kernel
    show wordLength (sqlLiteral none ++ rest) = _
    rw [wordLength, takeWhileAppend word fun byte first => by simp [parted byte first]]

theorem literalDark (text : Option String) (rest : Bytes) (byte : UInt8)
    (first : (sqlLiteral text ++ rest).head? = some byte) : Byte.isSpace byte = false := by
  cases text with
  | some text =>
    cases (Option.some.inj first : 0x27 = byte)
    exact quoteDark
  | none =>
    cases (Option.some.inj first : 0x4e = byte)
    decide

theorem sqlTokenLiteral {text : Option String} {gap gap' rest : Bytes} (wf : b.WellFormed)
    (ahead : b.content.drop b.cursor = gap ++ (sqlLiteral text ++ (gap' ++ rest)))
    (spaces : Blank gap) (spaces' : Blank gap')
    (dark : ∀ byte, rest.head? = some byte → Byte.isSpace byte = false)
    (parted : Parted (gap' ++ rest)) :
    ∃ n, b.sqlToken = .ok (some (viewOf (sqlLiteral text)), b.moveTo n) ∧ n ≤ b.used ∧
      b.content.drop n = rest := by
  have filled : sqlLiteral text ≠ [] := by
    cases text with
    | some text => simp [sqlLiteral]
    | none => decide
  obtain ⟨n, gap'', token, -, inside, spaces'', behind, dark''⟩ :=
    tokenByNext wf sqlTokenLengthLe ahead spaces (literalDark text _) filled
      (sqlTokenLengthLiteral text parted)
  refine ⟨n, token, inside, ?_⟩
  -- both `rest` and what the cursor stands before are what is left without the white space
  have first := takeWhileAppend spaces' dark
  rw [behind, takeWhileAppend spaces'' dark''] at first
  rw [first] at behind
  exact (List.append_cancel_left behind).symm

theorem sqlTokenEnd (wf : b.WellFormed) (ended : b.content.drop b.cursor = []) :
    b.sqlToken = .ok (none, b) := by
  have token : b.sqlToken = .ok (none, b.moveTo b.used) :=
    tokenByEnd wf sqlTokenLengthLe (ended ▸ nofun)
  rwa [moveToEnd wf ended] at token

def readTokens : Nat → Blob → Except Abort (List (Option Bytes))
  | 0, _ => .ok []
  | n + 1, b => do
    let (found, moved) ← b.sqlToken
    return found.map content :: (← readTokens n moved)

theorem readTokensNext {found : Option Blob} {moved : Blob} {n : Nat}
    {tokens : List (Option Bytes)} (token : b.sqlToken = .ok (found, moved))
    (later : readTokens n moved = .ok tokens) :
    readTokens (n + 1) b = .ok (found.map content :: tokens) := by
  rw [readTokens, token]
  simp only [bind, Except.bind, later]
  rfl

theorem readTokensEnd (wf : b.WellFormed) (ended : b.content.drop b.cursor = []) (n : Nat) :
    readTokens n b = .ok (List.replicate n none) := by
  induction n with
  | zero => rfl
  | succ n ih => exact readTokensNext (sqlTokenEnd wf ended) ih

def laidOut (entries : List (Bytes × Option String)) : Bytes :=
  entries.flatMap fun entry => entry.1 ++ sqlLiteral entry.2

theorem readTokensLaidOut {gap : Bytes} {text : Option String}
    {entries : List (Bytes × Option String)} (wf : b.WellFormed)
    (ahead : b.content.drop b.cursor = gap ++ (sqlLiteral text ++ laidOut entries))
    (first : ∀ byte ∈ gap, Byte.isSpace byte = true)
    (spaces : ∀ entry ∈ entries, ∀ byte ∈ entry.1, Byte.isSpace byte = true)
    (parted : ∀ entry ∈ entries, entry.1 ≠ []) (more : Nat) :
    readTokens (entries.length + more + 1) b = .ok (some (sqlLiteral text) ::
      entries.map (fun entry => some (sqlLiteral entry.2)) ++ List.replicate more none) := by
  induction entries generalizing b gap text with
  | nil =>
    obtain ⟨n, token, inside, ended⟩ :=
      @sqlTokenLiteral b text gap [] [] wf ahead first nofun nofun nofun
    have later := readTokensEnd (moveToWellFormed wf inside) ended more
    have whole : (viewOf (sqlLiteral text)).content = sqlLiteral text := List.take_length
    rw [List.length_nil, Nat.zero_add, readTokensNext token later, Option.map_some, whole]
    rfl
  | cons entry entries ih =>
    have filled : entry.1 ≠ [] := parted entry (by simp)
    have blank := spaces entry (by simp)
    rw [laidOut, List.flatMap_cons, List.append_assoc] at ahead
    obtain ⟨n, token, inside, ahead⟩ := sqlTokenLiteral wf ahead first blank
      (literalDark entry.2 _) (by
        intro byte found
        obtain ⟨space, gap, same⟩ := List.exists_cons_of_ne_nil filled
        rw [same] at found blank
        cases found
        exact blank byte (by simp))
    have later := @ih (b.moveTo n) [] entry.2 (moveToWellFormed wf inside) ahead nofun
      (fun other mem => spaces other (by simp [mem])) (fun other mem => parted other (by simp [mem]))
    have whole : (viewOf (sqlLiteral text)).content = sqlLiteral text := List.take_length
    rw [List.length_cons, Nat.add_right_comm _ 1 more, readTokensNext token later, Option.map_some,
      whole]
    rfl

def appendEntry (b : Blob) (entry : Bytes × Option String) : Except Abort Blob :=
  entry.1.foldlM appendByte b >>= (·.appendSqlString entry.2)

theorem appendEntryAppends (entry : Bytes × Option String) :
    Appends (appendEntry · entry) (entry.1 ++ sqlLiteral entry.2) := by
  have gap : Built (fun b => entry.1.foldlM appendByte b) entry.1 :=
    (Built.each .byte entry.1).congr (fun _ => rfl) (List.flatMap_singleton' _)
  exact (gap.andThen (appendSqlStringBuilt entry.2)).appends

theorem lengthLaidOut (entries : List (Bytes × Option String)) : (laidOut entries).length =
    (entries.map fun entry => entry.1.length + (sqlLiteral entry.2).length).sum := by
  simp only [laidOut, List.length_flatMap, List.length_append]

theorem literalsReadBack {entries : List (Bytes × Option String)}
    (spaces : ∀ entry ∈ entries, ∀ byte ∈ entry.1, Byte.isSpace byte = true)
    (parted : ∀ entry ∈ entries.tail, entry.1 ≠ [])
    (small : 2 * (entries.map fun entry => entry.1.length + (sqlLiteral entry.2).length).sum + 200 <
      sizeCeiling) (more : Nat) :
    ∃ b tokens, entries.foldlM appendEntry empty = .ok b ∧
      readTokens (entries.length + more) b =
        .ok (tokens.map some ++ List.replicate more none) ∧
      List.Forall₂ (fun token entry => Spells token entry.2) tokens entries := by
  have build := Appends.each appendEntryAppends entries
  obtain ⟨b, built, written, -⟩ := build.within empty _ (emptyRoom small)
    (Nat.le_of_eq ((Nat.zero_add _).trans (lengthLaidOut entries)))
  have ahead : b.content.drop b.cursor = laidOut entries := by
    rw [written.cursor, written.content]
    rfl
  refine ⟨b, entries.map fun entry => sqlLiteral entry.2, built, ?_, ?_⟩
  · cases entries with
    | nil =>
      rw [List.length_nil, Nat.zero_add]
      exact readTokensEnd written.wellFormed ahead more
    | cons entry entries =>
      rw [laidOut, List.flatMap_cons, List.append_assoc] at ahead
      have read := readTokensLaidOut written.wellFormed ahead (spaces entry (by simp))
        (fun other mem => spaces other (by simp [mem])) parted more
      rw [List.length_cons, Nat.add_right_comm _ 1 more, read, List.map_map]
      rfl
  · rw [List.forall₂_map_left_iff]
    exact List.forall₂_same.mpr fun entry _ => literalSpells entry.2

theorem quotesReadBack :
    ∃ b tokens, [([], some "\'' OR '"), ([0x20], none), ([0x0a, 0x09], some ""),
        ([0x20], some "'")].foldlM appendEntry empty = .ok b ∧
      readTokens 6 b = .ok (tokens.map some ++ [none, none]) ∧
      List.Forall₂ (fun token entry => Spells token entry.2) tokens [([], some "\'' OR '"),
        ([0x20], none), ([0x0a, 0x09], some ""), (([0x20] : Bytes), some "'")] :=
  @literalsReadBack [([], some "\'' OR '"), ([0x20], none), ([0x0a, 0x09], some ""),
    ([0x20], some "'")] (by decide +kernel) (by decide +kernel) (by decide +kernel) 2

end ArtifactVault.Blob
