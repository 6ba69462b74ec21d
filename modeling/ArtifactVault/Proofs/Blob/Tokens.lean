import ArtifactVault.Proofs.Byte
import ArtifactVault.Proofs.Blob.Cursor

/-! Reading all tokens. What lies between them is white space, so nothing else is lost: words are
the runs without white space, and a literal goes to the first quote that closes it. Literals apart,
both readers find the same. -/
namespace ArtifactVault.Blob
variable {b : Blob}

def Blank (gap : Bytes) : Prop := ∀ byte ∈ gap, Byte.isSpace byte = true

def Dark (token : Bytes) : Prop := ∀ byte ∈ token, Byte.isSpace byte = false

def Parted (bytes : Bytes) : Prop := ∀ byte, bytes.head? = some byte → Byte.isSpace byte = true

structure Word (token rest : Bytes) : Prop where
  filled : token ≠ []
  dark : Dark token
  ends : Parted rest

def words (bytes : Bytes) : List Bytes := (bytes.splitOnP Byte.isSpace).filter (!·.isEmpty)

theorem wordsBehind {gap : Bytes} (blank : Blank gap) (rest : Bytes) :
    words (gap ++ rest) = words rest := by
  induction gap with
  | nil => rfl
  | cons space gap ih =>
    have split := List.splitOnP_append_cons [] (gap ++ rest) (blank space (by simp))
    rw [List.nil_append] at split
    rw [words, List.cons_append, split, List.splitOnP_nil, List.filter_append]
    exact ih fun byte mem => blank byte (List.mem_cons_of_mem _ mem)

theorem wordsOfBlank {gap : Bytes} (blank : Blank gap) : words gap = [] := by
  have behind := wordsBehind blank []
  rwa [List.append_nil] at behind

theorem wordsNext {token rest : Bytes} (word : Word token rest) :
    words (token ++ rest) = token :: words rest := by
  have whole : token.splitOnP Byte.isSpace = [token] := List.splitOnP_eq_singleton word.dark
  have kept : [token].filter (!·.isEmpty) = [token] := by
    simp [word.filled]
  cases rest with
  | nil =>
    rw [List.append_nil, words, whole, kept]
    rfl
  | cons space rest =>
    have blank := word.ends space rfl
    have behind := @wordsBehind [space] (by simpa [Blank] using blank) rest
    rw [words, List.splitOnP_append_cons _ _ blank, whole, List.filter_append, kept]
    exact congrArg (token :: ·) behind.symm

/-- Bytes as white space and tokens, where a token is known by itself and by what follows it. -/
inductive Spread (token : Bytes → Bytes → Prop) : Bytes → List Bytes → Prop where
  | blank {gap} (blank : Blank gap) : Spread token gap []
  | token {gap first rest tokens} (blank : Blank gap) (here : token first rest)
      (later : Spread token rest tokens) : Spread token (gap ++ first ++ rest) (first :: tokens)

theorem Spread.behind {token : Bytes → Bytes → Prop} {gap rest : Bytes} {tokens : List Bytes}
    (blank : Blank gap) (spread : Spread token rest tokens) : Spread token (gap ++ rest) tokens := by
  have both {other : Bytes} (more : Blank other) : Blank (gap ++ other) := fun byte mem =>
    (List.mem_append.mp mem).elim (blank byte) (more byte)
  cases spread with
  | blank more => exact .blank (both more)
  | token more here later =>
    rw [← List.append_assoc, ← List.append_assoc]
    exact .token (both more) here later

theorem Spread.words {bytes : Bytes} {tokens : List Bytes} (spread : Spread Word bytes tokens) :
    words bytes = tokens := by
  induction spread with
  | blank blank => exact wordsOfBlank blank
  | token blank here later ih => rw [List.append_assoc, wordsBehind blank, wordsNext here, ih]

theorem takeWhileAppend {wanted : UInt8 → Bool} {front rest : Bytes}
    (all : ∀ byte ∈ front, wanted byte = true)
    (stops : ∀ byte, rest.head? = some byte → wanted byte = false) :
    (front ++ rest).takeWhile wanted = front := by
  rw [List.takeWhile_append_of_pos all]
  cases rest with
  | nil => exact List.append_nil front
  | cons byte rest => rw [List.takeWhile_cons_of_neg (by simp [stops byte rfl]), List.append_nil]

theorem spaceLengthAppend {gap rest : Bytes} (spaces : Blank gap)
    (dark : ∀ byte, rest.head? = some byte → Byte.isSpace byte = false) :
    spaceLength (gap ++ rest) = gap.length := by
  rw [spaceLength, takeWhileAppend spaces dark]

theorem spacesApart (bytes : Bytes) : ∃ gap rest, bytes = gap ++ rest ∧ Blank gap ∧
    ∀ byte, rest.head? = some byte → Byte.isSpace byte = false := by
  refine ⟨bytes.takeWhile Byte.isSpace, bytes.dropWhile Byte.isSpace,
    List.takeWhile_append_dropWhile.symm, List.all_eq_true.mp List.all_takeWhile, ?_⟩
  intro byte first
  have stops := List.head?_dropWhile_not Byte.isSpace bytes
  rw [first] at stops
  exact stops

theorem tokenByEnd {length : Bytes → Nat} (wf : b.WellFormed)
    (short : ∀ bytes, length bytes ≤ bytes.length) (ended : Blank (b.content.drop b.cursor)) :
    tokenBy length b = .ok (none, b.moveTo b.used) := by
  have spaces := @spaceLengthAppend _ [] ended nofun
  have whole := lengthRemaining wf
  have inside := wf.cursor_le
  rw [List.append_nil] at spaces
  have start : b.tokenStart = b.used := by
    rw [tokenStart, spaces]
    omega
  have nothing : b.content.drop b.used = [] :=
    List.drop_eq_nil_of_le (Nat.le_of_eq (lengthContent wf))
  have stop : b.tokenStop length = b.used := by
    have none := short []
    rw [tokenStop, start, nothing]
    simpa using none
  rw [tokenByInside wf short, stop, start, nothing, if_neg (Nat.lt_irrefl _)]
  rfl

theorem tokenByNext {length : Bytes → Nat} {gap first rest : Bytes} (wf : b.WellFormed)
    (short : ∀ bytes, length bytes ≤ bytes.length)
    (ahead : b.content.drop b.cursor = gap ++ (first ++ rest)) (blank : Blank gap)
    (dark : ∀ byte, (first ++ rest).head? = some byte → Byte.isSpace byte = false)
    (filled : first ≠ []) (taken : length (first ++ rest) = first.length) :
    ∃ n gap', tokenBy length b = .ok (some (viewOf first), b.moveTo n) ∧ b.cursor < n ∧
      n ≤ b.used ∧ Blank gap' ∧ rest = gap' ++ b.content.drop n ∧
      ∀ byte, (b.content.drop n).head? = some byte → Byte.isSpace byte = false := by
  have positive : 0 < first.length := List.length_pos_iff.mpr filled
  have start : b.tokenStart = b.cursor + gap.length := by
    rw [tokenStart, ahead, spaceLengthAppend blank dark]
  have behindGap : b.content.drop b.tokenStart = first ++ rest := by
    rw [start, dropAhead ahead]
  have stop : b.tokenStop length = b.tokenStart + first.length := by
    rw [tokenStop, behindGap, taken]
  have behindToken : b.content.drop (b.tokenStop length) = rest := by
    rw [stop, dropAhead behindGap]
  have token : b.part b.tokenStart (b.tokenStop length) = first := by
    rw [stop, partAhead behindGap]
  obtain ⟨gap', later, apart, blank', dark'⟩ := spacesApart rest
  have spaces : spaceLength rest = gap'.length := by
    rw [apart, spaceLengthAppend blank' dark']
  have behind : b.content.drop (b.tokenStop length + gap'.length) = later :=
    dropAhead (behindToken.trans apart)
  have inside := behindSpaces wf (tokenStopInside wf short)
  rw [behindToken, spaces] at inside
  refine ⟨b.tokenStop length + gap'.length, gap', ?_, by omega, inside, blank', ?_, ?_⟩
  · rw [tokenByInside wf short, if_pos (by omega), token, behindToken, spaces]
  · rw [behind, apart]
  · rw [behind]
    exact dark'

def Finds (length : Bytes → Nat) (token : Bytes → Bytes → Prop) : Prop :=
  ∀ byte bytes, Byte.isSpace byte = false → ∃ first rest, byte :: bytes = first ++ rest ∧
    first ≠ [] ∧ length (byte :: bytes) = first.length ∧ token first rest

theorem tokensDrain {length : Bytes → Nat} {token : Bytes → Bytes → Prop} (wf : b.WellFormed)
    (short : ∀ bytes, length bytes ≤ bytes.length) (finds : Finds length token) :
    ∃ tokens, Drained (tokenBy length) b tokens (b.moveTo b.used) ∧
      Spread token (b.content.drop b.cursor) tokens := by
  -- A token is read with the white space behind it, so the next one begins at the cursor.
  induction left : b.used - b.cursor using Nat.strongRecOn generalizing b with
  | ind left ih =>
    obtain ⟨gap, rest, ahead, blank, dark⟩ := spacesApart (b.content.drop b.cursor)
    cases rest with
    | nil =>
      rw [List.append_nil] at ahead
      exact ⟨[], .done (tokenByEnd wf short (ahead ▸ blank)), ahead ▸ .blank blank⟩
    | cons byte rest =>
      obtain ⟨first, rest, whole, filled, taken, here⟩ := finds byte rest (dark byte rfl)
      rw [whole] at ahead dark taken
      obtain ⟨n, gap', read, onward, inside, blank', rfl, -⟩ :=
        tokenByNext wf short ahead blank dark filled taken
      obtain ⟨tokens, drained, spread⟩ :=
        ih (b.used - n) (by omega) (moveToWellFormed wf inside) rfl
      have content : (viewOf first).content = first := List.take_length
      refine ⟨first :: tokens, content ▸ .next read drained, ?_⟩
      rw [ahead, ← List.append_assoc]
      exact .token blank here (spread.behind blank')

theorem wordsFound : Finds wordLength Word := by
  intro byte bytes dark
  refine ⟨(byte :: bytes).takeWhile (!Byte.isSpace ·), (byte :: bytes).dropWhile (!Byte.isSpace ·),
    List.takeWhile_append_dropWhile.symm, ?_, rfl, ?_⟩
  · simp [dark]
  · refine ⟨by simp [dark], fun other mem => ?_, fun other first => ?_⟩
    · simpa using List.all_eq_true.mp List.all_takeWhile other mem
    · have stops := List.head?_dropWhile_not (!Byte.isSpace ·) (byte :: bytes)
      rw [first] at stops
      simpa using stops

inductive QuotesPaired : Bytes → Prop where
  | nil : QuotesPaired []
  | other {byte bytes} (other : byte ≠ 0x27) (later : QuotesPaired bytes) :
      QuotesPaired (byte :: bytes)
  | pair {bytes} (later : QuotesPaired bytes) : QuotesPaired (0x27 :: 0x27 :: bytes)

/-- The last quote closes the literal: those behind the first are taken in pairs, and it is not the
first of a pair itself. -/
def ClosedLiteral (literal rest : Bytes) : Prop :=
  ∃ interior, literal = [0x27] ++ interior ++ [0x27] ∧ QuotesPaired interior ∧
    rest.head? ≠ some 0x27

def Literal (token rest : Bytes) : Prop :=
  (ClosedLiteral token rest ∧ ∀ front more, front ++ more = token ++ rest →
    front.length < token.length → ¬ ClosedLiteral front more) ∨
  (rest = [] ∧ ∀ front more, front ++ more = token → ¬ ClosedLiteral front more)

def SqlToken (token rest : Bytes) : Prop :=
  (token.head? = some 0x27 ∧ Literal token rest) ∨ (token.head? ≠ some 0x27 ∧ Word token rest)

theorem literalShape (taken : Nat) (bytes : Bytes) :
    (∃ interior rest, bytes = interior ++ 0x27 :: rest ∧ QuotesPaired interior ∧
      rest.head? ≠ some 0x27 ∧ literalLength taken bytes = taken + interior.length + 1) ∨
    (QuotesPaired bytes ∧ literalLength taken bytes = taken + bytes.length) := by
  fun_induction literalLength taken bytes with
  | case1 => exact .inr ⟨.nil, rfl⟩
  | case2 taken bytes ih =>
    obtain ⟨interior, rest, rfl, paired, closed, length⟩ | ⟨paired, length⟩ := ih
    · refine .inl ⟨0x27 :: 0x27 :: interior, rest, rfl, .pair paired, closed, ?_⟩
      simp only [length, List.length_cons]
      omega
    · refine .inr ⟨.pair paired, ?_⟩
      simp only [length, List.length_cons]
      omega
  | case3 taken bytes notDoubled =>
    refine .inl ⟨[], bytes, rfl, .nil, ?_, rfl⟩
    intro quote
    obtain ⟨rest, rfl⟩ := List.head?_eq_some_iff.mp quote
    exact notDoubled rest rfl rfl
  | case4 taken byte bytes notDoubled other ih =>
    obtain ⟨interior, rest, rfl, paired, closed, length⟩ | ⟨paired, length⟩ := ih
    · refine .inl ⟨byte :: interior, rest, rfl, .other other paired, closed, ?_⟩
      simp only [length, List.length_cons]
      omega
    · refine .inr ⟨.other other paired, ?_⟩
      simp only [length, List.length_cons]
      omega

theorem closingOnce {xs ys rest rest' : Bytes} (pairedX : QuotesPaired xs)
    (pairedY : QuotesPaired ys) (closed : rest.head? ≠ some 0x27) (closed' : rest'.head? ≠ some 0x27)
    (same : xs ++ 0x27 :: rest = ys ++ 0x27 :: rest') : xs = ys := by
  -- A closing quote cannot be met inside of paired quotes, so the two runs of pairs keep step.
  induction pairedX generalizing ys with
  | nil =>
    cases pairedY with
    | nil => rfl
    | other other => exact absurd (List.cons.inj same).1.symm other
    | pair => exact absurd (congrArg List.head? (List.cons.inj same).2) closed
  | other other later ih =>
    cases pairedY with
    | nil => exact absurd (List.cons.inj same).1 other
    | other other' later' =>
      obtain ⟨first, same⟩ := List.cons.inj same
      rw [first, ih later' same]
    | pair => exact absurd (List.cons.inj same).1 other
  | pair later ih =>
    cases pairedY with
    | nil => exact absurd (congrArg List.head? (List.cons.inj same).2).symm closed'
    | other other => exact absurd (List.cons.inj same).1.symm other
    | pair later' => rw [ih later' (List.cons.inj (List.cons.inj same).2).2]

theorem QuotesPaired.behind {byte : UInt8} {bytes : Bytes} (paired : QuotesPaired (byte :: bytes))
    (other : byte ≠ 0x27) : QuotesPaired bytes := by
  cases paired with
  | other _ later => exact later
  | pair => exact absurd rfl other

theorem QuotesPaired.second {bytes : Bytes} (paired : QuotesPaired (0x27 :: bytes)) :
    ∃ rest, bytes = 0x27 :: rest ∧ QuotesPaired rest := by
  cases paired with
  | other other => exact absurd rfl other
  | pair later => exact ⟨_, rfl, later⟩

theorem closingNone {xs rest : Bytes} (paired : QuotesPaired (xs ++ 0x27 :: rest))
    (pairedX : QuotesPaired xs) : rest.head? = some 0x27 := by
  induction pairedX with
  | nil =>
    obtain ⟨tail, rfl, -⟩ := paired.second
    rfl
  | other other later ih => exact ih (paired.behind other)
  | pair later ih =>
    obtain ⟨tail, same, paired⟩ := paired.second
    cases same
    exact ih paired

theorem literalLengthClosed {interior rest : Bytes} (paired : QuotesPaired interior)
    (closed : rest.head? ≠ some 0x27) (taken : Nat) :
    literalLength taken (interior ++ 0x27 :: rest) = taken + interior.length + 1 := by
  obtain ⟨interior', rest', same, paired', closed', length⟩ | ⟨whole, -⟩ :=
    literalShape taken (interior ++ 0x27 :: rest)
  · rw [length, closingOnce paired paired' closed closed' same]
  · exact absurd (closingNone whole paired) closed

theorem literalFound (bytes : Bytes) : ∃ literal rest, 0x27 :: bytes = 0x27 :: literal ++ rest ∧
    literalLength 1 bytes = (0x27 :: literal).length ∧ Literal (0x27 :: literal) rest := by
  obtain ⟨interior, rest, rfl, paired, closed, length⟩ | ⟨paired, length⟩ := literalShape 1 bytes
  · refine ⟨interior ++ [0x27], rest, by simp, ?_, .inl ⟨⟨interior, rfl, paired, closed⟩, ?_⟩⟩
    · simp only [length, List.length_cons, List.length_append, List.length_nil]
      omega
    · rintro _ more same shorter ⟨interior', rfl, paired', closed'⟩
      have once : interior = interior' := closingOnce paired paired' closed closed' (by
        simpa using same.symm)
      rw [once] at shorter
      exact Nat.lt_irrefl _ shorter
  · refine ⟨bytes, [], by simp, ?_, .inr ⟨rfl, ?_⟩⟩
    · rw [length, List.length_cons, Nat.add_comm]
    · rintro _ more same ⟨interior, rfl, paired', closed⟩
      have whole : bytes = interior ++ 0x27 :: more := by simpa using same.symm
      exact closed (closingNone (whole ▸ paired) paired')

theorem sqlTokenLengthWord {byte : UInt8} (other : byte ≠ 0x27) (bytes : Bytes) :
    sqlTokenLength (byte :: bytes) = wordLength (byte :: bytes) := by
  unfold sqlTokenLength
  split
  · rename_i rest same
    exact absurd (List.cons.inj same).1 other
  · rfl

theorem sqlTokensFound : Finds sqlTokenLength SqlToken := by
  intro byte bytes dark
  by_cases quote : byte = 0x27
  · subst quote
    obtain ⟨literal, rest, whole, length, here⟩ := literalFound bytes
    exact ⟨0x27 :: literal, rest, whole, nofun, length, .inl ⟨rfl, here⟩⟩
  · obtain ⟨first, rest, whole, filled, length, here⟩ := wordsFound byte bytes dark
    refine ⟨first, rest, whole, filled, (sqlTokenLengthWord quote bytes).trans length,
      .inr ⟨?_, here⟩⟩
    obtain ⟨head, tail, rfl⟩ := List.exists_cons_of_ne_nil filled
    rw [← (List.cons.inj whole).1]
    exact fun same => quote (Option.some.inj same)

theorem wordQuoted (bytes : Bytes) : ∃ word ∈ words (0x27 :: bytes), word.head? = some 0x27 := by
  obtain ⟨word, rest, whole, filled, -, here⟩ := wordsFound 0x27 bytes (by decide)
  obtain ⟨head, tail, rfl⟩ := List.exists_cons_of_ne_nil filled
  refine ⟨head :: tail, ?_, congrArg some (List.cons.inj whole).1.symm⟩
  rw [whole, wordsNext here]
  exact List.mem_cons_self

theorem Spread.unquoted {bytes : Bytes} {tokens : List Bytes} (spread : Spread SqlToken bytes tokens)
    (plain : ∀ word ∈ Blob.words bytes, word.head? ≠ some 0x27) : tokens = Blob.words bytes := by
  induction spread with
  | blank blank => exact (wordsOfBlank blank).symm
  | @token gap first rest tokens blank here later ih =>
    rw [List.append_assoc, wordsBehind blank] at plain ⊢
    obtain ⟨quote, -⟩ | ⟨-, word⟩ := here
    · obtain ⟨tail, rfl⟩ := List.head?_eq_some_iff.mp quote
      obtain ⟨word, mem, quoted⟩ := wordQuoted (tail ++ rest)
      exact absurd quoted (plain word mem)
    · rw [wordsNext word] at plain ⊢
      rw [← ih fun other mem => plain other (List.mem_cons_of_mem _ mem)]

/-- Both readers end, with the cursor behind the content, and lose nothing but white space: the
words are found in order, and what is found with literals in it is spread over the same bytes.
Where no word begins with a quote both find the same. -/
theorem tokensLoseNothing (wf : b.WellFormed) :
    Drained token b (words (b.content.drop b.cursor)) (b.moveTo b.used) ∧
    Spread Word (b.content.drop b.cursor) (words (b.content.drop b.cursor)) ∧
    ∃ tokens, Drained sqlToken b tokens (b.moveTo b.used) ∧
      Spread SqlToken (b.content.drop b.cursor) tokens ∧
      ((∀ word ∈ words (b.content.drop b.cursor), word.head? ≠ some 0x27) →
        tokens = words (b.content.drop b.cursor)) := by
  obtain ⟨found, drained, spread⟩ := tokensDrain wf wordLengthLe wordsFound
  obtain ⟨tokens, drained', spread'⟩ := tokensDrain wf sqlTokenLengthLe sqlTokensFound
  rw [spread.words]
  exact ⟨drained, spread, tokens, drained', spread', spread.words ▸ spread'.unquoted⟩

theorem gluedTokens : ∃ b : Blob,
    b.content = Bytes.ascii ['x', ' ', '\'', 'a', '\'', '\'', ' ', '\'', 'c'] ∧
    Drained token b [Bytes.ascii ['x'], Bytes.ascii ['\'', 'a', '\'', '\''],
      Bytes.ascii ['\'', 'c']] (b.moveTo 9) ∧
    ∃ tokens, Drained sqlToken b tokens (b.moveTo 9) ∧ Spread SqlToken b.content tokens := by
  have below : (Bytes.ascii ['x', ' ', '\'', 'a', '\'', '\'', ' ', '\'', 'c']).length <
    sizeCeiling := by decide
  obtain ⟨drained, -, tokens, drained', spread, -⟩ :=
    tokensLoseNothing (viewOfFresh below).wellFormed
  have found : words (Bytes.ascii ['x', ' ', '\'', 'a', '\'', '\'', ' ', '\'', 'c']) =
    [Bytes.ascii ['x'], Bytes.ascii ['\'', 'a', '\'', '\''], Bytes.ascii ['\'', 'c']] := by decide
  exact ⟨_, rfl, found ▸ drained, tokens, drained', spread⟩

end ArtifactVault.Blob
