import ArtifactVault.Proofs.Deflate.Reading

/-! What is encoded is in the format, one block with the fixed codes whose tokens spell out the input:
so it is what the decoder reads. -/
namespace ArtifactVault.Deflate

theorem meaningByte (byte : UInt8) : meaning byte.toNat = .byte byte := by
  have below : byte.toNat < endOfBlock := byte.toNat_lt
  rw [meaning, if_pos below, UInt8.ofNat_toNat]

theorem meaningFinish : meaning endOfBlock = .finish := by
  rw [meaning, if_neg (Nat.lt_irrefl _), if_pos rfl]

theorem meaningCopy {index : Nat} {lengths : Span} (listed : lengthSpans[index]? = some lengths) :
    meaning (firstLength + index) = .copy lengths := by
  have first : firstLength = 257 := rfl
  have last : endOfBlock = 256 := rfl
  rw [meaning, if_neg (by omega), if_neg (by omega), Nat.add_sub_cancel_left, listed]

def fixedTables : WordTables := WordTables.of .fixed

theorem byteListed (byte : UInt8) : byte.toNat < 288 := by
  have below := byte.toNat_lt
  omega

theorem endListed : endOfBlock < 288 := by
  have value : endOfBlock = 256 := rfl
  omega

theorem lengthWordListed {symbol : Nat} (listed : symbol < 288) :
    (symbol, fixedTables.lengths.getD symbol []) ∈ Codes.fixed.lengths.words := by
  have table : fixedTables.lengths.getD symbol [] = Codes.fixed.lengths.word symbol :=
    wordTableAt _ listed
  rw [table]
  exact fixedLengthWords listed

theorem distanceWordListed {symbol : Nat} (listed : symbol < 32) :
    (symbol, fixedTables.distances.getD symbol []) ∈ Codes.fixed.distances.words := by
  have table : fixedTables.distances.getD symbol [] = Codes.fixed.distances.word symbol :=
    wordTableAt _ listed
  rw [table]
  exact fixedDistanceWords listed

theorem lengthSpansCover {n : Nat} (most : n ≤ longestCopy) : Covers lengthSpans n where
  next := by decide
  last span last := by
    cases last
    exact Nat.lt_of_le_of_lt most (by decide)

theorem distanceSpansCover {n : Nat} (most : n ≤ window) : Covers distanceSpans n where
  next := by decide
  last span last := by
    cases last
    exact Nat.lt_of_le_of_lt most (by decide)

theorem lengthSpanFound {n : Nat} (least : shortestCopy ≤ n) (most : n ≤ longestCopy) :
    ∃ span, lengthSpans[(spanOf lengthSpans n).1]? = some span ∧
      (spanOf lengthSpans n).2 = span ∧ span.Holds n ∧ (spanOf lengthSpans n).1 < 29 := by
  obtain ⟨span, found, same, holds⟩ := spanOfFound least (lengthSpansCover most)
  exact ⟨span, found, same, holds, (List.getElem?_eq_some_iff.mp found).1⟩

theorem distanceSpanFound {n : Nat} (least : 1 ≤ n) (most : n ≤ window) :
    ∃ span, distanceSpans[(spanOf distanceSpans n).1]? = some span ∧
      (spanOf distanceSpans n).2 = span ∧ span.Holds n ∧ (spanOf distanceSpans n).1 < 30 := by
  obtain ⟨span, found, same, holds⟩ := spanOfFound least (distanceSpansCover most)
  exact ⟨span, found, same, holds, (List.getElem?_eq_some_iff.mp found).1⟩

theorem tokenSpelled {token : Token} (short : token.Short) :
    token.Spelled .fixed (tokenBits fixedTables token) := by
  cases token with
  | byte b =>
    rw [tokenBits]
    exact .byte (lengthWordListed (byteListed b)) (meaningByte b)
  | copy length distance =>
    obtain ⟨leastLength, mostLength, leastDistance, mostDistance⟩ := short
    obtain ⟨span, found, same, holds, below⟩ := lengthSpanFound leastLength mostLength
    obtain ⟨far, reaching, sameFar, holdsFar, belowFar⟩ :=
      distanceSpanFound leastDistance mostDistance
    have first : firstLength = 257 := rfl
    simp only [tokenBits, List.append_assoc, same, sameFar]
    exact .copy (lengthWordListed (by omega)) (meaningCopy found) holds
      (distanceWordListed (by omega)) reaching holdsFar

theorem tokensSpelled {tokens : List Token} (short : ∀ token ∈ tokens, token.Short) :
    Spelling .fixed tokens
      (tokens.flatMap (tokenBits fixedTables) ++ fixedTables.lengths.getD endOfBlock []) := by
  induction tokens with
  | nil =>
    rw [List.flatMap_nil, List.nil_append]
    exact .finish (lengthWordListed endListed) meaningFinish
  | cons token tokens ih =>
    rw [List.flatMap_cons, List.append_assoc]
    exact .token (tokenSpelled (short token (by simp))) (ih fun later mem => short later (by simp [mem]))

theorem encodeFormat (bytes : Bytes) :
    ∃ tokens, Blocks 0 tokens (encode bytes) ∧ expand tokens #[] = bytes.toArray := by
  obtain ⟨short, spells⟩ := tokenizeSpells bytes
  refine ⟨tokenize bytes.toArray, ?_, spells⟩
  have block := @Blocks.last 0 _ _ _ (.fixed (tokensSpelled short))
  simp only [encode, encodeTokens, List.append_assoc]
  exact block

end ArtifactVault.Deflate
