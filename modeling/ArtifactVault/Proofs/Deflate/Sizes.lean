import ArtifactVault.Proofs.Deflate.RoundTrip

/-! How long a stream gets. A token takes at most four bytes of it, and an input gives at most one
token for each of its bytes. An input that is one byte over and over gives far fewer: behind the
first byte, each place has the place before it as a candidate, so nearly all of it is copies of the
greatest length. -/
namespace ArtifactVault.Deflate

theorem CodeTree.lengthWord {tree : CodeTree} {most : Nat}
    (each : ∀ entry ∈ tree.words, entry.2.length ≤ most) (symbol : Nat) : (tree.word symbol).length ≤ most := by
  rw [CodeTree.word]
  cases found : tree.words.lookup symbol with
  | none => exact Nat.zero_le _
  | some word =>
    obtain ⟨before, after, split, -⟩ := List.lookup_eq_some_iff.mp found
    exact each (symbol, word) (by rw [split]; simp)

theorem lengthLengthWord {symbol : Nat} (listed : symbol < 288) :
    (fixedTables.lengths.getD symbol []).length ≤ 9 := by
  have table : fixedTables.lengths.getD symbol [] = Codes.fixed.lengths.word symbol :=
    wordTableAt _ listed
  rw [table]
  exact CodeTree.lengthWord (by decide +kernel) symbol

theorem lengthDistanceWord {symbol : Nat} (listed : symbol < 32) :
    (fixedTables.distances.getD symbol []).length ≤ 5 := by
  have table : fixedTables.distances.getD symbol [] = Codes.fixed.distances.word symbol :=
    wordTableAt _ listed
  rw [table]
  exact CodeTree.lengthWord (by decide) symbol

theorem lengthSpanBits (span : Span) (n : Nat) : (span.bits n).length = span.extraBits :=
  Bits.lengthOfNat _ _

theorem lengthTokenBits {token : Token} (short : token.Short) :
    (tokenBits fixedTables token).length ≤ 32 := by
  cases token with
  | byte b =>
    have word := lengthLengthWord (byteListed b)
    rw [tokenBits]
    omega
  | copy length distance =>
    obtain ⟨leastLength, mostLength, leastDistance, mostDistance⟩ := short
    obtain ⟨span, found, same, -, below⟩ := lengthSpanFound leastLength mostLength
    obtain ⟨far, reaching, sameFar, -, belowFar⟩ := distanceSpanFound leastDistance mostDistance
    have first : firstLength = 257 := rfl
    have lengthWord := @lengthLengthWord (firstLength + (spanOf lengthSpans length).1) (by omega)
    have distanceWord := @lengthDistanceWord (spanOf distanceSpans distance).1 (by omega)
    have extra : span.extraBits ≤ 5 := by
      have each : ∀ span ∈ lengthSpans, span.extraBits ≤ 5 := by decide
      exact each span (List.mem_of_getElem? found)
    have extraFar : far.extraBits ≤ 13 := by
      have each : ∀ span ∈ distanceSpans, span.extraBits ≤ 13 := by decide
      exact each far (List.mem_of_getElem? reaching)
    simp only [tokenBits, List.length_append, same, sameFar, lengthSpanBits]
    omega

theorem lengthTokensBits {tokens : List Token} (short : ∀ token ∈ tokens, token.Short) :
    (tokens.flatMap (tokenBits fixedTables)).length ≤ 32 * tokens.length := by
  induction tokens with
  | nil => exact Nat.zero_le _
  | cons token tokens ih =>
    have first := lengthTokenBits (short token (by simp))
    have rest := ih fun later mem => short later (by simp [mem])
    rw [List.flatMap_cons, List.length_append, List.length_cons]
    omega

theorem lengthEncode (bytes : Bytes) :
    (encode bytes).length ≤ 32 * (tokenize bytes.toArray).length + 12 := by
  have body := lengthTokensBits (tokenizeSpells bytes).1
  have last := lengthLengthWord endListed
  have tables : WordTables.of .fixed = fixedTables := rfl
  simp only [encode, encodeTokens, tables, List.length_append, Bits.lengthOfNat]
  omega

theorem lengthTokensOnto (input : Array UInt8) (tokens : List Token) (places : Array Nat)
    (covered left : Nat) :
    (tokensOnto input tokens places covered left).length ≤ tokens.length + left := by
  induction left generalizing tokens places covered with
  | zero => rw [tokensOnto, Nat.add_zero]
  | succ left ih =>
    rw [tokensOnto]
    split
    · exact Nat.le_succ_of_le (ih _ _ _)
    · split
      · refine Nat.le_trans (ih _ _ _) ?_
        rw [List.length_cons]
        omega
      · refine Nat.le_trans (ih _ _ _) ?_
        rw [List.length_cons]
        omega

theorem lengthTokenize (input : Array UInt8) : (tokenize input).length ≤ input.size := by
  rw [tokenize, List.length_reverse]
  exact Nat.le_trans (lengthTokensOnto _ _ _ _ _) (by rw [List.length_nil, Nat.zero_add])

section
variable {byte : UInt8} {n i : Nat}

theorem seenPut {places : Array Nat} {key place : Nat} (known : key < places.size) :
    (places.setIfInBounds key place).getD key 0 = place := by
  rw [Array.getD_eq_getD_getElem?, Array.getElem?_setIfInBounds_self_of_lt known, Option.getD_some]

theorem keyKnown (input : Array UInt8) (i : Nat) : keyAt input i < keys := Nat.mod_lt _ (by decide)

theorem byteOfRun (inside : i < n) : (Array.replicate n byte)[i]? = some byte := by
  rw [Array.getElem?_replicate, if_pos inside]

theorem keyOfRun (inside : i + 2 < n) :
    keyAt (Array.replicate n byte) i = keyAt #[byte, byte, byte] 0 := by
  have each (k : Nat) (near : k ≤ 2) : (Array.replicate n byte).getD (i + k) 0 = byte := by
    rw [Array.getD_eq_getD_getElem?, byteOfRun (by omega), Option.getD_some]
  simp only [keyAt, each 0 (by decide), each 1 (by decide), each 2 (by decide)]
  rfl

theorem agreementOfRun {j limit : Nat} (behind : i < j) :
    agreement (Array.replicate n byte) i j limit = min limit (n - j) := by
  induction limit generalizing i j with
  | zero => rw [agreement, Nat.zero_min]
  | succ limit ih =>
    rw [agreement]
    by_cases inside : j < n
    · rw [byteOfRun (Nat.lt_trans behind inside), byteOfRun inside]
      simp only [if_true, ih (Nat.succ_lt_succ behind)]
      omega
    · rw [Array.getElem?_replicate, Array.getElem?_replicate, if_neg inside]
      split
      · rename_i none
        cases none
      · omega

theorem copyOfRun (begun : 0 < i) (inside : i + 2 < n) :
    copyAt (Array.replicate n byte) i i = some (min longestCopy (n - i), 1) := by
  have near : 0 < window := by decide
  have shortest : shortestCopy = 3 := rfl
  have longest : longestCopy = 258 := rfl
  rw [copyAt, if_neg (by omega)]
  simp only [agreementOfRun (Nat.sub_lt begun Nat.one_pos)]
  rw [if_pos (by omega), Nat.add_sub_cancel_left]

theorem lengthTokensOfRun {tokens : List Token} {places : Array Nat} {covered left : Nat}
    (begun : left < n) (within : covered ≤ left) (sized : places.size = keys)
    (last : 2 < left → places.getD (keyAt #[byte, byte, byte] 0) 0 = n - left) :
    (tokensOnto (Array.replicate n byte) tokens places covered left).length ≤
      tokens.length + (left - covered + 257) / 258 + 2 := by
  -- Behind the first byte the table has the place before this one under the key of the run, and each
  -- copy that is begun covers the greatest length or all that is left.
  induction left generalizing tokens places covered with
  | zero =>
    rw [tokensOnto]
    omega
  | succ left ih =>
    by_cases short : left + 1 ≤ 2
    · have few := lengthTokensOnto (Array.replicate n byte) tokens places covered (left + 1)
      omega
    · have here : n - (left + 1) + 2 < n := by omega
      have key := @keyOfRun byte n _ here
      have longest : longestCopy = 258 := rfl
      have put : (places.setIfInBounds (keyAt #[byte, byte, byte] 0) (n - (left + 1) + 1)).getD
          (keyAt #[byte, byte, byte] 0) 0 = n - left := by
        rw [seenPut (by rw [sized]; exact keyKnown _ _)]
        omega
      rw [tokensOnto]
      simp only [Array.size_replicate, key, last (by omega)]
      rw [copyOfRun (by omega) here]
      simp only
      split
      · refine Nat.le_trans (ih (by omega) (by omega) ?_ fun _ => put) ?_
        · rw [Array.size_setIfInBounds, sized]
        · omega
      · refine Nat.le_trans (ih (by omega) (by omega) ?_ fun _ => put) ?_
        · rw [Array.size_setIfInBounds, sized]
        · rw [List.length_cons]
          omega

end

theorem lengthTokenizeRun (byte : UInt8) (n : Nat) :
    (tokenize (Array.replicate n byte)).length ≤ n / 258 + 4 := by
  cases n with
  | zero => exact Nat.le_trans (lengthTokenize _) (by simp)
  | succ n =>
    have unseen : (Array.replicate keys 0).getD (keyAt (Array.replicate (n + 1) byte) 0) 0 = 0 := by
      rw [Array.getD_eq_getD_getElem?, Array.getElem?_replicate]
      split
      · rfl
      · rfl
    have nothing : copyAt (Array.replicate (n + 1) byte) 0 0 = none := if_pos (.inl rfl)
    rw [tokenize, List.length_reverse, Array.size_replicate, tokensOnto]
    simp only [Array.size_replicate, Nat.sub_self, unseen, nothing, Nat.lt_irrefl, if_false]
    refine Nat.le_trans (lengthTokensOfRun (Nat.lt_succ_self n) (Nat.zero_le _) ?_ fun more => ?_) ?_
    · rw [Array.size_setIfInBounds, Array.size_replicate]
    · rw [keyOfRun (by omega), seenPut (by rw [Array.size_replicate]; exact keyKnown _ _)]
      omega
    · rw [List.length_singleton]
      omega

end ArtifactVault.Deflate
