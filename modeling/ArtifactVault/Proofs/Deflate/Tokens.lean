import ArtifactVault.Deflate.Decode
import ArtifactVault.Deflate.Encode

/-! What tokens stand for. The tokens of an input spell it out again: whatever candidates were tried,
a copy is taken only where the bytes agree. -/
namespace ArtifactVault.Deflate

def Token.apply (output : Array UInt8) : Token → Array UInt8
  | .byte b => output.push b
  | .copy length distance => copyBack distance length output

def expand (tokens : List Token) (output : Array UInt8) : Array UInt8 :=
  tokens.foldl Token.apply output

def Token.Short : Token → Prop
  | .byte _ => True
  | .copy length distance =>
    shortestCopy ≤ length ∧ length ≤ longestCopy ∧ 1 ≤ distance ∧ distance ≤ window

theorem agreementHolds (input : Array UInt8) (i j limit : Nat) :
    agreement input i j limit ≤ limit ∧
      ∀ k < agreement input i j limit, j + k < input.size ∧ input[i + k]? = input[j + k]? := by
  induction limit generalizing i j with
  | zero => exact ⟨Nat.le_refl _, fun k below => absurd below (Nat.not_lt_zero k)⟩
  | succ limit ih =>
    rw [agreement]
    split
    · rename_i a b first second
      by_cases same : a = b
      · obtain ⟨short, holds⟩ := ih (i + 1) (j + 1)
        rw [if_pos same]
        refine ⟨Nat.succ_le_succ short, fun k below => ?_⟩
        cases k with
        | zero =>
          have inside := (Array.getElem?_eq_some_iff.mp second).1
          exact ⟨inside, by rw [Nat.add_zero, Nat.add_zero, first, second, same]⟩
        | succ k =>
          have next := holds k (Nat.lt_of_succ_lt_succ below)
          rw [Nat.add_right_comm i, Nat.add_right_comm j] at next
          exact next
      · rw [if_neg same]
        exact ⟨Nat.zero_le _, fun k below => absurd below (Nat.not_lt_zero k)⟩
    · exact ⟨Nat.zero_le _, fun k below => absurd below (Nat.not_lt_zero k)⟩

theorem copyBackAgrees (bytes : Bytes) {start i length : Nat} (behind : start < i)
    (agrees : ∀ k < length, i + k < bytes.length ∧ bytes[start + k]? = bytes[i + k]?) :
    copyBack (i - start) length (bytes.take i).toArray = (bytes.take (i + length)).toArray := by
  induction length generalizing start i with
  | zero => rfl
  | succ length ih =>
    obtain ⟨inside, same⟩ := agrees 0 (Nat.succ_pos _)
    rw [Nat.add_zero] at inside
    rw [Nat.add_zero, Nat.add_zero] at same
    have size : (bytes.take i).toArray.size = i := by
      rw [List.size_toArray, List.length_take]
      omega
    have found : (bytes.take i)[start]? = some bytes[i] := by
      rw [List.getElem?_take_of_lt behind, same]
      exact List.getElem?_eq_getElem inside
    have back : byteBack (i - start) (bytes.take i).toArray = bytes[i] := by
      rw [byteBack, size, if_neg (by omega), Nat.sub_sub_self (Nat.le_of_lt behind)]
      simp [found]
    have pushed : (bytes.take i).toArray.push bytes[i] = (bytes.take (i + 1)).toArray := by
      rw [List.push_toArray, List.take_succ_eq_append_getElem inside]
    have rest := @ih (start + 1) (i + 1) (Nat.succ_lt_succ behind) fun k below => by
      have next := agrees (k + 1) (Nat.succ_lt_succ below)
      rw [Nat.add_right_comm start, Nat.add_right_comm i]
      exact next
    rw [Nat.add_sub_add_right, Nat.add_right_comm, Nat.add_assoc] at rest
    rw [copyBack, back, pushed, rest]

theorem copyAtAgrees {bytes : Bytes} {i seen length distance : Nat}
    (found : copyAt bytes.toArray i seen = some (length, distance)) :
    (Token.copy length distance).Short ∧ i + length ≤ bytes.length ∧
      copyBack distance length (bytes.take i).toArray = (bytes.take (i + length)).toArray := by
  unfold copyAt at found
  split at found
  · cases found
  · rename_i usable
    obtain ⟨short, holds⟩ := agreementHolds bytes.toArray (seen - 1) i longestCopy
    simp only at found
    split at found
    · rename_i long
      cases found
      have agrees k (below : k < agreement bytes.toArray (seen - 1) i longestCopy) :
          i + k < bytes.length ∧ bytes[seen - 1 + k]? = bytes[i + k]? := by
        simpa using holds k below
      have longEnough : 3 ≤ agreement bytes.toArray (seen - 1) i longestCopy := long
      have last := (agrees (agreement bytes.toArray (seen - 1) i longestCopy - 1) (by omega)).1
      have distance : i - (seen - 1) = i + 1 - seen := by omega
      refine ⟨⟨long, short, by omega, by omega⟩, by omega, ?_⟩
      rw [← distance]
      exact copyBackAgrees bytes (by omega) agrees
    · cases found

theorem expandAppend (tokens : List Token) (token : Token) (output : Array UInt8) :
    expand (tokens ++ [token]) output = token.apply (expand tokens output) := by
  simp only [expand, List.foldl_append, List.foldl_cons, List.foldl_nil]

theorem tokensOntoSpells (bytes : Bytes) {tokens : List Token} {places : Array Nat}
    {covered left : Nat} (fits : left ≤ bytes.length) (within : covered ≤ left)
    (short : ∀ token ∈ tokens, token.Short)
    (spells : expand tokens.reverse #[] = (bytes.take (bytes.length - left + covered)).toArray) :
    (∀ token ∈ tokensOnto bytes.toArray tokens places covered left, token.Short) ∧
      expand (tokensOnto bytes.toArray tokens places covered left).reverse #[] = bytes.toArray := by
  induction left generalizing tokens places covered with
  | zero =>
    have none : covered = 0 := Nat.le_zero.mp within
    rw [tokensOnto]
    refine ⟨short, ?_⟩
    rw [spells, none, Nat.sub_zero, Nat.add_zero, List.take_length]
  | succ left ih =>
    have inside : bytes.length - (left + 1) < bytes.length := by omega
    have next : bytes.length - left = bytes.length - (left + 1) + 1 := by omega
    rw [tokensOnto]
    simp only [List.size_toArray]
    generalize place : bytes.length - (left + 1) = i at *
    split
    · rename_i some
      refine ih (by omega) (by omega) short ?_
      rw [spells, next]
      congr 2
      omega
    · rename_i none
      have started : covered = 0 := by omega
      rw [started, Nat.add_zero] at spells
      split
      · rename_i length distance found
        obtain ⟨shortCopy, fitting, copied⟩ := copyAtAgrees found
        have positive : 3 ≤ length := shortCopy.1
        refine ih (by omega) (by omega) ?_ ?_
        · rintro token (_ | ⟨_, mem⟩)
          · exact shortCopy
          · exact short token mem
        · rw [List.reverse_cons, expandAppend, spells]
          refine copied.trans ?_
          congr 2
          omega
      · refine ih (by omega) (Nat.zero_le _) ?_ ?_
        · rintro token (_ | ⟨_, mem⟩)
          · trivial
          · exact short token mem
        · have byte : bytes.toArray.getD i 0 = bytes[i] := by simp [inside]
          rw [List.reverse_cons, expandAppend, spells, byte, Token.apply, List.push_toArray, next,
            Nat.add_zero, List.take_succ_eq_append_getElem inside]

theorem tokenizeSpells (bytes : Bytes) :
    (∀ token ∈ tokenize bytes.toArray, token.Short) ∧
      expand (tokenize bytes.toArray) #[] = bytes.toArray := by
  obtain ⟨short, spells⟩ := @tokensOntoSpells bytes [] (Array.replicate keys 0) 0 bytes.length
    (Nat.le_refl _) (Nat.zero_le _) (fun _ mem => absurd mem List.not_mem_nil) (by simp [expand])
  exact ⟨fun token mem => short token (by simpa [tokenize] using mem), spells⟩

end ArtifactVault.Deflate
