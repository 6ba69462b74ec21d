import Mathlib.Data.List.Chain
import ArtifactVault.Deflate.Decode
import ArtifactVault.Deflate.Encode
import ArtifactVault.Proofs.Deflate.Bits
import ArtifactVault.Proofs.Keyed

/-! Words of a code tree lead back to their symbols, the fixed codes have a word for every symbol, and
a number that is written as a span and its extra bits is read back from them. -/
namespace ArtifactVault.Deflate

theorem CodeTree.walkBelow {tree : CodeTree} {path word : Bits} {symbol : Nat}
    (mem : (symbol, word) ∈ wordsBelow path tree) :
    ∃ below, word = path ++ below ∧ ∀ rest, walk tree (below ++ rest) = .ok (symbol, rest) := by
  induction tree generalizing path with
  | dead => cases mem
  | leaf found =>
    cases List.mem_singleton.mp mem
    exact ⟨[], (List.append_nil _).symm, fun rest => by rw [List.nil_append, walk]⟩
  | branch zero one zeroHolds oneHolds =>
    rcases List.mem_append.mp mem with inZero | inOne
    · obtain ⟨below, split, walks⟩ := zeroHolds inZero
      refine ⟨false :: below, by rw [split, List.append_assoc]; rfl, fun rest => ?_⟩
      rw [List.cons_append, walk]
      exact walks rest
    · obtain ⟨below, split, walks⟩ := oneHolds inOne
      refine ⟨true :: below, by rw [split, List.append_assoc]; rfl, fun rest => ?_⟩
      rw [List.cons_append, walk]
      exact walks rest

theorem CodeTree.wordListed {tree : CodeTree} {symbol : Nat}
    (listed : symbol ∈ tree.words.map (·.1)) : (symbol, tree.word symbol) ∈ tree.words := by
  obtain ⟨word, found⟩ := Option.isSome_iff_exists.mp (Keyed.foundIff.mp listed)
  obtain ⟨before, after, split, _⟩ := List.lookup_eq_some_iff.mp found
  rw [CodeTree.word, found, Option.getD_some, split]
  exact List.mem_append_right _ List.mem_cons_self

-- The words stand in the order of the leaves: shorter ones first, by symbol within a length.
theorem fixedLengthSymbols : Codes.fixed.lengths.words.map (·.1) =
    List.range' 256 24 ++ List.range' 0 144 ++ List.range' 280 8 ++ List.range' 144 112 := by
  decide +kernel

theorem fixedDistanceSymbols : Codes.fixed.distances.words.map (·.1) = List.range' 0 32 := by
  decide

theorem fixedLengthWords {symbol : Nat} (small : symbol < 288) :
    (symbol, Codes.fixed.lengths.word symbol) ∈ Codes.fixed.lengths.words := by
  refine CodeTree.wordListed ?_
  simp only [fixedLengthSymbols, List.mem_append, List.mem_range'_1]
  omega

theorem fixedDistanceWords {symbol : Nat} (small : symbol < 32) :
    (symbol, Codes.fixed.distances.word symbol) ∈ Codes.fixed.distances.words := by
  refine CodeTree.wordListed ?_
  rw [fixedDistanceSymbols, List.mem_range'_1]
  omega

theorem wordTableAt (tree : CodeTree) {count symbol : Nat} (listed : symbol < count) :
    (wordTable tree count).getD symbol [] = tree.word symbol := by
  simp [wordTable, listed]

structure Covers (spans : List Span) (n : Nat) : Prop where
  next : spans.IsChain fun span after => after.base ≤ span.base + 2 ^ span.extraBits
  last : ∀ span, spans.getLast? = some span → n < span.base + 2 ^ span.extraBits

structure Span.Holds (span : Span) (n : Nat) : Prop where
  above : span.base ≤ n
  below : n < span.base + 2 ^ span.extraBits

theorem spanOfHolds {first : Span} {spans : List Span} {n : Nat} (above : first.base ≤ n)
    (covers : Covers (first :: spans) n) :
    ∃ span, (first :: spans)[((first :: spans).takeWhile (·.base ≤ n)).length - 1]? = some span ∧
      span.Holds n := by
  induction spans generalizing first with
  | nil =>
    refine ⟨first, ?_, above, covers.last first rfl⟩
    simp [above]
  | cons second spans ih =>
    by_cases further : second.base ≤ n
    · obtain ⟨span, found, holds⟩ := ih further
        ⟨covers.next.tail, fun span last => covers.last span (by simpa using last)⟩
      refine ⟨span, ?_, holds⟩
      simpa [above, further] using found
    · have next := (List.isChain_cons_cons.mp covers.next).1
      refine ⟨first, ?_, above, by omega⟩
      simp [above, further]

theorem spanOfFound {first : Span} {spans : List Span} {n : Nat} (above : first.base ≤ n)
    (covers : Covers (first :: spans) n) :
    ∃ span, (first :: spans)[(spanOf (first :: spans) n).1]? = some span ∧
      (spanOf (first :: spans) n).2 = span ∧ span.Holds n := by
  obtain ⟨span, found, holds⟩ := spanOfHolds above covers
  refine ⟨span, found, ?_, holds⟩
  simp only [spanOf, List.getD_eq_getElem?_getD, found, Option.getD_some]

theorem Span.readBits {span : Span} {n : Nat} (holds : span.Holds n) (rest : Bits) :
    span.read (span.bits n ++ rest) = .ok (n, rest) := by
  have above := holds.above
  have below := holds.below
  have small : n - span.base < 2 ^ span.extraBits := by omega
  simp only [Span.read, Span.bits, field, Bits.fieldOfNat small, bind, Except.bind]
  rw [Nat.add_sub_cancel' above]
  rfl

end ArtifactVault.Deflate
