import ArtifactVault.Proofs.ArtifactId

/-! The order of ids. It goes by the algorithm first and then by the name: two hex digits are ordered
as their byte is, and the zeros behind a short digest are the same for all ids of its algorithm. -/
namespace ArtifactVault.Hex

theorem digitsOrder : ∀ i < 16, ∀ j < 16, (digitByte i < digitByte j ↔ i < j) ∧
    (digitByte i = digitByte j ↔ i = j) := by
  decide

theorem pairsOrder (xs ys : Bytes) : xs.flatMap pair < ys.flatMap pair ↔ xs < ys := by
  induction xs generalizing ys with
  | nil =>
    cases ys with
    | nil => exact ⟨fun less => absurd less (List.lt_irrefl _), fun less => absurd less (List.lt_irrefl _)⟩
    | cons y ys => exact ⟨fun _ => List.nil_lt_cons _ _, fun _ => List.nil_lt_cons _ _⟩
  | cons x xs ih =>
    cases ys with
    | nil => exact ⟨fun less => absurd less (List.not_lt_nil _), fun less => absurd less (List.not_lt_nil _)⟩
    | cons y ys =>
      obtain ⟨xHigh, xLow⟩ := halves x
      obtain ⟨yHigh, yLow⟩ := halves y
      obtain ⟨highLess, highSame⟩ := digitsOrder _ xHigh _ yHigh
      obtain ⟨lowLess, lowSame⟩ := digitsOrder _ xLow _ yLow
      simp only [List.flatMap_cons, pair, List.cons_append, List.nil_append, List.cons_lt_cons_iff, ih,
        highLess, highSame, lowLess, lowSame, UInt8.lt_iff_toNat_lt, ← UInt8.toNat_inj]
      have less : x.toNat < y.toNat ↔ x.toNat / 16 < y.toNat / 16 ∨
          x.toNat / 16 = y.toNat / 16 ∧ x.toNat % 16 < y.toNat % 16 := by omega
      have same : x.toNat = y.toNat ↔
          x.toNat / 16 = y.toNat / 16 ∧ x.toNat % 16 = y.toNat % 16 := by omega
      rw [less, same, and_or_left, or_assoc, and_assoc]

end ArtifactVault.Hex

namespace ArtifactVault.ArtifactId
variable {x y z : ArtifactId}

def Before (x y : ArtifactId) : Prop :=
  x.algorithm = .sha1 ∧ y.algorithm = .sha3 ∨
    x.algorithm = y.algorithm ∧ Utf8.ofString x.hex < Utf8.ofString y.hex

theorem slotsOrder (same : x.algorithm = y.algorithm) :
    x.slots < y.slots ↔ Utf8.ofString x.hex < Utf8.ofString y.hex := by
  have lengths : x.digest.length = y.digest.length := by rw [lengthDigest, lengthDigest, same]
  rw [slotsOfDigest x, slotsOfDigest y, lengths, Bytes.appendedOrder _ lengths, hex, hex,
    Hex.bytesOfEncode, Hex.bytesOfEncode, Hex.pairsOrder]

theorem compareSame (same : x.algorithm = y.algorithm) :
    compare x y = Bytes.order x.slots y.slots := by
  rw [compare, same, if_neg (Nat.lt_irrefl _), if_neg (Nat.lt_irrefl _)]

theorem compareApart (apart : x.algorithm ≠ y.algorithm) :
    x.algorithm = .sha1 ∧ y.algorithm = .sha3 ∧ compare x y = .lt ∨
      x.algorithm = .sha3 ∧ y.algorithm = .sha1 ∧ compare x y = .gt := by
  rw [compare]
  cases first : x.algorithm <;> cases second : y.algorithm
  · exact absurd (first.trans second.symm) apart
  · exact .inl ⟨rfl, rfl, rfl⟩
  · exact .inr ⟨rfl, rfl, rfl⟩
  · exact absurd (first.trans second.symm) apart

theorem compareLt (x y : ArtifactId) : compare x y = .lt ↔ Before x y := by
  by_cases same : x.algorithm = y.algorithm
  · rw [compareSame same, Bytes.orderLt, slotsOrder same]
    refine ⟨fun less => .inr ⟨same, less⟩, fun before => ?_⟩
    rcases before with ⟨first, second⟩ | ⟨-, less⟩
    · cases first.symm.trans (same.trans second)
    · exact less
  · rcases compareApart same with ⟨first, second, less⟩ | ⟨first, -, more⟩
    · exact ⟨fun _ => .inl ⟨first, second⟩, fun _ => less⟩
    · refine ⟨(fun less => by cases less.symm.trans more), fun before => ?_⟩
      rcases before with ⟨other, -⟩ | ⟨equal, -⟩
      · cases other.symm.trans first
      · exact absurd equal same

theorem compareSwap (x y : ArtifactId) : (compare x y).swap = compare y x := by
  by_cases same : x.algorithm = y.algorithm
  · rw [compareSame same, compareSame same.symm, Bytes.orderSwap]
  · have back := compareApart (Ne.symm same)
    rcases compareApart same with ⟨first, second, less⟩ | ⟨first, second, more⟩
    · rcases back with ⟨other, -⟩ | ⟨-, -, more⟩
      · cases other.symm.trans second
      · rw [less, more]
        rfl
    · rcases back with ⟨-, -, less⟩ | ⟨other, -⟩
      · rw [less, more]
        rfl
      · cases other.symm.trans second

theorem compareGt (x y : ArtifactId) : compare x y = .gt ↔ Before y x := by
  rw [← compareLt, ← compareSwap x y]
  cases compare x y <;> decide

theorem compareEq (x y : ArtifactId) : compare x y = .eq ↔ x = y := by
  by_cases same : x.algorithm = y.algorithm
  · rw [compareSame same, Bytes.orderEq]
    refine ⟨fun slots => sameDigest same ?_, congrArg _⟩
    rw [digest, digest, slots, same]
  · refine ⟨fun equal => ?_, fun equal => absurd (congrArg _ equal) same⟩
    rcases compareApart same with ⟨-, -, less⟩ | ⟨-, -, more⟩
    · cases equal.symm.trans less
    · cases equal.symm.trans more

theorem Before.trans (first : Before x y) (second : Before y z) : Before x z := by
  rcases first with ⟨xShort, yLong⟩ | ⟨same, less⟩
  · rcases second with ⟨yShort, -⟩ | ⟨same, -⟩
    · cases yShort.symm.trans yLong
    · exact .inl ⟨xShort, same.symm.trans yLong⟩
  · rcases second with ⟨yShort, zLong⟩ | ⟨further, more⟩
    · exact .inl ⟨same.trans yShort, zLong⟩
    · exact .inr ⟨same.trans further, List.lt_trans less more⟩

theorem isLEIff : (compare x y).isLE = true ↔ Before x y ∨ x = y := by
  rw [← compareLt, ← compareEq]
  cases compare x y <;> decide

theorem Before.apart (before : Before x y) : ¬ Before y x := by
  rw [← compareGt, (compareLt x y).mpr before]
  exact nofun

variable {ids others : List ArtifactId}

theorem sortedBefore (once : ids.Nodup) : (sort ids).Pairwise Before := by
  have sorted : (sort ids).Pairwise fun x y => (compare x y).isLE = true := by
    refine List.pairwise_mergeSort (fun x y z first second => ?_) (fun x y => ?_) ids
    · rw [isLEIff] at *
      rcases first with first | rfl
      · rcases second with second | rfl
        · exact .inl (first.trans second)
        · exact .inl first
      · exact second
    · rw [← compareSwap x y]
      cases compare x y <;> rfl
  have apart : (sort ids).Nodup := (List.mergeSort_perm ids _).nodup_iff.mpr once
  exact sorted.imp₂ (fun x y le differ => (isLEIff.mp le).resolve_right differ) apart

theorem sortedAlike (once : ids.Nodup) (perm : others.Perm ids) : sort others = sort ids := by
  refine List.Perm.eq_of_pairwise (fun x y _ _ first second => absurd second first.apart)
    (sortedBefore (perm.nodup_iff.mpr once)) (sortedBefore once) ?_
  exact ((List.mergeSort_perm others _).trans perm).trans (List.mergeSort_perm ids _).symm

end ArtifactVault.ArtifactId
