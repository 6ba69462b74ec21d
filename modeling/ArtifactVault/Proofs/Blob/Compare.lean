import ArtifactVault.Blob.Compare
import ArtifactVault.Proofs.Byte

/-! Comparisons look at live bytes alone. The order compares the part that two contents have both and
then their lengths, which is the lexicographic order of bytes; equality, the hash and the comparison
that visits every byte agree with it. -/
namespace ArtifactVault.Bytes
variable {xs ys : Bytes}

inductive Precedes : Bytes → Bytes → Prop where
  | shorter (front : Bytes) (byte : UInt8) (rest : Bytes) : Precedes front (front ++ byte :: rest)
  | smaller (front : Bytes) {x y : UInt8} (xs ys : Bytes) (less : x.toNat < y.toNat) :
      Precedes (front ++ x :: xs) (front ++ y :: ys)

theorem Precedes.behind (byte : UInt8) (precedes : Precedes xs ys) :
    Precedes (byte :: xs) (byte :: ys) := by
  cases precedes with
  | shorter _ next rest => exact .shorter (byte :: xs) next rest
  | smaller front xs ys less => exact .smaller (byte :: front) xs ys less

theorem precedesOfLess (less : xs < ys) : Precedes xs ys := by
  induction xs generalizing ys with
  | nil =>
    cases ys with
    | nil => exact absurd less (List.lt_irrefl _)
    | cons y ys => exact .shorter [] y ys
  | cons x xs ih =>
    cases ys with
    | nil => exact absurd less (List.not_lt_nil _)
    | cons y ys =>
      rcases List.cons_lt_cons_iff.mp less with smaller | ⟨rfl, later⟩
      · exact .smaller [] xs ys (UInt8.lt_iff_toNat_lt.mp smaller)
      · exact (ih later).behind x

theorem orderPrecedes (xs ys : Bytes) : order xs ys = .lt ↔ Precedes xs ys := by
  rw [orderLt]
  refine ⟨precedesOfLess, fun precedes => ?_⟩
  cases precedes with
  | shorter _ byte rest =>
    have longer : xs ++ [] < xs ++ byte :: rest := List.append_left_lt (List.nil_lt_cons byte rest)
    rwa [List.append_nil] at longer
  | @smaller front x y xs ys less =>
    have first : x :: xs < y :: ys :=
      List.cons_lt_cons_iff.mpr (.inl (UInt8.lt_iff_toNat_lt.mpr less))
    exact List.append_left_lt first

theorem compareSucc (m n : Nat) : compare (m + 1) (n + 1) = compare m n := by
  simp only [compare, compareOfLessAndEq, Nat.add_lt_add_iff_right, Nat.add_right_cancel_iff]

theorem orderCommonCons (x y : UInt8) (xs ys : Bytes) :
    order ((x :: xs).take (min (x :: xs).length (y :: ys).length))
        ((y :: ys).take (min (x :: xs).length (y :: ys).length)) =
      if x < y then .lt else if y < x then .gt
      else order (xs.take (min xs.length ys.length)) (ys.take (min xs.length ys.length)) := by
  rw [List.length_cons, List.length_cons, Nat.add_min_add_right, List.take_succ_cons,
    List.take_succ_cons, order]

theorem orderThenLength (xs ys : Bytes) :
    (order (xs.take (min xs.length ys.length)) (ys.take (min xs.length ys.length))).then
      (compare xs.length ys.length) = order xs ys := by
  fun_induction order xs ys with
  | case1 => rfl
  | case2 => exact Nat.compare_eq_lt.mpr (Nat.succ_pos _)
  | case3 => exact Nat.compare_eq_gt.mpr (Nat.succ_pos _)
  | case4 x xs y ys less =>
    rw [orderCommonCons, if_pos less]
    rfl
  | case5 x xs y ys noLess more =>
    rw [orderCommonCons, if_neg noLess, if_pos more]
    rfl
  | case6 x xs y ys noLess noMore ih =>
    rw [orderCommonCons, if_neg noLess, if_neg noMore, List.length_cons, List.length_cons,
      compareSucc, ih]

theorem orderLe : (order xs ys).isLE = true ↔ xs < ys ∨ xs = ys := by
  rw [Ordering.isLE_iff_eq_lt_or_eq_eq, orderLt, orderEq]

theorem orderTrans {zs : Bytes} (first : (order xs ys).isLE = true)
    (second : (order ys zs).isLE = true) : (order xs zs).isLE = true := by
  rw [orderLe] at *
  rcases first with first | rfl
  · rcases second with second | rfl
    · exact .inl (List.lt_trans first second)
    · exact .inl first
  · exact second

theorem gatheredZero (bits : UInt8) (bytes : Bytes) :
    bytes.foldl (· ||| ·) bits = 0 ↔ bits = 0 ∧ ∀ byte ∈ bytes, byte = 0 := by
  induction bytes generalizing bits with
  | nil => simp
  | cons byte bytes ih =>
    rw [List.foldl_cons, ih, UInt8.or_eq_zero_iff, and_assoc, List.forall_mem_cons]

theorem differencesZero (same : xs.length = ys.length) :
    (∀ byte ∈ List.zipWith (· ^^^ ·) xs ys, byte = 0) ↔ xs = ys := by
  induction xs generalizing ys with
  | nil =>
    obtain rfl := List.length_eq_zero_iff.mp same.symm
    exact ⟨fun _ => rfl, fun _ => nofun⟩
  | cons x xs ih =>
    cases ys with
    | nil => cases same
    | cons y ys =>
      rw [List.zipWith_cons_cons, List.forall_mem_cons, UInt8.xor_eq_zero_iff,
        ih (Nat.succ.inj same), List.cons_eq_cons]

end ArtifactVault.Bytes

namespace ArtifactVault.Blob
open Bytes (Precedes)
variable {a b : Blob}

theorem compareContents (a b : Blob) : a.compare b = Bytes.order a.content b.content :=
  Bytes.orderThenLength a.content b.content

theorem equalsIff : a.equals b = true ↔ a.content = b.content := decide_eq_true_iff

theorem constantTimeEqualsIff :
    a.constantTimeEquals b = true ↔ a.content = b.content ∧ a.content ≠ [] := by
  unfold constantTimeEquals
  by_cases apart : a.content.length ≠ b.content.length ∨ a.content.isEmpty
  · rw [if_pos apart]
    refine ⟨nofun, fun ⟨same, filled⟩ => ?_⟩
    rcases apart with lengths | nothing
    · exact absurd (congrArg List.length same) lengths
    · exact absurd (List.isEmpty_iff.mp nothing) filled
  · rw [if_neg apart, decide_eq_true_iff, Bytes.gatheredZero]
    obtain ⟨lengths, filled⟩ := not_or.mp apart
    rw [Bytes.differencesZero (Decidable.not_not.mp lengths)]
    exact ⟨fun gathered => ⟨gathered.2, fun nothing => filled (List.isEmpty_iff.mpr nothing)⟩,
      fun same => ⟨rfl, same.1⟩⟩

structure Compared (a b : Blob) : Prop where
  less : a.compare b = .lt ↔ Precedes a.content b.content
  greater : a.compare b = .gt ↔ Precedes b.content a.content
  swapped : (a.compare b).swap = b.compare a
  alike : a.compare b = .eq ↔ a.content = b.content
  equals : a.compare b = .eq ↔ a.equals b = true
  equalsBytes : a.compare b = .eq ↔ a.equalsBytes b.content = true
  hashed : a.compare b = .eq → a.contentHash = b.contentHash
  constantTime : a.constantTimeEquals b = true ↔ a.equals b = true ∧ a.content ≠ []

theorem compared (a b : Blob) : Compared a b := by
  have swapped : (a.compare b).swap = b.compare a := by
    rw [compareContents, compareContents, Bytes.orderSwap]
  have alike : a.compare b = .eq ↔ a.content = b.content := by
    rw [compareContents, Bytes.orderEq]
  refine ⟨?_, ?_, swapped, alike, ?_, ?_, ?_, ?_⟩
  · rw [compareContents, Bytes.orderPrecedes]
  · rw [← Bytes.orderPrecedes, ← compareContents, ← swapped]
    cases a.compare b <;> decide
  · rw [alike, equalsIff]
  · rw [alike]
    exact decide_eq_true_iff.symm
  · exact fun same => congrArg hash (alike.mp same)
  · rw [constantTimeEqualsIff, equalsIff]

theorem comparisonsCohere (a b c : Blob) :
    Compared a b ∧
    ((a.compare b).isLE ∨ (b.compare a).isLE) ∧
    ((a.compare b).isLE → (b.compare a).isLE → a.equals b = true) ∧
    ((a.compare b).isLE → (b.compare c).isLE → (a.compare c).isLE) := by
  have pair := compared a b
  refine ⟨pair, ?_, ?_, ?_⟩
  · rw [← pair.swapped]
    cases a.compare b <;> decide
  · rw [← pair.equals, ← pair.swapped]
    cases a.compare b <;> decide
  · rw [compareContents, compareContents, compareContents]
    exact Bytes.orderTrans

theorem staleLettersCompared :
    (Blob.mk [0x61, 0x62, 0xff] .owned 2 1 true).compare
      ⟨[0x61, 0x62], .borrowed, 2, 0, false⟩ = .eq ∧
    (Blob.mk [0x61, 0x62, 0xff] .owned 2 1 true).constantTimeEquals
      ⟨[0x61, 0x62], .borrowed, 2, 0, false⟩ = true ∧
    (Blob.mk [0x61, 0x62, 0xff] .owned 2 1 true).contentHash =
      (Blob.mk [0x61, 0x62] .borrowed 2 0 false).contentHash ∧
    ((Blob.mk [0x61, 0x62, 0xff] .owned 2 1 true).compare
      ⟨[0xe9, 0x00], .owned, 1, 0, false⟩).isLE := by
  obtain ⟨pair, -, -, above⟩ := comparisonsCohere ⟨[0x61, 0x62, 0xff], .owned, 2, 1, true⟩
    ⟨[0x61, 0x62], .borrowed, 2, 0, false⟩ ⟨[0xe9, 0x00], .owned, 1, 0, false⟩
  have same := pair.alike.mpr rfl
  have less := (compared ⟨[0x61, 0x62], .borrowed, 2, 0, false⟩
    ⟨[0xe9, 0x00], .owned, 1, 0, false⟩).less.mpr (.smaller [] [0x62] [] (by decide))
  refine ⟨same, pair.constantTime.mpr ⟨pair.equals.mp same, by decide⟩, pair.hashed same, ?_⟩
  exact above (by rw [same]; rfl) (by rw [less]; rfl)

end ArtifactVault.Blob
