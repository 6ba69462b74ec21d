import ArtifactVault.Byte

/-! Facts about single bytes are checked one value at a time. Strings of bytes are ordered
lexicographically. -/
namespace ArtifactVault.Byte

theorem everyByte {property : UInt8 → Prop} (each : ∀ n < 256, property (UInt8.ofNat n))
    (byte : UInt8) : property byte := by
  have holds := each byte.toNat byte.toNat_lt
  rw [UInt8.ofNat_toNat] at holds
  exact holds

theorem lowerHexDigits : ∀ byte, (isLowerHexDigit byte = true → toLower byte = byte) ∧
    (isLowerHexDigit (toLower byte) = true → isHexDigit byte = true) :=
  everyByte (by decide +kernel)

end ArtifactVault.Byte

namespace ArtifactVault.Bytes
variable {xs ys : Bytes}

theorem orderLt (xs ys : Bytes) : order xs ys = .lt ↔ xs < ys := by
  fun_induction order xs ys with
  | case1 => exact ⟨nofun, fun less => absurd less (List.lt_irrefl _)⟩
  | case2 byte bytes => exact ⟨fun _ => List.nil_lt_cons byte bytes, fun _ => rfl⟩
  | case3 byte bytes => exact ⟨nofun, fun less => absurd less (List.not_lt_nil _)⟩
  | case4 a as b bs less => exact ⟨fun _ => List.cons_lt_cons_iff.mpr (.inl less), fun _ => rfl⟩
  | case5 a as b bs noLess more =>
    refine ⟨nofun, fun less => ?_⟩
    rcases List.cons_lt_cons_iff.mp less with less | ⟨rfl, -⟩
    · exact absurd less noLess
    · exact absurd more noLess
  | case6 a as b bs noLess noMore ih =>
    obtain rfl := UInt8.le_antisymm (UInt8.not_lt.mp noMore) (UInt8.not_lt.mp noLess)
    rw [ih, List.cons_lt_cons_iff]
    exact ⟨fun rest => .inr ⟨rfl, rest⟩, fun either => (either.resolve_left noLess).2⟩

theorem orderSwap (xs ys : Bytes) : (order xs ys).swap = order ys xs := by
  fun_induction order xs ys with
  | case1 => rfl
  | case2 => rfl
  | case3 => rfl
  | case4 a as b bs less =>
    rw [order, if_neg (UInt8.lt_asymm less), if_pos less]
    rfl
  | case5 a as b bs noLess more =>
    rw [order, if_pos more]
    rfl
  | case6 a as b bs noLess noMore ih =>
    rw [order, if_neg noMore, if_neg noLess]
    exact ih

theorem orderEq (xs ys : Bytes) : order xs ys = .eq ↔ xs = ys := by
  fun_induction order xs ys with
  | case1 => exact ⟨fun _ => rfl, fun _ => rfl⟩
  | case2 => exact ⟨nofun, nofun⟩
  | case3 => exact ⟨nofun, nofun⟩
  | case4 a as b bs less =>
    refine ⟨nofun, fun same => ?_⟩
    exact absurd ((List.cons.inj same).1 ▸ less) (UInt8.lt_irrefl _)
  | case5 a as b bs noLess more =>
    refine ⟨nofun, fun same => ?_⟩
    exact absurd ((List.cons.inj same).1 ▸ more) (UInt8.lt_irrefl _)
  | case6 a as b bs noLess noMore ih =>
    obtain rfl := UInt8.le_antisymm (UInt8.not_lt.mp noMore) (UInt8.not_lt.mp noLess)
    rw [ih]
    exact ⟨congrArg _, fun same => (List.cons.inj same).2⟩

theorem appendedOrder (tail : Bytes) (same : xs.length = ys.length) :
    xs ++ tail < ys ++ tail ↔ xs < ys := by
  induction xs generalizing ys with
  | nil =>
    obtain rfl := List.length_eq_zero_iff.mp same.symm
    exact ⟨fun less => absurd less (List.lt_irrefl _), fun less => absurd less (List.lt_irrefl _)⟩
  | cons x xs ih =>
    cases ys with
    | nil => cases same
    | cons y ys =>
      rw [List.cons_append, List.cons_append, List.cons_lt_cons_iff, List.cons_lt_cons_iff,
        ih (Nat.succ.inj same)]

end ArtifactVault.Bytes
