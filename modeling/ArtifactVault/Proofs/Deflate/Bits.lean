import Mathlib.Algebra.Ring.Nat
import ArtifactVault.Deflate.Bits

/-! Bit strings that are written and read back: a field gives its number, and packed bytes give
their bits with less than a byte of zeros behind them, which aligning drops. -/
namespace ArtifactVault.Bits

theorem lengthOfNat (width n : Nat) : (ofNat width n).length = width := by
  induction width generalizing n with
  | zero => rfl
  | succ width ih => rw [ofNat, List.length_cons, ih]

theorem fieldOfNat {width n : Nat} (small : n < 2 ^ width) (rest : Bits) :
    field? width (ofNat width n ++ rest) = some (n, rest) := by
  induction width generalizing n with
  | zero =>
    have none : n = 0 := by omega
    rw [none]
    rfl
  | succ width ih =>
    have half : n / 2 < 2 ^ width := by
      rw [Nat.pow_succ] at small
      omega
    rw [ofNat, List.cons_append, field?, ih half]
    have bit : (n % 2 == 1).toNat = n % 2 := by
      rcases Nat.mod_two_eq_zero_or_one n with even | odd
      · rw [even]; rfl
      · rw [odd]; rfl
    simp only [bit, Option.some.injEq, Prod.mk.injEq, and_true]
    omega

theorem fieldSplit {width n : Nat} {bits rest : Bits} (found : field? width bits = some (n, rest)) :
    n < 2 ^ width ∧ bits = ofNat width n ++ rest := by
  induction width generalizing bits n with
  | zero =>
    cases found
    exact ⟨Nat.one_pos, rfl⟩
  | succ width ih =>
    cases bits with
    | nil => cases found
    | cons bit bits =>
      rw [field?] at found
      split at found
      · rename_i later more given
        cases found
        obtain ⟨small, same⟩ := ih given
        have one : bit.toNat ≤ 1 := by cases bit <;> decide
        have low : ((bit.toNat + 2 * later) % 2 == 1) = bit := by cases bit <;> simp [Nat.add_mod]
        have high : (bit.toNat + 2 * later) / 2 = later := by omega
        refine ⟨by rw [Nat.pow_succ]; omega, ?_⟩
        rw [ofNat, low, high, same, List.cons_append]
      · cases found

theorem toNatLt (bits : Bits) : toNat bits < 2 ^ bits.length := by
  induction bits with
  | nil => exact Nat.one_pos
  | cons bit bits ih =>
    have one : bit.toNat ≤ 1 := by cases bit <;> decide
    rw [toNat, List.length_cons, Nat.pow_succ]
    omega

theorem ofNatToNat {width : Nat} {bits : Bits} (fits : bits.length ≤ width) :
    ofNat width (toNat bits) = bits ++ List.replicate (width - bits.length) false := by
  induction bits generalizing width with
  | nil =>
    induction width with
    | zero => rfl
    | succ width ih =>
      have rest := ih (Nat.zero_le _)
      simp only [toNat, List.nil_append, List.length_nil, Nat.sub_zero] at rest ⊢
      rw [ofNat, List.replicate_succ, Nat.zero_div, rest]
      rfl
  | cons bit bits ih =>
    cases width with
    | zero => cases fits
    | succ width =>
      have low : (toNat (bit :: bits) % 2 == 1) = bit := by
        rw [toNat]
        cases bit <;> simp [Nat.add_mod]
      have high : toNat (bit :: bits) / 2 = toNat bits := by
        have one : bit.toNat ≤ 1 := by cases bit <;> decide
        rw [toNat]
        omega
      rw [ofNat, low, high, ih (Nat.le_of_succ_le_succ fits), List.length_cons,
        Nat.add_sub_add_right]
      rfl

theorem ofBytesCons (byte : UInt8) (bytes : Bytes) :
    ofBytes (byte :: bytes) = ofNat 8 byte.toNat ++ ofBytes bytes := rfl

theorem ofBytesAppend (xs ys : Bytes) : ofBytes (xs ++ ys) = ofBytes xs ++ ofBytes ys :=
  List.flatMap_append

theorem lengthOfBytes (bytes : Bytes) : (ofBytes bytes).length = 8 * bytes.length := by
  induction bytes with
  | nil => rfl
  | cons byte bytes ih =>
    rw [ofBytesCons, List.length_append, lengthOfNat, ih, List.length_cons]
    omega

theorem wholeBytes (bytes : Bytes) : (ofBytes bytes).length % 8 = 0 := by
  rw [lengthOfBytes]
  exact Nat.mul_mod_right 8 _

theorem ofBytesSplit {bytes : Bytes} {front back : Bits} (split : ofBytes bytes = front ++ back)
    (whole : front.length % 8 = 0) :
    ∃ first second, bytes = first ++ second ∧ ofBytes first = front ∧ ofBytes second = back := by
  have lengths := congrArg List.length split
  rw [lengthOfBytes, List.length_append] at lengths
  have parts : bytes = bytes.take (front.length / 8) ++ bytes.drop (front.length / 8) :=
    (List.take_append_drop _ _).symm
  have same : ofBytes (bytes.take (front.length / 8)) ++ ofBytes (bytes.drop (front.length / 8)) =
      front ++ back := by rw [← ofBytesAppend, ← parts, split]
  have length : (ofBytes (bytes.take (front.length / 8))).length = front.length := by
    rw [lengthOfBytes, List.length_take]
    omega
  obtain ⟨first, second⟩ := List.append_inj same length
  exact ⟨_, _, parts, first, second⟩

theorem ofBytesInjective {xs ys : Bytes} (same : ofBytes xs = ofBytes ys) : xs = ys := by
  induction xs generalizing ys with
  | nil =>
    have lengths := congrArg List.length same
    rw [lengthOfBytes, lengthOfBytes, List.length_nil] at lengths
    exact (List.eq_nil_of_length_eq_zero (by omega)).symm
  | cons x xs ih =>
    cases ys with
    | nil => cases same
    | cons y ys =>
      rw [ofBytesCons, ofBytesCons] at same
      obtain ⟨first, rest⟩ := List.append_inj same (by rw [lengthOfNat, lengthOfNat])
      have values : x.toNat = y.toNat := by
        have read := fieldOfNat x.toNat_lt []
        rw [first, fieldOfNat y.toNat_lt] at read
        exact (Prod.mk.inj (Option.some.inj read)).1.symm
      rw [UInt8.toNat_inj.mp values, ih rest]

theorem ofBytesPackOnto (packed : Bytes) (bits : Bits) :
    ∃ padding < 8, ofBytes (packOnto packed bits).reverse =
      ofBytes packed.reverse ++ bits ++ List.replicate padding false := by
  fun_induction packOnto packed bits with
  | case1 packed => exact ⟨0, by decide, by simp⟩
  | case2 packed bit bits ih =>
    let chunk := bit :: bits.take 7
    have short : chunk.length ≤ 8 := by simp only [chunk, List.length_cons, List.length_take]; omega
    have value : (UInt8.ofNat (toNat chunk)).toNat = toNat chunk := by
      have below := toNatLt chunk
      have word : 2 ^ chunk.length ≤ 2 ^ 8 := Nat.pow_le_pow_right (by decide) short
      rw [UInt8.toNat_ofNat']
      exact Nat.mod_eq_of_lt (Nat.lt_of_lt_of_le below word)
    have last : ofBytes (UInt8.ofNat (toNat chunk) :: packed).reverse =
        ofBytes packed.reverse ++ (chunk ++ List.replicate (8 - chunk.length) false) := by
      rw [List.reverse_cons, ofBytesAppend, ← ofNatToNat short, ← value]
      simp [ofBytes]
    by_cases full : 7 ≤ bits.length
    · obtain ⟨padding, small, packed⟩ := ih
      have size : chunk.length = 8 := by simp only [chunk, List.length_cons, List.length_take]; omega
      refine ⟨padding, small, packed.trans ?_⟩
      rw [last, size]
      simp [chunk]
    · have rest : bits.drop 7 = [] := List.drop_of_length_le (by omega)
      have whole : chunk = bit :: bits :=
        congrArg (bit :: ·) (List.take_of_length_le (by omega))
      refine ⟨8 - chunk.length, by simp only [chunk, List.length_cons]; omega, ?_⟩
      rw [rest, packOnto, last, whole]
      simp

theorem ofBytesPack (bits : Bits) :
    ∃ padding < 8, ofBytes (pack bits) = bits ++ List.replicate padding false := by
  obtain ⟨padding, small, packed⟩ := ofBytesPackOnto [] bits
  exact ⟨padding, small, packed⟩

theorem lengthPackLe (bits : Bits) : 8 * (pack bits).length < bits.length + 8 := by
  obtain ⟨padding, small, packed⟩ := ofBytesPack bits
  have lengths := congrArg List.length packed
  rw [lengthOfBytes, List.length_append, List.length_replicate] at lengths
  omega

theorem alignSplit (bits : Bits) :
    ∃ padding, padding.length = bits.length % 8 ∧ bits = padding ++ align bits := by
  refine ⟨bits.take (bits.length % 8), ?_, (List.take_append_drop _ _).symm⟩
  rw [List.length_take]
  exact Nat.min_eq_left (Nat.mod_le _ _)

theorem alignBehind {padding : Bits} (small : padding.length < 8) (bytes : Bytes) :
    align (padding ++ ofBytes bytes) = ofBytes bytes := by
  have begun : (padding ++ ofBytes bytes).length % 8 = padding.length := by
    rw [List.length_append, lengthOfBytes]
    omega
  rw [align, begun]
  exact List.drop_left

end ArtifactVault.Bits
