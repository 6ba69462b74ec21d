import ArtifactVault.Text.Utf16
import ArtifactVault.Proofs.Text.Utf8

/-! UTF-16 is read one unit or one pair at a time, so the first character tells the first unit: the
text begins with U+FEFF exactly when the units do. -/
namespace ArtifactVault.Utf16

def lone (u : Nat) : Char := if isHigh u || isLow u then '\uFFFD' else Char.ofNat u

def readOne (u : Nat) : List Nat → Char × List Nat
  | [] => (lone u, [])
  | v :: rest => if isHigh u && isLow v then (paired u v, rest) else (lone u, v :: rest)

theorem readOntoStep (read : List Char) (u : Nat) (rest : List Nat) :
    readOnto read (u :: rest) = readOnto ((readOne u rest).1 :: read) (readOne u rest).2 := by
  cases rest with
  | nil =>
    rw [readOnto, readOne, lone]
    by_cases high : isHigh u = true
    · rw [if_pos high, high, Bool.true_or, if_pos rfl, readOnto]
    · by_cases low : isLow u = true <;> simp [high, low]
  | cons v rest =>
    rw [readOnto, readOne, lone]
    by_cases high : isHigh u = true
    · by_cases low : isLow v = true <;> simp [high, low]
    · by_cases low : isLow u = true <;> simp [high, low]

theorem lengthReadOne (u : Nat) (rest : List Nat) : (readOne u rest).2.length ≤ rest.length := by
  cases rest with
  | nil => exact Nat.le_refl _
  | cons v rest =>
    rw [readOne]
    split
    · exact Nat.le_succ _
    · exact Nat.le_refl _

theorem readOntoAppend (read before : List Char) (us : List Nat) :
    readOnto (read ++ before) us = readOnto read us ++ before := by
  match us with
  | [] => rw [readOnto, readOnto]
  | u :: rest =>
    have shorter := lengthReadOne u rest
    rw [readOntoStep, readOntoStep read]
    exact readOntoAppend (_ :: read) before (readOne u rest).2
  termination_by us.length

theorem decodeStep (u : Nat) (rest : List Nat) :
    decode (u :: rest) = (readOne u rest).1 :: decode (readOne u rest).2 := by
  have behind := readOntoAppend [] [(readOne u rest).1] (readOne u rest).2
  rw [List.nil_append] at behind
  rw [decode, readOntoStep, behind, List.reverse_append]
  rfl

theorem lengthReadOnto (read : List Char) (us : List Nat) :
    (readOnto read us).length ≤ read.length + us.length := by
  fun_induction readOnto read us with
  | case1 => exact Nat.le_refl _
  | case2 | case3 | case4 | case5 | case6 => simp only [List.length_cons] at *; omega

theorem lengthDecode (us : List Nat) : (decode us).length ≤ us.length := by
  have read := lengthReadOnto [] us
  rw [decode, List.length_reverse]
  rwa [List.length_nil, Nat.zero_add] at read

theorem lengthUnits (bytes : Bytes) : 2 * (units bytes).length ≤ bytes.length := by
  fun_induction units bytes with
  | case1 low high rest ih => simp only [List.length_cons]; omega
  | case2 => exact Nat.zero_le _

def markChar : Char := '\uFEFF'

theorem pairedNotMark {high low : Nat} (first : isHigh high = true) (second : isLow low = true) :
    paired high low ≠ markChar := by
  intro same
  simp only [isHigh, isLow, Bool.and_eq_true, decide_eq_true_eq] at first second
  have value := congrArg Char.toNat same
  rw [paired, Utf8.charOf (by unfold Nat.isValidChar; omega)] at value
  have mark : markChar.toNat = 0xfeff := rfl
  omega

theorem loneMark : lone 0xfeff = markChar := by decide

theorem loneMarkIff (u : Nat) : lone u = markChar ↔ u = 0xfeff := by
  refine ⟨fun same => ?_, fun same => same ▸ loneMark⟩
  unfold lone at same
  split at same
  · exact absurd same (by decide)
  · by_cases scalar : u.isValidChar
    · exact (Utf8.charOf scalar).symm.trans (congrArg Char.toNat same)
    · rw [Char.ofNat, dif_neg scalar] at same
      exact absurd same (by decide)

theorem readOneMarkIff (u : Nat) (rest : List Nat) :
    (readOne u rest).1 = markChar ↔ u = 0xfeff := by
  cases rest with
  | nil => exact loneMarkIff u
  | cons v rest =>
    rw [readOne]
    by_cases pair : (isHigh u && isLow v) = true
    · obtain ⟨high, low⟩ := Bool.and_eq_true_iff.mp pair
      have notMark : u ≠ 0xfeff := by
        rintro rfl
        exact absurd high (by decide)
      simp only [if_pos pair, pairedNotMark high low, notMark]
    · rw [if_neg pair]
      exact loneMarkIff u

theorem decodeMarkIff (us : List Nat) :
    (decode us).head? = some markChar ↔ us.head? = some 0xfeff := by
  cases us with
  | nil => simp [decode, readOnto]
  | cons u rest =>
    rw [decodeStep, List.head?_cons, List.head?_cons, Option.some.injEq, Option.some.injEq]
    exact readOneMarkIff u rest

theorem unitsMarkIff (bytes : Bytes) :
    (units bytes).head? = some 0xfeff ↔ bytes.take 2 = [0xff, 0xfe] := by
  fun_cases units bytes with
  | case1 low high rest =>
    have lowLt := low.toNat_lt
    have highLt := high.toNat_lt
    simp only [List.head?_cons, Option.some.injEq, List.take_succ_cons, List.take_zero,
      List.cons.injEq, and_true, ← UInt8.toNat_inj, UInt8.reduceToNat]
    omega
  | case2 bytes short =>
    refine ⟨nofun, fun taken => ?_⟩
    cases bytes with
    | nil => cases taken
    | cons low rest =>
      cases rest with
      | nil => cases taken
      | cons high rest => exact absurd rfl (short low high rest)

theorem swapBytesMarkIff (bytes : Bytes) :
    (swapBytes bytes).take 2 = [0xff, 0xfe] ↔ bytes.take 2 = [0xfe, 0xff] := by
  fun_cases swapBytes bytes with
  | case1 first second rest => simp [and_comm]
  | case2 bytes short =>
    cases bytes with
    | nil => decide
    | cons first rest =>
      cases rest with
      | nil => simp
      | cons second rest => exact absurd rfl (short first second rest)

def unmarked (reversed : Bool) (bytes : Bytes) : Bytes :=
  (if reversed then swapBytes bytes else bytes).drop 2

theorem unmarkedMarkIff {bytes : Bytes} {reversed : Bool}
    (marked : markReversed? bytes = some reversed) :
    (decode (units (unmarked reversed bytes))).head? = some markChar ↔
      (bytes.drop 2).take 2 = bytes.take 2 := by
  rw [decodeMarkIff, unitsMarkIff]
  unfold markReversed? at marked
  split at marked
  · cases marked
  · split at marked
    · cases marked
      rfl
    · cases marked
      exact swapBytesMarkIff _
    · cases marked

theorem lengthSwapBytes (bytes : Bytes) : (swapBytes bytes).length = bytes.length := by
  fun_induction swapBytes bytes with
  | case1 first second rest ih => simp [ih]
  | case2 rest => rfl

theorem lengthUnmarked (reversed : Bool) (bytes : Bytes) :
    (unmarked reversed bytes).length ≤ bytes.length := by
  have swapped := lengthSwapBytes bytes
  unfold unmarked
  rw [List.length_drop]
  cases reversed with
  | false => exact Nat.sub_le _ _
  | true =>
    rw [if_pos rfl, swapped]
    exact Nat.sub_le _ _

end ArtifactVault.Utf16
