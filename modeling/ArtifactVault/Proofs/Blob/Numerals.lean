import ArtifactVault.Blob.Compare
import ArtifactVault.Proofs.Blob.Readable

/-! Decimal integers. What counts as one is said of the whole content, with the value that its digits
have in base ten whatever their number; the reader takes just those whose value a word of 64 bits
holds, and what the writer leaves is one of them. -/
namespace ArtifactVault.Blob
variable {b : Blob}

def Digits (bytes : Bytes) : Prop := bytes ≠ [] ∧ ∀ byte ∈ bytes, 0x30 ≤ byte ∧ byte ≤ 0x39

def digitsValue (digits : Bytes) : Nat :=
  Nat.ofDigits 10 (digits.reverse.map fun byte => byte.toNat - 0x30)

inductive Numeral : Bytes → Int → Prop where
  | bare {digits : Bytes} (proper : Digits digits) : Numeral digits (digitsValue digits)
  | plus {digits : Bytes} (proper : Digits digits) : Numeral (0x2b :: digits) (digitsValue digits)
  | minus {digits : Bytes} (proper : Digits digits) :
      Numeral (0x2d :: digits) (-(digitsValue digits : Int))

def signed (negative : Bool) (magnitude : Nat) : Int := if negative then -magnitude else magnitude

theorem decimalValue (digits : Bytes) : decimal digits = digitsValue digits := by
  rw [decimal, digitsValue, Nat.ofDigits_eq_foldr, List.foldr_map, List.foldr_reverse]
  congr 1
  funext n byte
  exact Nat.add_comm _ _

theorem digitIff : ∀ byte, Byte.isDigit byte = true ↔ 0x30 ≤ byte ∧ byte ≤ 0x39 :=
  Byte.everyByte (by decide +kernel)

theorem splitSignDigits {digits : Bytes} (proper : Digits digits) :
    splitSign digits = (false, digits) := by
  obtain ⟨filled, each⟩ := proper
  unfold splitSign
  -- no sign is a digit
  split
  · exact absurd (each _ (List.mem_cons_self ..)) (by decide)
  · exact absurd (each _ (List.mem_cons_self ..)) (by decide)
  · rfl

theorem numeralIff {bytes digits : Bytes} {negative : Bool} {value : Int}
    (split : splitSign bytes = (negative, digits)) :
    Numeral bytes value ↔ Digits digits ∧ value = signed negative (digitsValue digits) := by
  constructor
  · intro numeral
    cases numeral with
    | bare proper =>
      rw [splitSignDigits proper] at split
      cases split
      exact ⟨proper, rfl⟩
    | plus proper =>
      cases split
      exact ⟨proper, rfl⟩
    | minus proper =>
      cases split
      exact ⟨proper, rfl⟩
  · rintro ⟨proper, rfl⟩
    unfold splitSign at split
    split at split <;> cases split
    · exact .minus proper
    · exact .plus proper
    · exact .bare proper

def WordHolds (value : Int) : Prop := -2 ^ 63 ≤ value ∧ value < 2 ^ 63

instance (value : Int) : Decidable (WordHolds value) := inferInstanceAs (Decidable (_ ∧ _))

theorem wordIff {value : Int} {word : Int64} :
    word.toInt = value ↔ WordHolds value ∧ Int64.ofInt value = word := by
  constructor
  · rintro rfl
    exact ⟨⟨word.le_toInt, word.toInt_lt⟩, word.ofInt_toInt⟩
  · rintro ⟨holds, rfl⟩
    exact Int64.toInt_ofInt_of_le holds.1 holds.2

theorem digitsChecked (digits : Bytes) :
    (digits.isEmpty || !digits.all Byte.isDigit) = false ↔ Digits digits := by
  rw [Bool.or_eq_false_iff, List.isEmpty_eq_false_iff, Bool.not_eq_false', List.all_eq_true]
  simp only [digitIff, Digits]

theorem parseIntImproper {digits : Bytes} {negative : Bool} (improper : ¬ Digits digits)
    (split : splitSign b.content = (negative, digits)) : b.parseInt = none := by
  rw [← digitsChecked, Bool.not_eq_false] at improper
  unfold parseInt
  rw [split]
  exact if_pos improper

theorem parseIntDigits {digits : Bytes} {negative : Bool} (proper : Digits digits)
    (split : splitSign b.content = (negative, digits)) :
    b.parseInt = if WordHolds (signed negative (digitsValue digits))
      then some (Int64.ofInt (signed negative (digitsValue digits))) else none := by
  have checked := (digitsChecked digits).mpr proper
  have half : Int64.size / 2 = 2 ^ 63 := rfl
  unfold parseInt
  rw [split]
  simp only [checked, half, decimalValue, Bool.false_eq_true, if_false]
  generalize digitsValue digits = magnitude
  cases negative with
  | true =>
    have limit : magnitude ≤ 2 ^ 63 ↔ WordHolds (signed true magnitude) := by
      simp only [WordHolds, signed, if_true]
      omega
    simp only [limit, if_true]
    rfl
  | false =>
    have limit : magnitude < 2 ^ 63 ↔ WordHolds (signed false magnitude) := by
      simp only [WordHolds, signed, Bool.false_eq_true, if_false]
      omega
    simp only [limit, Bool.false_eq_true, if_false]
    rfl

theorem parseIntIff {value : Int64} :
    b.parseInt = some value ↔ Numeral b.content value.toInt := by
  cases split : splitSign b.content with
  | mk negative digits =>
    rw [numeralIff split, wordIff]
    by_cases proper : Digits digits
    · rw [parseIntDigits proper split, Option.ite_none_right_eq_some, Option.some_inj]
      exact ⟨fun read => ⟨proper, read⟩, fun numeral => numeral.2⟩
    · rw [parseIntImproper proper split]
      exact ⟨nofun, fun numeral => absurd numeral.1 proper⟩

theorem parseIntNone :
    b.parseInt = none ↔ ∀ value, Numeral b.content value → ¬ WordHolds value := by
  rw [Option.eq_none_iff_forall_ne_some]
  constructor
  · intro none value numeral holds
    refine none (Int64.ofInt value) (parseIntIff.mpr ?_)
    rwa [wordIff.mpr ⟨holds, rfl⟩]
  · intro outside value read
    exact outside _ (parseIntIff.mp read) (wordIff.mp rfl).1

def digitByte (digit : Nat) : UInt8 := UInt8.ofNat (0x30 + digit)

theorem digitBytes : ∀ digit < 10, Utf8.encodeChar (Nat.digitChar digit) = [digitByte digit] ∧
    (0x30 ≤ digitByte digit ∧ digitByte digit ≤ 0x39) ∧ (digitByte digit).toNat - 0x30 = digit := by
  decide +kernel

theorem encodeDigits {digits : List Nat} (small : ∀ digit ∈ digits, digit < 10) :
    Utf8.encode (digits.map Nat.digitChar) = digits.map digitByte := by
  induction digits with
  | nil => rfl
  | cons digit digits ih =>
    obtain ⟨first, later⟩ := List.forall_mem_cons.mp small
    have rest := ih later
    rw [Utf8.encode] at rest
    rw [List.map_cons, List.map_cons, Utf8.encode, List.flatMap_cons, (digitBytes digit first).1,
      rest]
    rfl

theorem properDigits {digits : List Nat} (filled : digits ≠ [])
    (small : ∀ digit ∈ digits, digit < 10) : Digits (digits.map digitByte) ∧
      digitsValue (digits.map digitByte) = Nat.ofDigits 10 digits.reverse := by
  refine ⟨⟨by simpa using filled, ?_⟩, ?_⟩
  · intro byte mem
    obtain ⟨digit, known, rfl⟩ := List.mem_map.mp mem
    exact (digitBytes digit (small digit known)).2.1
  · have back : digits.map (fun digit => (digitByte digit).toNat - 0x30) = digits :=
      (List.map_congr_left fun digit mem => (digitBytes digit (small digit mem)).2.2).trans
        (List.map_id' digits)
    rw [digitsValue, List.map_reverse, List.map_map]
    exact congrArg (Nat.ofDigits 10 ·.reverse) back

theorem decimalDigitsSpelled (n : Nat) : ∃ digits : List Nat, digits ≠ [] ∧
    (∀ digit ∈ digits, digit < 10) ∧ Nat.ofDigits 10 digits.reverse = n ∧
    decimalDigits n = digits.map Nat.digitChar := by
  unfold decimalDigits
  split
  · rename_i zero
    exact ⟨[0], nofun, by decide, zero.symm, rfl⟩
  · rename_i positive
    refine ⟨(Nat.digits 10 n).reverse, ?_, ?_, ?_, rfl⟩
    · rwa [ne_eq, List.reverse_eq_nil_iff, Nat.digits_eq_nil_iff_eq_zero]
    · intro digit mem
      exact Nat.digits_lt_base (by decide) (List.mem_reverse.mp mem)
    · rw [List.reverse_reverse, Nat.ofDigits_digits]

theorem toStringNumeral (value : Int) : Numeral (Utf8.ofString (toString value)) value := by
  obtain ⟨digits, filled, small, whole, spelled⟩ := decimalDigitsSpelled value.natAbs
  obtain ⟨proper, same⟩ := properDigits filled small
  rw [Utf8.ofString, toStringDecimal, signedDecimal, spelled]
  rw [whole] at same
  split
  · rename_i negative
    have spelling := Numeral.minus proper
    have magnitude : -(value.natAbs : Int) = value := by omega
    rw [same, magnitude, ← encodeDigits small] at spelling
    exact spelling
  · have spelling := Numeral.bare proper
    have magnitude : (value.natAbs : Int) = value := by omega
    rw [same, magnitude, ← encodeDigits small] at spelling
    exact spelling

theorem lengthDecimal {n : Nat} (small : n < 10 ^ 19) :
    (Utf8.encode (decimalDigits n)).length ≤ 19 := by
  have short := Nat.repr_length n 19 (by decide) small
  obtain ⟨digits, -, below, -, spelled⟩ := decimalDigitsSpelled n
  rw [← String.length_toList, reprDecimal, spelled, List.length_map] at short
  rwa [spelled, encodeDigits below, List.length_map]

theorem lengthToString (value : Int64) : (Utf8.ofString (toString value.toInt)).length ≤ 20 := by
  have low := value.le_toInt
  have high := value.toInt_lt
  have short := @lengthDecimal value.toInt.natAbs (by omega)
  rw [Utf8.ofString, toStringDecimal, signedDecimal]
  split
  · exact Nat.succ_le_succ short
  · exact Nat.le_succ_of_le short

theorem emptyAdmits {extra : Nat} (nothing : b.used = 0) (few : extra ≤ 20)
    (spare : b.ownership = .borrowed → b.capacity + 120 < sizeCeiling) : b.Admits extra := by
  have ceiling : sizeCeiling = 0x7fff0000 := rfl
  have pad : appendPad = 100 := rfl
  rcases ownedOrBorrowed b with owned | borrowed
  · exact admitsHalf (.inl owned) (by omega)
  · have roomy := spare borrowed
    exact .inr (by omega)

theorem integersReadBack :
    (∀ (value : Int64) (b : Blob), b.WellFormed → b.isEmpty = true →
      (∀ e, b.appendSqlInt value = .ok e → e.parseInt = some value) ∧
      ((b.ownership = .borrowed → b.capacity + 120 < sizeCeiling) →
        ∃ e, b.appendSqlInt value = .ok e)) ∧
    ∀ b : Blob, (∀ value : Int64, b.parseInt = some value ↔ Numeral b.content value.toInt) ∧
      (b.parseInt = none ↔ ∀ value, Numeral b.content value → ¬ WordHolds value) := by
  refine ⟨fun value b wf empty => ?_, fun b => ⟨fun _ => parseIntIff, parseIntNone⟩⟩
  have nothing : b.used = 0 := of_decide_eq_true empty
  constructor
  · intro e done
    have written := (appendSqlIntBuilt value).appends.sound b wf
    simp only [done] at written
    refine parseIntIff.mpr ?_
    rw [written.content, content, nothing]
    exact toStringNumeral value.toInt
  · intro spare
    have admits := emptyAdmits nothing (lengthToString value) spare
    obtain ⟨e, done, -⟩ := (appendDecided wf _).admitted admits
    exact ⟨e, done⟩

theorem lowestReadBack :
    (∃ e, empty.appendSqlInt .minValue = .ok e ∧ e.parseInt = some .minValue) ∧
    (Blob.mk (Bytes.ascii ['-', '0', '0', '9', 'x']) .borrowed 4 1 true).parseInt = some (-9) ∧
    (viewOf (Bytes.ascii "9223372036854775808".toList)).parseInt = none := by
  obtain ⟨written, read⟩ := integersReadBack
  obtain ⟨back, fits⟩ := written .minValue empty emptyWellFormed rfl
  obtain ⟨e, done⟩ := fits fun _ => by decide
  refine ⟨⟨e, done, back e done⟩, ((read _).1 _).mpr ?_, (read _).2.mpr ?_⟩
  · exact @Numeral.minus [0x30, 0x30, 0x39] ⟨nofun, by decide +kernel⟩
  · intro value numeral
    obtain ⟨-, rfl⟩ := (@numeralIff _ _ false value rfl).mp numeral
    decide +kernel

end ArtifactVault.Blob
