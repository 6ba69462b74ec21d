import ArtifactVault.Proofs.Text.Utf16

/-! What units stand for. A surrogate belongs to a pair or to no character at all, and since no unit
is both a high and a low one, the pairs of a text never overlap: reading from the left finds all of
them. -/
namespace ArtifactVault.Utf16

inductive Spells : List Nat → List Char → Prop where
  | nil : Spells [] []
  | char (c : Char) {us cs} (rest : Spells us cs) : Spells (encodeChar c ++ us) (c :: cs)
  | highAlone {u us cs} (high : isHigh u = true)
      (unpaired : ∀ v, us.head? = some v → isLow v = false) (rest : Spells us cs) :
      Spells (u :: us) ('\uFFFD' :: cs)
  | lowAlone {u us cs} (low : isLow u = true) (rest : Spells us cs) :
      Spells (u :: us) ('\uFFFD' :: cs)

theorem isHighIff (u : Nat) : isHigh u = true ↔ 0xd800 ≤ u ∧ u ≤ 0xdbff := by simp [isHigh]

theorem isLowIff (u : Nat) : isLow u = true ↔ 0xdc00 ≤ u ∧ u ≤ 0xdfff := by simp [isLow]

theorem lowNotHigh {u : Nat} (low : isLow u = true) : isHigh u = false := by
  rw [isLowIff] at low
  rw [Bool.eq_false_iff, ne_eq, isHighIff]
  omega

theorem scalarIff {u : Nat} (small : u < 0x10000) :
    u.isValidChar ↔ isHigh u = false ∧ isLow u = false := by
  rw [Bool.eq_false_iff, Bool.eq_false_iff, ne_eq, ne_eq, isHighIff, isLowIff]
  unfold Nat.isValidChar
  omega

theorem encodeShort {c : Char} (short : c.toNat < 0x10000) : encodeChar c = [c.toNat] := if_pos short

theorem encodePaired {high low : Nat} (first : isHigh high = true) (second : isLow low = true) :
    encodeChar (paired high low) = [high, low] := by
  rw [isHighIff] at first
  rw [isLowIff] at second
  have value : (paired high low).toNat = 0x10000 + (high - 0xd800) * 1024 + (low - 0xdc00) :=
    Utf8.charOf (by unfold Nat.isValidChar; omega)
  have front : 0xd800 + ((paired high low).toNat - 0x10000) / 1024 = high := by omega
  have back : 0xdc00 + ((paired high low).toNat - 0x10000) % 1024 = low := by omega
  rw [encodeChar, if_neg (by omega), front, back]

theorem pairOf {c : Char} (long : ¬ c.toNat < 0x10000) :
    ∃ high low, encodeChar c = [high, low] ∧ isHigh high = true ∧ isLow low = true ∧
      paired high low = c := by
  have scalar : c.toNat.isValidChar := c.valid
  unfold Nat.isValidChar at scalar
  refine ⟨_, _, if_neg long, (isHighIff _).mpr (by omega), (isLowIff _).mpr (by omega), ?_⟩
  rw [paired, show 0x10000 + (0xd800 + (c.toNat - 0x10000) / 1024 - 0xd800) * 1024 +
    (0xdc00 + (c.toNat - 0x10000) % 1024 - 0xdc00) = c.toNat by omega, Char.ofNat_toNat]

theorem readScalar {c : Char} (short : c.toNat < 0x10000) (us : List Nat) :
    readOne c.toNat us = (c, us) := by
  obtain ⟨noHigh, noLow⟩ := (scalarIff short).mp c.valid
  cases us with
  | nil => simp [readOne, lone, noHigh, noLow]
  | cons v us => simp [readOne, lone, noHigh, noLow]

theorem decodeChar (c : Char) (us : List Nat) : decode (encodeChar c ++ us) = c :: decode us := by
  by_cases short : c.toNat < 0x10000
  · rw [encodeShort short, List.singleton_append, decodeStep, readScalar short]
  · obtain ⟨high, low, units, first, second, whole⟩ := pairOf short
    rw [units, List.cons_append, List.singleton_append, decodeStep, readOne, first, second]
    simp [whole]

theorem readHighAlone {u : Nat} {us : List Nat} (high : isHigh u = true)
    (unpaired : ∀ v, us.head? = some v → isLow v = false) : readOne u us = ('\uFFFD', us) := by
  cases us with
  | nil => simp [readOne, lone, high]
  | cons v us => simp [readOne, lone, high, unpaired v rfl]

theorem readLowAlone {u : Nat} (low : isLow u = true) (us : List Nat) :
    readOne u us = ('\uFFFD', us) := by
  have noHigh := lowNotHigh low
  cases us with
  | nil => simp [readOne, lone, low]
  | cons v us => simp [readOne, lone, low, noHigh]

theorem decodeNil : decode [] = [] := by rw [decode, readOnto, List.reverse_nil]

theorem decodeSpelled {us : List Nat} {cs : List Char} (spells : Spells us cs) : decode us = cs := by
  induction spells with
  | nil => exact decodeNil
  | char c rest ih => rw [decodeChar, ih]
  | highAlone high unpaired rest ih => rw [decodeStep, readHighAlone high unpaired, ih]
  | lowAlone low rest ih => rw [decodeStep, readLowAlone low, ih]

theorem spelledEncode (cs : List Char) : Spells (encode cs) cs := by
  induction cs with
  | nil => exact .nil
  | cons c cs ih =>
    rw [encode, List.flatMap_cons]
    exact .char c ih

theorem decodeSpells (us : List Nat) (small : ∀ u ∈ us, u < 0x10000) : Spells us (decode us) := by
  -- By the number of units: a pair takes two of them.
  match us with
  | [] =>
    rw [decodeNil]
    exact .nil
  | u :: us =>
    have behind (v : Nat) (mem : v ∈ us) : v < 0x10000 := small v (List.mem_cons_of_mem _ mem)
    cases low : isLow u with
    | true =>
      rw [decodeStep, readLowAlone low]
      exact .lowAlone low (decodeSpells us behind)
    | false =>
      cases high : isHigh u with
      | false =>
        have scalar := (scalarIff (small u List.mem_cons_self)).mpr ⟨high, low⟩
        have value := Utf8.charOf scalar
        have short : (Char.ofNat u).toNat < 0x10000 := by
          rw [value]
          exact small u List.mem_cons_self
        have unit : encodeChar (Char.ofNat u) = [u] := by rw [encodeShort short, value]
        have first := decodeChar (Char.ofNat u) us
        have spelled := Spells.char (Char.ofNat u) (decodeSpells us behind)
        rw [unit, List.singleton_append] at first spelled
        rwa [first]
      | true =>
        match us with
        | [] =>
          have last (v : Nat) (same : [].head? = some v) : isLow v = false := by cases same
          rw [decodeStep, readHighAlone high last, decodeNil]
          exact .highAlone high last .nil
        | v :: rest =>
          cases second : isLow v with
          | true =>
            have first := decodeChar (paired u v) rest
            have spelled := Spells.char (paired u v)
              (decodeSpells rest fun w mem => behind w (List.mem_cons_of_mem _ mem))
            rw [encodePaired high second, List.cons_append, List.singleton_append] at first spelled
            rwa [first]
          | false =>
            have unpaired (w : Nat) (same : (v :: rest).head? = some w) : isLow w = false := by
              cases same
              exact second
            rw [decodeStep, readHighAlone high unpaired]
            exact .highAlone high unpaired (decodeSpells (v :: rest) behind)
  termination_by us.length

theorem unitsToBytes (us : List Nat) (small : ∀ u ∈ us, u < 0x10000) :
    units (toBytes false us) = us := by
  induction us with
  | nil => rfl
  | cons u us ih =>
    have below := small u List.mem_cons_self
    have low := Utf8.byteOf (n := u % 256) (by omega)
    have high := Utf8.byteOf (n := u / 256) (by omega)
    have rest := ih fun v mem => small v (List.mem_cons_of_mem _ mem)
    have first : toBytes false (u :: us) =
        UInt8.ofNat (u % 256) :: UInt8.ofNat (u / 256) :: toBytes false us := rfl
    rw [first, units, low, high, rest]
    congr 1
    omega

theorem swapToBytes (us : List Nat) : swapBytes (toBytes true us) = toBytes false us := by
  induction us with
  | nil => rfl
  | cons u us ih => exact congrArg (UInt8.ofNat (u % 256) :: UInt8.ofNat (u / 256) :: ·) ih

theorem lengthToBytes (reversed : Bool) (us : List Nat) :
    (toBytes reversed us).length = 2 * us.length := by
  induction us with
  | nil => rfl
  | cons u us ih =>
    rw [toBytes, List.flatMap_cons, List.length_append, ← toBytes, ih, List.length_cons]
    cases reversed with
    | false => simp only [Bool.false_eq_true, if_false, List.length_cons, List.length_nil]; omega
    | true => simp only [if_true, List.length_cons, List.length_nil]; omega

def marked (reversed : Bool) (us : List Nat) : Bytes := toBytes reversed (0xfeff :: us)

theorem markedReversed (reversed : Bool) (us : List Nat) :
    markReversed? (marked reversed us) = some reversed := by
  have length := lengthToBytes reversed (0xfeff :: us)
  unfold markReversed?
  rw [marked, if_neg (by omega)]
  cases reversed with
  | false => rfl
  | true => rfl

theorem unmarkedMarked (reversed : Bool) (us : List Nat) :
    unmarked reversed (marked reversed us) = toBytes false us := by
  cases reversed with
  | false => rfl
  | true =>
    rw [unmarked, marked, if_pos rfl, swapToBytes]
    rfl

end ArtifactVault.Utf16
