import ArtifactVault.Text.Utf8

/-! The front of a byte string is read as a character exactly when the encoding of that character
stands there, so a string without a fault is what some characters encode to. -/
namespace ArtifactVault.Utf8

theorem byteOf {n : Nat} (small : n < 256) : (UInt8.ofNat n).toNat = n :=
  UInt8.toNat_ofNat_of_lt' small

theorem charOf {n : Nat} (scalar : n.isValidChar) : (Char.ofNat n).toNat = n := by
  rw [Char.ofNat, dif_pos scalar]
  rfl

theorem byteEq {n : Nat} {b : UInt8} (same : n = b.toNat) : UInt8.ofNat n = b := by
  rw [same, UInt8.ofNat_toNat]

theorem continuationIff {byte : UInt8} :
    isContinuation byte = true ↔ 0x80 ≤ byte.toNat ∧ byte.toNat ≤ 0xbf := by
  simp [isContinuation, UInt8.le_iff_toNat_le]

theorem secondOfThreeIff {lead byte : UInt8} : secondOfThree lead byte = true ↔
    0x80 ≤ byte.toNat ∧ byte.toNat ≤ 0xbf ∧ (lead.toNat = 0xe0 → 0xa0 ≤ byte.toNat) ∧
      (lead.toNat = 0xed → byte.toNat ≤ 0x9f) := by
  unfold secondOfThree
  simp only [← UInt8.toNat_inj, UInt8.reduceToNat]
  split
  · simp [UInt8.le_iff_toNat_le]
    omega
  · split
    · simp [UInt8.le_iff_toNat_le]
      omega
    · rw [continuationIff]
      omega

theorem secondOfFourIff {lead byte : UInt8} : secondOfFour lead byte = true ↔
    0x80 ≤ byte.toNat ∧ byte.toNat ≤ 0xbf ∧ (lead.toNat = 0xf0 → 0x90 ≤ byte.toNat) ∧
      (lead.toNat = 0xf4 → byte.toNat ≤ 0x8f) := by
  unfold secondOfFour
  simp only [← UInt8.toNat_inj, UInt8.reduceToNat]
  split
  · simp [UInt8.le_iff_toNat_le]
    omega
  · split
    · simp [UInt8.le_iff_toNat_le]
      omega
    · rw [continuationIff]
      omega

theorem continuationOfThree {lead byte : UInt8} (second : secondOfThree lead byte = true) :
    isContinuation byte = true := by
  rw [secondOfThreeIff] at second
  rw [continuationIff]
  omega

theorem continuationOfFour {lead byte : UInt8} (second : secondOfFour lead byte = true) :
    isContinuation byte = true := by
  rw [secondOfFourIff] at second
  rw [continuationIff]
  omega

inductive Spelled : Char → Bytes → Prop where
  | one {a : UInt8} (lead : a.toNat < 0x80) : Spelled (Char.ofNat a.toNat) [a]
  | two {a b : UInt8} (lead : 0xc2 ≤ a.toNat ∧ a.toNat ≤ 0xdf) (second : isContinuation b = true) :
      Spelled (Char.ofNat (bits a 32 * 64 + bits b 64)) [a, b]
  | three {a b c : UInt8} (lead : 0xe0 ≤ a.toNat ∧ a.toNat ≤ 0xef)
      (second : secondOfThree a b = true) (third : isContinuation c = true) :
      Spelled (Char.ofNat (bits a 16 * 4096 + bits b 64 * 64 + bits c 64)) [a, b, c]
  | four {a b c d : UInt8} (lead : 0xf0 ≤ a.toNat ∧ a.toNat ≤ 0xf4)
      (second : secondOfFour a b = true) (third : isContinuation c = true)
      (fourth : isContinuation d = true) :
      Spelled (Char.ofNat (bits a 8 * 262144 + bits b 64 * 4096 + bits c 64 * 64 + bits d 64))
        [a, b, c, d]

theorem encodeSpelled {c : Char} {bytes : Bytes} (spelled : Spelled c bytes) :
    encodeChar c = bytes := by
  cases spelled with
  | @one a lead =>
    have value := charOf (.inl (by omega) : a.toNat.isValidChar)
    simp only [encodeChar, value]
    rw [if_pos lead, UInt8.ofNat_toNat]
  | @two a b lead second =>
    rw [continuationIff] at second
    have value := charOf (.inl (by unfold bits; omega) : (bits a 32 * 64 + bits b 64).isValidChar)
    unfold bits at value ⊢
    simp only [encodeChar, value]
    rw [if_neg (by omega), if_pos (by omega), byteEq (b := a) (by omega),
      byteEq (b := b) (by omega)]
  | @three a b c lead second third =>
    rw [secondOfThreeIff] at second
    rw [continuationIff] at third
    have value := charOf (by unfold Nat.isValidChar bits; omega :
      (bits a 16 * 4096 + bits b 64 * 64 + bits c 64).isValidChar)
    unfold bits at value ⊢
    simp only [encodeChar, value]
    rw [if_neg (by omega), if_neg (by omega), if_pos (by omega), byteEq (b := a) (by omega),
      byteEq (b := b) (by omega), byteEq (b := c) (by omega)]
  | @four a b c d lead second third fourth =>
    rw [secondOfFourIff] at second
    rw [continuationIff] at third fourth
    have value := charOf (by unfold Nat.isValidChar bits; omega :
      (bits a 8 * 262144 + bits b 64 * 4096 + bits c 64 * 64 + bits d 64).isValidChar)
    unfold bits at value ⊢
    simp only [encodeChar, value]
    rw [if_neg (by omega), if_neg (by omega), if_neg (by omega), byteEq (b := a) (by omega),
      byteEq (b := b) (by omega), byteEq (b := c) (by omega), byteEq (b := d) (by omega)]

theorem spelledEncoding (c : Char) : Spelled c (encodeChar c) := by
  have scalar : c.toNat.isValidChar := c.valid
  have whole := Char.ofNat_toNat c
  unfold Nat.isValidChar at scalar
  unfold encodeChar
  simp only
  split
  · have lead := byteOf (n := c.toNat) (by omega)
    have spelled := Spelled.one (a := UInt8.ofNat c.toNat) (by omega)
    rwa [lead, whole] at spelled
  · split
    · have lead := byteOf (n := 0xc0 + c.toNat / 64) (by omega)
      have next := byteOf (n := 0x80 + c.toNat % 64) (by omega)
      have spelled := Spelled.two (a := UInt8.ofNat (0xc0 + c.toNat / 64))
        (b := UInt8.ofNat (0x80 + c.toNat % 64)) (by omega) (by rw [continuationIff]; omega)
      unfold bits at spelled
      rwa [lead, next, show (0xc0 + c.toNat / 64) % 32 * 64 + (0x80 + c.toNat % 64) % 64 = c.toNat by
        omega, whole] at spelled
    · split
      · have lead := byteOf (n := 0xe0 + c.toNat / 4096) (by omega)
        have next := byteOf (n := 0x80 + c.toNat / 64 % 64) (by omega)
        have last := byteOf (n := 0x80 + c.toNat % 64) (by omega)
        have spelled := Spelled.three (a := UInt8.ofNat (0xe0 + c.toNat / 4096))
          (b := UInt8.ofNat (0x80 + c.toNat / 64 % 64)) (c := UInt8.ofNat (0x80 + c.toNat % 64))
          (by omega) (by rw [secondOfThreeIff]; omega) (by rw [continuationIff]; omega)
        unfold bits at spelled
        rwa [lead, next, last, show (0xe0 + c.toNat / 4096) % 16 * 4096 +
          (0x80 + c.toNat / 64 % 64) % 64 * 64 + (0x80 + c.toNat % 64) % 64 = c.toNat by omega,
          whole] at spelled
      · have lead := byteOf (n := 0xf0 + c.toNat / 262144) (by omega)
        have next := byteOf (n := 0x80 + c.toNat / 4096 % 64) (by omega)
        have third := byteOf (n := 0x80 + c.toNat / 64 % 64) (by omega)
        have last := byteOf (n := 0x80 + c.toNat % 64) (by omega)
        have spelled := Spelled.four (a := UInt8.ofNat (0xf0 + c.toNat / 262144))
          (b := UInt8.ofNat (0x80 + c.toNat / 4096 % 64))
          (c := UInt8.ofNat (0x80 + c.toNat / 64 % 64)) (d := UInt8.ofNat (0x80 + c.toNat % 64))
          (by omega) (by rw [secondOfFourIff]; omega) (by rw [continuationIff]; omega)
          (by rw [continuationIff]; omega)
        unfold bits at spelled
        rwa [lead, next, third, last, show (0xf0 + c.toNat / 262144) % 8 * 262144 +
          (0x80 + c.toNat / 4096 % 64) % 64 * 4096 + (0x80 + c.toNat / 64 % 64) % 64 * 64 +
          (0x80 + c.toNat % 64) % 64 = c.toNat by omega, whole] at spelled

theorem asciiOfEncoding {c : Char} {byte : UInt8} (mem : byte ∈ encodeChar c)
    (ascii : byte.toNat < 0x80) : c = Char.ofNat byte.toNat := by
  have continues {byte : UInt8} (high : isContinuation byte = true) : 0x80 ≤ byte.toNat :=
    (continuationIff.mp high).1
  have spelled := spelledEncoding c
  generalize encodeChar c = bytes at mem spelled
  cases spelled with
  | one lead =>
    rw [List.mem_singleton.mp mem]
  | two lead second =>
    have second := continues second
    simp only [List.mem_cons, List.not_mem_nil, or_false] at mem
    rcases mem with rfl | rfl <;> omega
  | three lead second third =>
    have second := continues (continuationOfThree second)
    have third := continues third
    simp only [List.mem_cons, List.not_mem_nil, or_false] at mem
    rcases mem with rfl | rfl | rfl <;> omega
  | four lead second third fourth =>
    have second := continues (continuationOfFour second)
    have third := continues third
    have fourth := continues fourth
    simp only [List.mem_cons, List.not_mem_nil, or_false] at mem
    rcases mem with rfl | rfl | rfl | rfl <;> omega

theorem headOfSpelled {c : Char} {lead : UInt8} {more : Bytes} (rest : Bytes)
    (spelled : Spelled c (lead :: more)) : head lead (more ++ rest) = .char c (more.length + 1) := by
  have bytes {low high : UInt8} : low ≤ lead ∧ lead ≤ high ↔
      low.toNat ≤ lead.toNat ∧ lead.toNat ≤ high.toNat := by simp only [UInt8.le_iff_toNat_le]
  have one : lead < 0x80 ↔ lead.toNat < 0x80 := UInt8.lt_iff_toNat_lt
  unfold head
  simp only [bytes, one, UInt8.reduceToNat]
  cases spelled with
  | one low => exact if_pos low
  | two low second =>
    rw [if_neg (by omega), if_pos low]
    simp only [List.cons_append, second, if_true]
    rfl
  | three low second third =>
    rw [if_neg (by omega), if_neg (by omega), if_pos low]
    simp only [List.cons_append, second, third, if_true]
    rfl
  | four low second third fourth =>
    rw [if_neg (by omega), if_neg (by omega), if_neg (by omega), if_pos low]
    simp only [List.cons_append, second, third, fourth, if_true]
    rfl

theorem spelledOfHead {c : Char} {lead : UInt8} {rest : Bytes} {width : Nat}
    (read : head lead rest = .char c width) :
    ∃ more, rest = more ++ rest.drop (width - 1) ∧ Spelled c (lead :: more) := by
  have bytes {low high : UInt8} : low ≤ lead ∧ lead ≤ high ↔
      low.toNat ≤ lead.toNat ∧ lead.toNat ≤ high.toNat := by simp only [UInt8.le_iff_toNat_le]
  have one : lead < 0x80 ↔ lead.toNat < 0x80 := UInt8.lt_iff_toNat_lt
  unfold head at read
  simp only [bytes, one, UInt8.reduceToNat] at read
  split at read
  · cases read
    exact ⟨[], rfl, .one (by assumption)⟩
  · split at read
    · split at read
      · cases read
      · split at read
        · cases read
          exact ⟨[_], rfl, .two (by assumption) (by assumption)⟩
        · cases read
    · split at read
      · split at read
        · cases read
        · split at read
          · split at read
            · cases read
            · split at read
              · cases read
                exact ⟨[_, _], rfl, .three (by assumption) (by assumption) (by assumption)⟩
              · cases read
          · cases read
      · split at read
        · split at read
          · cases read
          · split at read
            · split at read
              · cases read
              · split at read
                · split at read
                  · cases read
                  · split at read
                    · cases read
                      exact ⟨[_, _, _], rfl, .four (by assumption) (by assumption) (by assumption)
                        (by assumption)⟩
                    · cases read
                · cases read
            · cases read
        · cases read

theorem spelledValid {c : Char} {bytes rest : Bytes} (spelled : Spelled c bytes)
    (valid : Valid rest) : Valid (bytes ++ rest) := by
  obtain ⟨cs, encoded⟩ := valid
  exact ⟨c :: cs, by rw [← encodeSpelled spelled, ← encoded]; rfl⟩

theorem headOfEncoding (c : Char) :
    ∃ lead more, encodeChar c = lead :: more ∧ Spelled c (lead :: more) := by
  have spelled := spelledEncoding c
  cases shape : encodeChar c with
  | nil =>
    rw [shape] at spelled
    cases spelled
  | cons lead more => exact ⟨lead, more, rfl, shape ▸ spelled⟩

theorem leadOfValid {lead : UInt8} {rest : Bytes} (valid : Valid (lead :: rest)) :
    lead.toNat ≤ 0xf4 := by
  obtain ⟨cs, encoded⟩ := valid
  cases cs with
  | nil => cases encoded
  | cons c cs =>
    obtain ⟨first, more, bytes, spelled⟩ := headOfEncoding c
    rw [encode, List.flatMap_cons, bytes] at encoded
    cases encoded
    cases spelled <;> omega

theorem lengthEncodeChar (c : Char) : (encodeChar c).length ≤ 4 := by
  obtain ⟨lead, more, bytes, spelled⟩ := headOfEncoding c
  rw [bytes]
  cases spelled <;> simp

theorem lengthEncode (cs : List Char) : (encode cs).length ≤ 4 * cs.length := by
  induction cs with
  | nil => exact Nat.le_refl _
  | cons c cs ih =>
    have first := lengthEncodeChar c
    rw [encode] at ih
    rw [encode, List.flatMap_cons, List.length_append, List.length_cons]
    omega

theorem validOfFaultless {offset : Nat} {bytes : Bytes}
    (faultless : firstFaultFrom? offset bytes = none) : Valid bytes := by
  fun_induction firstFaultFrom? offset bytes with
  | case1 => exact ⟨[], rfl⟩
  | case2 offset lead rest c width read ih =>
    obtain ⟨more, split, spelled⟩ := spelledOfHead read
    rw [split]
    exact spelledValid spelled (ih faultless)
  | case3 => cases faultless
  | case4 => cases faultless

theorem encodeCons (c : Char) (cs : List Char) :
    ∃ lead more, encode (c :: cs) = lead :: (more ++ encode cs) ∧ Spelled c (lead :: more) := by
  obtain ⟨lead, more, bytes, spelled⟩ := headOfEncoding c
  exact ⟨lead, more, by simp only [encode, List.flatMap_cons, bytes, List.cons_append], spelled⟩

theorem faultlessEncoding (cs : List Char) (offset : Nat) :
    firstFaultFrom? offset (encode cs) = none := by
  induction cs generalizing offset with
  | nil => rw [encode, List.flatMap_nil, firstFaultFrom?]
  | cons c cs ih =>
    obtain ⟨lead, more, whole, spelled⟩ := encodeCons c cs
    rw [whole, firstFaultFrom?]
    simp only [headOfSpelled _ spelled, Nat.add_sub_cancel, List.drop_left]
    exact ih _

theorem validIff (bytes : Bytes) : isValid bytes = true ↔ Valid bytes := by
  rw [isValid, firstFault?, Option.isNone_iff_eq_none]
  refine ⟨validOfFaultless, fun valid => ?_⟩
  obtain ⟨cs, rfl⟩ := valid
  exact faultlessEncoding cs 0

instance (bytes : Bytes) : Decidable (Valid bytes) := decidable_of_iff _ (validIff bytes)

theorem readOntoEncode (read cs : List Char) : readOnto read (encode cs) = cs.reverse ++ read := by
  induction cs generalizing read with
  | nil => rw [encode, List.flatMap_nil, readOnto, List.reverse_nil, List.nil_append]
  | cons c cs ih =>
    obtain ⟨lead, more, whole, spelled⟩ := encodeCons c cs
    rw [whole, readOnto]
    simp only [headOfSpelled _ spelled, Nat.add_sub_cancel, List.drop_left]
    rw [ih, List.reverse_cons, List.append_assoc, List.singleton_append]

theorem decodeEncode (cs : List Char) : decode (encode cs) = .ok cs := by
  have read := readOntoEncode [] cs
  rw [decode, firstFault?, faultlessEncoding]
  simp only [lossyChars, read, List.append_nil, List.reverse_reverse]

theorem encodeInjective {cs ds : List Char} (same : encode cs = encode ds) : cs = ds := by
  have read := decodeEncode cs
  rw [same, decodeEncode] at read
  exact (Except.ok.inj read).symm

end ArtifactVault.Utf8
