import ArtifactVault.ArtifactId
import ArtifactVault.Proofs.Byte
import ArtifactVault.Proofs.Text.Json

/-! Hex names as bytes: two lower-case digits for each byte of the digest. Reading a name gives back
the id, so no two ids share one, and nothing is read that does not have the length and the digits of
a name. -/
namespace ArtifactVault.Hex

def digitByte (n : Nat) : UInt8 := UInt8.ofNat (digit n).toNat

theorem digitOfSixteen : ∀ n < 16, Utf8.encodeChar (digit n) = [digitByte n] ∧
    value? (digitByte n) = some n ∧ Byte.isLowerHexDigit (digitByte n) = true := by
  decide

def pair (byte : UInt8) : Bytes := [digitByte (byte.toNat / 16), digitByte (byte.toNat % 16)]

theorem halves (byte : UInt8) : byte.toNat / 16 < 16 ∧ byte.toNat % 16 < 16 := by
  have below := byte.toNat_lt
  omega

theorem bytesOfDigits (bytes : Bytes) : Utf8.encode (encodeChars bytes) = bytes.flatMap pair := by
  induction bytes with
  | nil => rfl
  | cons byte bytes ih =>
    obtain ⟨high, low⟩ := halves byte
    have first := (digitOfSixteen _ high).1
    have second := (digitOfSixteen _ low).1
    simp only [encodeChars, Utf8.encode, List.flatMap_cons, List.flatMap_append, List.flatMap_nil,
      List.append_nil, first, second] at ih ⊢
    rw [ih]
    rfl

theorem bytesOfEncode (bytes : Bytes) : Utf8.ofString (encode bytes) = bytes.flatMap pair := by
  rw [Utf8.ofString, encode, String.toList_ofList]
  exact bytesOfDigits bytes

theorem lengthEncode (bytes : Bytes) : (Utf8.ofString (encode bytes)).length = bytes.length * 2 := by
  rw [bytesOfEncode]
  induction bytes with
  | nil => rfl
  | cons byte bytes ih =>
    rw [List.flatMap_cons, List.length_append, ih, List.length_cons]
    simp only [pair, List.length_cons, List.length_nil]
    omega

theorem encodeDigits {bytes : Bytes} {byte : UInt8} (mem : byte ∈ Utf8.ofString (encode bytes)) :
    Byte.isLowerHexDigit byte = true := by
  rw [bytesOfEncode, List.mem_flatMap] at mem
  obtain ⟨source, -, mem⟩ := mem
  obtain ⟨high, low⟩ := halves source
  simp only [pair, List.mem_cons, List.not_mem_nil, or_false] at mem
  rcases mem with rfl | rfl
  · exact (digitOfSixteen _ high).2.2
  · exact (digitOfSixteen _ low).2.2

theorem decodeFromEncode (bytes : Bytes) :
    ∀ position, decodeFrom position (bytes.flatMap pair) = .ok bytes := by
  induction bytes with
  | nil => exact fun _ => rfl
  | cons byte bytes ih =>
    intro position
    obtain ⟨high, low⟩ := halves byte
    have whole : 16 * (byte.toNat / 16) + byte.toNat % 16 = byte.toNat := Nat.div_add_mod _ _
    have cons : (byte :: bytes).flatMap pair =
        digitByte (byte.toNat / 16) :: digitByte (byte.toNat % 16) :: bytes.flatMap pair := rfl
    rw [cons, decodeFrom]
    simp only [(digitOfSixteen _ high).2.1, (digitOfSixteen _ low).2.1, ih, whole,
      UInt8.ofNat_toNat]
    rfl

theorem valueOfDigit : ∀ byte : UInt8, (value? byte).isSome = Byte.isHexDigit byte ∧
    ∀ n ∈ value? byte, n < 16 ∧ digitByte n = Byte.toLower byte :=
  Byte.everyByte (by decide +kernel)

theorem digitRead {byte : UInt8} (digit : Byte.isHexDigit byte = true) : value? byte ≠ none := by
  rw [← (valueOfDigit byte).1] at digit
  exact Option.isSome_iff_ne_none.mp digit

theorem decodeDigits {name : Bytes} (digits : ∀ byte ∈ name, Byte.isHexDigit byte = true)
    (even : name.length % 2 = 0) (position : Nat) :
    ∃ raw, decodeFrom position name = .ok raw := by
  fun_induction decodeFrom position name with
  | case1 => exact ⟨[], rfl⟩
  | case2 => exact absurd even (by simp)
  | case3 position high low rest noDigit => exact absurd noDigit (digitRead (digits high (by simp)))
  | case4 position high low rest h noDigit _ =>
    exact absurd noDigit (digitRead (digits low (by simp)))
  | case5 position high low rest h l second first ih =>
    have shorter : rest.length % 2 = 0 := by
      simp only [List.length_cons] at even
      omega
    obtain ⟨raw, decoded⟩ := ih (fun byte mem => digits byte (by simp [mem])) shorter
    exact ⟨UInt8.ofNat (16 * h + l) :: raw, by rw [decoded]; rfl⟩

theorem decodedLower {name raw : Bytes} {position : Nat}
    (decoded : decodeFrom position name = .ok raw) : raw.flatMap pair = name.map Byte.toLower := by
  fun_induction decodeFrom position name generalizing raw with
  | case1 =>
    cases decoded
    rfl
  | case2 => cases decoded
  | case3 => cases decoded
  | case4 => cases decoded
  | case5 position high low rest h l second first ih =>
    cases later : decodeFrom (position + 2) rest with
    | error fault =>
      rw [later] at decoded
      cases decoded
    | ok read =>
      rw [later] at decoded
      cases decoded
      obtain ⟨small, upper⟩ := (valueOfDigit high).2 h first
      obtain ⟨less, lower⟩ := (valueOfDigit low).2 l second
      have whole : (UInt8.ofNat (16 * h + l)).toNat = 16 * h + l :=
        UInt8.toNat_ofNat_of_lt' (by omega : 16 * h + l < 256)
      rw [List.flatMap_cons, ih later, pair, whole, List.map_cons, List.map_cons, ← upper, ← lower,
        (by omega : (16 * h + l) / 16 = h), (by omega : (16 * h + l) % 16 = l)]
      rfl

theorem decodeEncode (bytes : Bytes) : decode (Utf8.ofString (encode bytes)) = .ok bytes := by
  rw [bytesOfEncode]
  exact decodeFromEncode bytes 0

end ArtifactVault.Hex

namespace ArtifactVault.ArtifactId

theorem lengthDigest (id : ArtifactId) : id.digest.length = id.algorithm.digestLength := by
  rw [digest, List.length_take, id.length_slots]
  exact Nat.min_eq_left id.algorithm.digestLength_le

theorem digestOfRaw {a : Algorithm} {raw : Bytes} (sized : raw.length = a.digestLength) :
    (ofRaw a raw sized).digest = raw := by
  simp only [digest, ofRaw, ← sized, List.take_left]

theorem slotsOfDigest (id : ArtifactId) :
    id.slots = id.digest ++ List.replicate (idSlots - id.digest.length) 0 := by
  rw [lengthDigest, ← id.zero_tail, digest, List.take_append_drop]

theorem sameDigest {x y : ArtifactId} (algorithm : x.algorithm = y.algorithm)
    (digest : x.digest = y.digest) : x = y := by
  have slots : x.slots = y.slots := by rw [slotsOfDigest, digest, ← slotsOfDigest]
  obtain ⟨a, slots', length, zeros⟩ := x
  cases algorithm
  cases slots
  rfl

theorem computeIff (id : ArtifactId) (content : Bytes) :
    compute id.algorithm content = id ↔ id.algorithm.digest content = id.digest := by
  have computed : (compute id.algorithm content).digest = id.algorithm.digest content :=
    digestOfRaw (id.algorithm.length_digest content)
  refine ⟨fun same => ?_, fun same => sameDigest rfl (computed.trans same)⟩
  rw [← computed, same]

theorem ofDigestSelf (id : ArtifactId) : ofDigest id.algorithm id.digest = .ok id := by
  rw [ofDigest, dif_pos id.lengthDigest]
  exact congrArg Except.ok (sameDigest rfl (digestOfRaw id.lengthDigest))

def nameBytes (id : ArtifactId) : Bytes := Utf8.ofString id.hex

theorem lengthNameBytes (id : ArtifactId) : id.nameBytes.length = id.algorithm.hexLength := by
  rw [nameBytes, hex, Hex.lengthEncode, id.lengthDigest]
  rfl

theorem ofHexLength (a : Algorithm) : Algorithm.ofHexLength? a.hexLength = some a := by
  cases a with
  | sha1 => rfl
  | sha3 => rfl

theorem ofNameBytes (id : ArtifactId) : ofHex id.nameBytes = .ok id := by
  have decoded : Hex.decode id.nameBytes = .ok id.digest := Hex.decodeEncode id.digest
  rw [ofHex, lengthNameBytes, ofHexLength]
  simp only [decoded]
  exact ofDigestSelf id

theorem nameBytesInjective {x y : ArtifactId} (same : x.nameBytes = y.nameBytes) : x = y := by
  have read := ofNameBytes x
  rw [same, ofNameBytes y] at read
  exact (Except.ok.inj read).symm

theorem nameBytesOfRaw {a : Algorithm} {raw : Bytes} (sized : raw.length = a.digestLength) :
    (ofRaw a raw sized).nameBytes = raw.flatMap Hex.pair := by
  rw [nameBytes, hex, digestOfRaw, Hex.bytesOfEncode]

theorem lowerKept {name : Bytes} (lower : ∀ byte ∈ name, Byte.isLowerHexDigit byte = true) :
    name.map Byte.toLower = name :=
  (List.map_congr_left fun byte mem => (Byte.lowerHexDigits byte).1 (lower byte mem)).trans
    (List.map_id name)

theorem lowerNameBytes (id : ArtifactId) : id.nameBytes.map Byte.toLower = id.nameBytes :=
  lowerKept fun _ mem => Hex.encodeDigits mem

section
variable {name : Bytes} {id : ArtifactId}

theorem lengthsEven (a : Algorithm) : a.hexLength % 2 = 0 := by
  cases a <;> rfl

theorem digitsAnyCase (same : name.map Byte.toLower = id.nameBytes) :
    name.length = id.algorithm.hexLength ∧ ∀ byte ∈ name, Byte.isHexDigit byte = true := by
  refine ⟨by rw [← lengthNameBytes, ← same, List.length_map], fun byte mem => ?_⟩
  exact (Byte.lowerHexDigits byte).2 (Hex.encodeDigits (same ▸ List.mem_map_of_mem mem))

theorem hashNameAnyCase (same : name.map Byte.toLower = id.nameBytes) :
    hashNameAlgorithm? name = some id.algorithm := by
  obtain ⟨length, digits⟩ := digitsAnyCase same
  rw [hashNameAlgorithm?, length, ofHexLength]
  exact if_pos (List.all_eq_true.mpr digits)

theorem hashNameOfId (id : ArtifactId) : hashNameAlgorithm? id.nameBytes = some id.algorithm :=
  hashNameAnyCase (lowerNameBytes id)

theorem ofHexAnyCase (same : name.map Byte.toLower = id.nameBytes) : ofHex name = .ok id := by
  obtain ⟨length, digits⟩ := digitsAnyCase same
  obtain ⟨raw, decoded⟩ := Hex.decodeDigits digits (by rw [length]; exact lengthsEven _) 0
  have digest : raw = id.digest := by
    have read := Hex.decodeFromEncode raw 0
    rw [Hex.decodedLower decoded, same, nameBytes, hex, Hex.bytesOfEncode,
      Hex.decodeFromEncode] at read
    exact (Except.ok.inj read).symm
  rw [ofHex, length, ofHexLength]
  simp only [Hex.decode, decoded, digest]
  exact ofDigestSelf id

theorem lowerOfHex (read : ofHex name = .ok id) : name.map Byte.toLower = id.nameBytes := by
  unfold ofHex at read
  split at read
  · cases read
  · split at read
    · rename_i raw decoded
      unfold ofDigest at read
      split at read
      · cases read
        rw [nameBytesOfRaw, Hex.decodedLower decoded]
      · cases read
    · cases read
    · cases read

theorem lengthHashName {a : Algorithm} (named : hashNameAlgorithm? name = some a) :
    name.length = a.hexLength ∧ ∀ byte ∈ name, Byte.isHexDigit byte = true := by
  unfold hashNameAlgorithm? at named
  split at named
  · rename_i found
    split at named
    · rename_i digits
      cases named
      have length := List.find?_some found
      exact ⟨(of_decide_eq_true length).symm, List.all_eq_true.mp digits⟩
    · cases named
  · cases named

theorem idAnyCase {a : Algorithm} (named : hashNameAlgorithm? name = some a) :
    ∃ id : ArtifactId, id.algorithm = a ∧ name.map Byte.toLower = id.nameBytes := by
  obtain ⟨length, digits⟩ := lengthHashName named
  obtain ⟨raw, decoded⟩ := Hex.decodeDigits digits (by rw [length]; exact lengthsEven a) 0
  have written := Hex.decodedLower decoded
  have sized : raw.length = a.digestLength := by
    have lengths := Hex.lengthEncode raw
    rw [Hex.bytesOfEncode, written, List.length_map, length, Algorithm.hexLength] at lengths
    omega
  exact ⟨ofRaw a raw sized, rfl, by rw [nameBytesOfRaw, written]⟩

theorem idOfHashName {a : Algorithm} (named : hashNameAlgorithm? name = some a)
    (lower : ∀ byte ∈ name, Byte.isLowerHexDigit byte = true) :
    ∃ id : ArtifactId, id.nameBytes = name := by
  obtain ⟨id, -, same⟩ := idAnyCase named
  exact ⟨id, same.symm.trans (lowerKept lower)⟩

end

theorem readJsonText (text : String) :
    ofJson? (Json.quote text) = (ofHex (Utf8.ofString text)).toOption := by
  rw [ofJson?, Json.readQuoted]
  rfl

theorem readJson (id : ArtifactId) : ofJson? id.json = some id := by
  have read : ofHex (Utf8.ofString id.hex) = .ok id := ofNameBytes id
  rw [json, readJsonText, read]
  rfl

theorem namesAgree :
    (∀ name a, hashNameAlgorithm? name = some a ↔ ∃ id, ofHex name = .ok id ∧ id.algorithm = a) ∧
    (∀ name id, ofHex name = .ok id ↔ Utf8.ofString id.hex = name.map Byte.toLower) ∧
    (∀ text, ofJson? (Json.quote text) = (ofHex (Utf8.ofString text)).toOption) ∧
    (∀ id, ofHex (Utf8.ofString id.hex) = .ok id ∧ ofDigest id.algorithm id.digest = .ok id ∧
      ofJson? id.json = some id ∧ id.slots = id.digest ++ List.replicate (32 - id.digest.length) 0) ∧
    (∀ x y : ArtifactId, x = y ↔ x.algorithm = y.algorithm ∧ x.digest = y.digest) ∧
    ∀ id content, (id.verifies content = true ↔ compute id.algorithm content = id) ∧
      (compute id.algorithm content = id ↔ id.algorithm.digest content = id.digest) := by
  refine ⟨fun name a => ⟨fun named => ?_, ?_⟩, fun name id => ⟨fun read => ?_, fun same => ?_⟩,
    readJsonText, fun id => ⟨ofNameBytes id, ofDigestSelf id, readJson id, slotsOfDigest id⟩,
    fun x y => ⟨?_, ?_⟩, fun id content => ⟨decide_eq_true_iff, computeIff id content⟩⟩
  · obtain ⟨id, algorithm, same⟩ := idAnyCase named
    exact ⟨id, ofHexAnyCase same, algorithm⟩
  · rintro ⟨id, read, rfl⟩
    exact hashNameAnyCase (lowerOfHex read)
  · exact (lowerOfHex read).symm
  · exact ofHexAnyCase same.symm
  · rintro rfl
    exact ⟨rfl, rfl⟩
  · rintro ⟨algorithm, digest⟩
    exact sameDigest algorithm digest

end ArtifactVault.ArtifactId
