import ArtifactVault.Zlib
import ArtifactVault.Proofs.Deflate.RoundTrip

/-! What a framed stream is, and that the reader takes for complete just what begins with one. The
compressor that comes with the library is lawful: its streams read back as what was written, sum and
all. -/
namespace ArtifactVault.Zlib

theorem lengthWord (n : Nat) : (word n).length = 4 := rfl

theorem ofWordWord {n : Nat} (small : n < UInt32.size) :
    ofWord (UInt8.ofNat (n / 16777216)) (UInt8.ofNat (n / 65536)) (UInt8.ofNat (n / 256))
      (UInt8.ofNat n) = n := by
  rw [UInt32.size] at small
  simp only [ofWord, UInt8.toNat_ofNat']
  omega

theorem sumsSmall (bytes : Bytes) {sums : Nat × Nat} (low : sums.1 < 65521) (high : sums.2 < 65521) :
    (bytes.foldl addByte sums).1 < 65521 ∧ (bytes.foldl addByte sums).2 < 65521 := by
  induction bytes generalizing sums with
  | nil => exact ⟨low, high⟩
  | cons byte bytes ih => exact ih (Nat.mod_lt _ (by decide)) (Nat.mod_lt _ (by decide))

theorem adler32Small (bytes : Bytes) : adler32 bytes < UInt32.size := by
  obtain ⟨low, high⟩ := @sumsSmall bytes (1, 0) (by decide) (by decide)
  simp only [adler32, UInt32.size]
  omega

theorem wordOfWord (b0 b1 b2 b3 : UInt8) : word (ofWord b0 b1 b2 b3) = [b0, b1, b2, b3] := by
  have below (byte : UInt8) : byte.toNat < 256 := byte.toNat_lt
  have first := below b0
  have second := below b1
  have third := below b2
  have fourth := below b3
  simp only [word, ofWord, List.cons.injEq, ← UInt8.toNat_inj, UInt8.toNat_ofNat', and_true]
  omega

inductive Stream : Bytes → Bytes → Prop where
  | mk {method flags : UInt8} {packed content : Bytes} {bits padding : Bits}
      {tokens : List Deflate.Token} (valid : validHeader method flags = true)
      (blocks : Deflate.Blocks 0 tokens bits) (short : padding.length < 8)
      (packs : Bits.ofBytes packed = bits ++ padding)
      (spells : Deflate.expand tokens #[] = content.toArray) :
      Stream (method :: flags :: (packed ++ word (adler32 content))) content

theorem Stream.filled {stream content : Bytes} (whole : Stream stream content) :
    0 < stream.length := by
  cases whole
  exact Nat.succ_pos _

theorem fieldsOfBytes (b0 b1 b2 b3 : UInt8) (rest : Bits) :
    Deflate.fields 8 4 (Bits.ofBytes [b0, b1, b2, b3] ++ rest) =
      .ok ([b0.toNat, b1.toNat, b2.toNat, b3.toNat], rest) := by
  have small : ∀ n ∈ [b0.toNat, b1.toNat, b2.toNat, b3.toNat], n < 2 ^ 8 := by
    simp only [List.forall_mem_cons]
    exact ⟨b0.toNat_lt, b1.toNat_lt, b2.toNat_lt, b3.toNat_lt, nofun⟩
  exact (Deflate.fieldsParse 8 4).complete rest ⟨rfl, small, rfl⟩

theorem checkSumOfWord (content trailing : Bytes) {padding : Bits} (short : padding.length < 8) :
    checkSum content (padding ++ Bits.ofBytes (word (adler32 content) ++ trailing)) =
      .complete content := by
  have value := ofWordWord (adler32Small content)
  rw [ofWord] at value
  unfold checkSum
  rw [Bits.alignBehind short, Bits.ofBytesAppend, word, fieldsOfBytes]
  simp only [value, if_true]

theorem checkSumSound {made content : Bytes} {bits : Bits}
    (checked : checkSum made bits = .complete content) :
    content = made ∧ ∃ b0 b1 b2 b3 rest,
      Bits.align bits = Bits.ofBytes [b0, b1, b2, b3] ++ rest ∧ ofWord b0 b1 b2 b3 = adler32 made := by
  unfold checkSum at checked
  split at checked
  · rename_i n0 n1 n2 n3 rest read
    split at checked
    · rename_i sum
      cases checked
      obtain ⟨front, split, -, small, rfl⟩ := (Deflate.fieldsParse 8 4).sound read
      simp only [List.forall_mem_cons] at small
      have value {n : Nat} (below : n < 2 ^ 8) : (UInt8.ofNat n).toNat = n := by
        rw [UInt8.toNat_ofNat']
        exact Nat.mod_eq_of_lt below
      obtain ⟨first, second, third, fourth, -⟩ := small
      refine ⟨rfl, .ofNat n0, .ofNat n1, .ofNat n2, .ofNat n3, rest, ?_, ?_⟩
      · simp only [split, Bits.ofBytes, List.flatMap_cons, value first, value second, value third,
          value fourth]
        rfl
      · rw [ofWord, value first, value second, value third, value fourth]
        exact sum
    · cases checked
  · cases checked

def Begins (framed content : Bytes) : Prop :=
  ∃ stream trailing, framed = stream ++ trailing ∧ Stream stream content

theorem beginsOfReading {framed content : Bytes} (read : decode framed = .complete content) :
    Begins framed content := by
  unfold decode at read
  split at read
  · rename_i method flags rest
    split at read
    · rename_i valid
      split at read
      · rename_i p decoded
        have whole := Bits.wholeBytes rest
        obtain ⟨tokens, bits, split, blocks, spells⟩ :=
          (Deflate.decodeIff whole p.output).mp decoded
        obtain ⟨rfl, b0, b1, b2, b3, after, aligned, sum⟩ := checkSumSound read
        obtain ⟨padding, length, begun⟩ := Bits.alignSplit p.bits
        rw [split, List.length_append] at whole
        rw [begun, aligned, ← List.append_assoc] at split
        obtain ⟨packed, second, rfl, packs, behind⟩ :=
          Bits.ofBytesSplit split (by rw [List.length_append]; omega)
        obtain ⟨summed, trailing, rfl, same, -⟩ := Bits.ofBytesSplit behind (Bits.wholeBytes _)
        have word := wordOfWord b0 b1 b2 b3
        rw [sum, ← Bits.ofBytesInjective same] at word
        refine ⟨method :: flags :: (packed ++ summed), trailing, ?_, ?_⟩
        · simp only [List.cons_append, List.append_assoc]
        · rw [← word]
          exact .mk valid blocks (by omega) packs (by rw [← spells])
      · cases read
      · cases read
    · cases read
  · cases read

theorem readingOfStream {stream content : Bytes} (whole : Stream stream content)
    (trailing : Bytes) : decode (stream ++ trailing) = .complete content := by
  cases whole with
  | @mk method flags packed content bits padding tokens valid blocks short packs spells =>
    have layout : Bits.ofBytes (packed ++ (word (adler32 content) ++ trailing)) =
        bits ++ (padding ++ Bits.ofBytes (word (adler32 content) ++ trailing)) := by
      rw [Bits.ofBytesAppend, packs, List.append_assoc]
    have read := (Deflate.decodeIff (Bits.wholeBytes _) _).mpr ⟨tokens, bits, layout, blocks, rfl⟩
    rw [List.cons_append, List.cons_append, List.append_assoc, decode, if_pos valid, read]
    simp only [spells]
    exact checkSumOfWord content trailing short

theorem decodeIff {framed content : Bytes} :
    decode framed = .complete content ↔ Begins framed content := by
  constructor
  · exact beginsOfReading
  · rintro ⟨stream, trailing, rfl, whole⟩
    exact readingOfStream whole trailing

theorem beginsOnce {framed first second : Bytes} (one : Begins framed first)
    (other : Begins framed second) : first = second :=
  Reading.complete.inj ((decodeIff.mpr one).symm.trans (decodeIff.mpr other))

theorem streamEnds {stream more first second : Bytes} (one : Stream stream first)
    (other : Stream (stream ++ more) second) : more = [] := by
  generalize longer : stream ++ more = whole at other
  cases one with
  | @mk _ _ packed _ bits padding _ _ blocks short packs =>
    cases other with
    | @mk _ _ packed' _ bits' padding' _ _ blocks' short' packs' =>
      simp only [List.cons_append, List.cons.injEq, List.append_assoc] at longer
      have same := congrArg Bits.ofBytes longer.2.2
      have whole := Bits.wholeBytes (packed ++ (word (adler32 first) ++ more))
      rw [Bits.ofBytesAppend, packs, List.append_assoc] at same whole
      rw [Bits.ofBytesAppend packed', packs', List.append_assoc] at same
      have behind := Deflate.blocksEnd whole same blocks blocks'
      -- What follows the blocks is padding of less than a byte and whole bytes, so both paddings
      -- are of one length and both remainders of another.
      have lengths := congrArg List.length behind
      simp only [List.length_append, Bits.lengthOfBytes, lengthWord] at lengths
      exact List.eq_nil_of_length_eq_zero (by omega)

def Truncated (framed : Bytes) : Prop :=
  ∃ more content, more ≠ [] ∧ Stream (framed ++ more) content

theorem Truncated.notBegun {framed : Bytes} (truncated : Truncated framed) (content : Bytes) :
    ¬ Begins framed content := by
  obtain ⟨more, whole, some, longer⟩ := truncated
  rintro ⟨stream, trailing, rfl, ends⟩
  rw [List.append_assoc] at longer
  exact some (List.append_eq_nil_iff.mp (streamEnds ends longer)).2

theorem encodeStream (bytes : Bytes) : Stream (encode bytes) bytes := by
  obtain ⟨padding, short, packed⟩ := Bits.ofBytesPack (Deflate.encode bytes)
  obtain ⟨tokens, blocks, spells⟩ := Deflate.encodeFormat bytes
  have layout : encode bytes = 0x78 :: 0xda ::
      (Bits.pack (Deflate.encode bytes) ++ word (adler32 bytes)) := rfl
  rw [layout]
  exact .mk (by decide) blocks (by rw [List.length_replicate]; exact short) packed spells

theorem decodeEncode (bytes : Bytes) : decode (encode bytes) = .complete bytes :=
  decodeIff.mpr ⟨encode bytes, [], (List.append_nil _).symm, encodeStream bytes⟩

theorem lengthEncode (bytes : Bytes) :
    (encode bytes).length = 2 + (Bits.pack (Deflate.encode bytes)).length + 4 := by
  rw [encode, List.length_append, List.length_append, lengthWord]
  rfl

theorem encodeSingle (bytes : Bytes) : Encoder.encode [bytes] = encode bytes :=
  congrArg encode List.flatten_singleton

instance : LawfulEncoder where
  decode_encode parts := decodeEncode parts.flatten

end ArtifactVault.Zlib
