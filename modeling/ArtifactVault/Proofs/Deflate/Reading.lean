import ArtifactVault.Proofs.Deflate.Format

/-! The decoder reads the format: what it takes for compressed is in the format, and whatever is in
the format it reads to its end and no further. The rounds that are counted never run out, since every
token and every block takes a bit. -/
namespace ArtifactVault.Deflate

namespace CodeTree

def Filled (tree : CodeTree) : Prop := ∀ entry ∈ tree.words, entry.2 ≠ []

instance (tree : CodeTree) : Decidable tree.Filled :=
  inferInstanceAs (Decidable (∀ entry ∈ tree.words, entry.2 ≠ []))

theorem walkListed {tree : CodeTree} {bits rest : Bits} {symbol : Nat}
    (walked : tree.walk bits = .ok (symbol, rest)) (path : Bits) :
    ∃ below, bits = below ++ rest ∧ (symbol, path ++ below) ∈ wordsBelow path tree := by
  induction tree generalizing bits path with
  | dead => cases bits <;> cases walked
  | leaf found =>
    rw [walk] at walked
    cases walked
    exact ⟨[], rfl, by rw [List.append_nil]; exact List.mem_singleton.mpr rfl⟩
  | branch zero one zeroListed oneListed =>
    cases bits with
    | nil => cases walked
    | cons bit bits =>
      rw [walk] at walked
      cases bit with
      | false =>
        obtain ⟨below, rfl, listed⟩ := zeroListed walked (path ++ [false])
        rw [List.append_assoc] at listed
        exact ⟨false :: below, rfl, List.mem_append_left _ listed⟩
      | true =>
        obtain ⟨below, rfl, listed⟩ := oneListed walked (path ++ [true])
        rw [List.append_assoc] at listed
        exact ⟨true :: below, rfl, List.mem_append_right _ listed⟩

theorem readListed {tree : CodeTree} {bits rest : Bits} {symbol : Nat}
    (done : tree.read bits = .ok (symbol, rest)) :
    ∃ word, bits = word ++ rest ∧ (symbol, word) ∈ tree.words := by
  rw [read] at done
  split at done
  · cases done
  · exact walkListed done []

theorem readParses {tree : CodeTree} (filled : tree.Filled) :
    Parses tree.read fun symbol word => (symbol, word) ∈ tree.words where
  sound := readListed
  complete := by
    intro word symbol rest listed
    obtain ⟨below, same, walks⟩ := walkBelow listed
    rw [List.nil_append] at same
    have some : (word ++ rest).isEmpty = false :=
      List.isEmpty_eq_false_iff.mpr (List.append_ne_nil_of_left_ne_nil (filled _ listed) rest)
    rw [read, some, same]
    exact walks rest

def Rooted : CodeTree → Prop
  | leaf _ => False
  | _ => True

theorem Rooted.filled {tree : CodeTree} (rooted : tree.Rooted) : tree.Filled := by
  rintro ⟨symbol, word⟩ listed none
  cases tree with
  | dead => cases listed
  | leaf symbol => exact rooted
  | branch zero one =>
    rcases List.mem_append.mp listed with inZero | inOne
    · obtain ⟨below, same, -⟩ := walkBelow inZero
      cases none.symm.trans same
    · obtain ⟨below, same, -⟩ := walkBelow inOne
      cases none.symm.trans same

theorem rootedPairs : ∀ {trees : List CodeTree} {tree : CodeTree}, tree ∈ pairUp trees → tree.Rooted
  | [], _, mem => by cases mem
  | [_], _, mem => by
    cases List.mem_singleton.mp mem
    trivial
  | _ :: _ :: rest, _, mem => by
    rcases List.mem_cons.mp mem with rfl | later
    · trivial
    · exact rootedPairs later

theorem rootedOfLengths {lengths : List Nat} {tree : CodeTree}
    (made : ofLengths? lengths = some tree) : tree.Rooted := by
  rw [ofLengths?] at made
  split at made
  · cases made
    trivial
  · rename_i root paired
    cases made
    exact rootedPairs (by rw [paired]; exact List.mem_singleton.mpr rfl)
  · cases made

theorem rootedComplete {lengths : List Nat} {tree : CodeTree}
    (made : complete? lengths = some tree) : tree.Rooted :=
  rootedOfLengths (Option.eq_some_of_filter_eq_some made)

theorem rootedUsable {lengths : List Nat} {tree : CodeTree}
    (made : usable? lengths = some tree) : tree.Rooted := by
  obtain ⟨root, found, made⟩ := Option.bind_eq_some_iff.mp made
  have rooted := rootedOfLengths found
  split at made
  · cases made
    exact rooted
  · split at made
    · cases made
      cases root with
      | dead => trivial
      | leaf symbol => exact rooted
      | branch zero one => trivial
    · cases made

end CodeTree

structure Codes.Filled (codes : Codes) : Prop where
  lengths : codes.lengths.Filled
  distances : codes.distances.Filled

theorem filledFixed : Codes.fixed.Filled :=
  ⟨by decide +kernel, by decide +kernel⟩

theorem Description.filled {codes : Codes} {bits : Bits} (description : Description codes bits) :
    codes.Filled := by
  cases description with
  | mk _ _ _ _ _ _ _ lengthCode distanceCode =>
    exact ⟨(CodeTree.rootedUsable lengthCode).filled, (CodeTree.rootedUsable distanceCode).filled⟩

theorem orStopOk {α : Type} {output : Array UInt8} {outcome : Except Fault α} {value : α}
    (done : orStop output outcome = .ok value) : outcome = .ok value := by
  cases outcome with
  | ok found =>
    cases done
    rfl
  | error fault => cases done

section
variable {codes : Codes}

theorem copyFromSound {lengths : Span} {p q : Progress} (done : copyFrom codes lengths p = .ok q) :
    ∃ length place far distances distance, lengths.Holds length ∧
      (place, far) ∈ codes.distances.words ∧ distanceSpans[place]? = some distances ∧
      distances.Holds distance ∧
      p.bits = lengths.bits length ++ (far ++ distances.bits distance) ++ q.bits ∧
      q.output = copyBack distance length p.output := by
  obtain ⟨⟨length, afterLength⟩, gotLength, next⟩ := okBind done
  obtain ⟨⟨place, afterPlace⟩, gotPlace, next⟩ := okBind next
  simp only at next
  split at next
  · cases next
  · rename_i distances reaching
    obtain ⟨⟨distance, rest⟩, gotDistance, next⟩ := okBind next
    cases next
    obtain ⟨first, split, long, rfl⟩ := (spanParses lengths).sound (orStopOk gotLength)
    obtain ⟨far, rfl, placed⟩ := CodeTree.readListed (orStopOk gotPlace)
    obtain ⟨last, rfl, back, rfl⟩ := (spanParses distances).sound (orStopOk gotDistance)
    exact ⟨length, place, far, distances, distance, long, placed, reaching, back,
      by rw [split]; simp only [List.append_assoc], rfl⟩

theorem symbolsSound {rounds : Nat} {p q : Progress} (done : symbols codes rounds p = .ok q) :
    ∃ tokens front, p.bits = front ++ q.bits ∧ Spelling codes tokens front ∧
      q.output = expand tokens p.output := by
  induction rounds generalizing p with
  | zero => cases done
  | succ rounds ih =>
    rw [symbols] at done
    split at done
    · cases done
    · rename_i symbol bits read
      obtain ⟨word, split, listed⟩ := CodeTree.readListed read
      split at done
      · rename_i b meant
        obtain ⟨tokens, front, same, spelled, output⟩ := ih done
        simp only at same output
        exact ⟨.byte b :: tokens, word ++ front, by rw [split, same, List.append_assoc],
          .token (.byte listed meant) spelled, output⟩
      · rename_i meant
        cases done
        exact ⟨[], word, split, .finish listed meant, rfl⟩
      · rename_i lengths meant
        split at done
        · cases done
        · rename_i next copied
          obtain ⟨length, place, far, distances, distance, long, placed, reaching, back, between,
            copy⟩ := copyFromSound copied
          obtain ⟨tokens, front, same, spelled, output⟩ := ih done
          simp only at between copy
          refine ⟨.copy length distance :: tokens, _, ?_,
            .token (.copy listed meant long placed reaching back) spelled, ?_⟩
          · rw [split, between, same]
            simp only [List.append_assoc]
          · rw [output, copy]
            rfl
      · cases done

theorem spelledFilled (filled : codes.Filled) {token : Token} {bits : Bits}
    (spelled : token.Spelled codes bits) : 0 < bits.length := by
  cases spelled with
  | byte listed => exact List.length_pos_iff.mpr (filled.lengths _ listed)
  | copy listed =>
    rw [List.length_append]
    exact Nat.add_pos_left (List.length_pos_iff.mpr (filled.lengths _ listed)) _

theorem symbolsToken (filled : codes.Filled) {token : Token} {bits : Bits}
    (spelled : token.Spelled codes bits) (rounds : Nat) (output : Array UInt8) (rest : Bits) :
    symbols codes (rounds + 1) ⟨output, bits ++ rest⟩ =
      symbols codes rounds ⟨token.apply output, rest⟩ := by
  have words := CodeTree.readParses filled.lengths
  cases spelled with
  | byte listed meant =>
    simp only [symbols, words.complete rest listed, meant]
    rfl
  | @copy symbol word lengths length place far distances distance listed meant long placed reaching
      back =>
    have copied : copyFrom codes lengths
        ⟨output, lengths.bits length ++ (far ++ (distances.bits distance ++ rest))⟩ =
        .ok ⟨copyBack distance length output, rest⟩ := by
      have readLength := (spanParses lengths).complete (far ++ (distances.bits distance ++ rest))
        ⟨long, rfl⟩
      have readPlace := (CodeTree.readParses filled.distances).complete
        (distances.bits distance ++ rest) placed
      have readDistance := (spanParses distances).complete rest ⟨back, rfl⟩
      simp only [copyFrom, readLength, readPlace, orStop, bind, Except.bind, reaching, readDistance]
      rfl
    simp only [List.append_assoc, symbols, words.complete _ listed, meant, copied]
    rfl

theorem symbolsComplete (filled : codes.Filled) {tokens : List Token} {front : Bits}
    (spelled : Spelling codes tokens front) {rounds : Nat} (enough : front.length ≤ rounds)
    (output : Array UInt8) (rest : Bits) :
    symbols codes rounds ⟨output, front ++ rest⟩ = .ok ⟨expand tokens output, rest⟩ := by
  induction spelled generalizing rounds output with
  | @finish symbol word listed meant =>
    have some := List.length_pos_iff.mpr (filled.lengths _ listed)
    obtain ⟨rounds, rfl⟩ := Nat.exists_eq_add_one.mpr (Nat.lt_of_lt_of_le some enough)
    simp only [symbols, (CodeTree.readParses filled.lengths).complete rest listed, meant]
    rfl
  | token first behind ih =>
    have some := spelledFilled filled first
    rw [List.length_append] at enough
    obtain ⟨rounds, rfl⟩ := Nat.exists_eq_add_one.mpr (by omega : 0 < rounds)
    rw [List.append_assoc, symbolsToken filled first, ih (by omega)]
    rfl

end

theorem repeatSpanBase (symbol : Nat) : 3 ≤ (repeatSpan symbol).base := by
  unfold repeatSpan
  split
  · exact Nat.le_refl _
  · split <;> decide

theorem Lengths.grow {tree : CodeTree} {before lengths : Array Nat} {bits : Bits}
    (spelled : Lengths tree before lengths bits) : before.size ≤ lengths.size := by
  induction spelled with
  | done => exact Nat.le_refl _
  | plain _ _ _ ih =>
    rw [Array.size_push] at ih
    omega
  | again _ _ _ _ _ ih =>
    rw [Array.size_append] at ih
    omega

theorem wordLengthsSound {tree : CodeTree} {wanted rounds : Nat} {before lengths : Array Nat}
    {bits rest : Bits} (done : wordLengths tree wanted rounds before bits = .ok (lengths, rest)) :
    ∃ front, bits = front ++ rest ∧ Lengths tree before lengths front ∧ lengths.size = wanted := by
  induction rounds generalizing before bits with
  | zero => cases done
  | succ rounds ih =>
    rw [wordLengths] at done
    split at done
    · rename_i full
      cases done
      exact ⟨[], rfl, .done _, full⟩
    · split at done
      · cases done
      · split at done
        · cases done
        · rename_i symbol more read
          obtain ⟨word, rfl, listed⟩ := CodeTree.readListed read
          split at done
          · rename_i small
            obtain ⟨front, rfl, behind, full⟩ := ih done
            exact ⟨word ++ front, (List.append_assoc ..).symm, .plain listed small behind, full⟩
          · rename_i large
            split at done
            · cases done
            · rename_i follows
              split at done
              · cases done
              · rename_i count after counted
                obtain ⟨extra, rfl, times, rfl⟩ := (spanParses _).sound counted
                obtain ⟨front, rfl, behind, full⟩ := ih done
                refine ⟨word ++ ((repeatSpan symbol).bits count ++ front), ?_,
                  .again listed (Nat.le_of_not_lt large) (fun last => ?_) times behind, full⟩
                · simp only [List.append_assoc]
                · exact Bool.eq_false_iff.mpr fun none => follows ⟨last, none⟩

theorem wordLengthsComplete {tree : CodeTree} (filled : tree.Filled) {before lengths : Array Nat}
    {front : Bits} (spelled : Lengths tree before lengths front) {rounds : Nat}
    (enough : lengths.size < before.size + rounds) (rest : Bits) :
    wordLengths tree lengths.size rounds before (front ++ rest) = .ok (lengths, rest) := by
  induction spelled generalizing rounds with
  | done lengths =>
    obtain ⟨rounds, rfl⟩ := Nat.exists_eq_add_one.mpr (by omega : 0 < rounds)
    rw [wordLengths, if_pos rfl, List.nil_append]
  | @plain symbol word before lengths front listed small behind ih =>
    have grown := behind.grow
    rw [Array.size_push] at grown ih
    obtain ⟨rounds, rfl⟩ := Nat.exists_eq_add_one.mpr (by omega : 0 < rounds)
    rw [List.append_assoc, wordLengths, if_neg (by omega), if_neg (by omega)]
    simp only [(CodeTree.readParses filled).complete _ listed, if_pos small]
    exact ih (by omega)
  | @again symbol word count before lengths front listed large follows times behind ih =>
    have grown := behind.grow
    have least := Nat.le_trans (repeatSpanBase symbol) times.above
    rw [Array.size_append, Array.size_replicate] at grown ih
    obtain ⟨rounds, rfl⟩ := Nat.exists_eq_add_one.mpr (by omega : 0 < rounds)
    have counted := (spanParses (repeatSpan symbol)).complete (front ++ rest) ⟨times, rfl⟩
    have some : ¬ (symbol = 16 ∧ before.isEmpty = true) := fun first =>
      absurd (follows first.1) (by rw [first.2]; decide)
    rw [List.append_assoc, List.append_assoc, wordLengths, if_neg (by omega), if_neg (by omega)]
    simp only [(CodeTree.readParses filled).complete _ listed, if_neg (Nat.not_lt_of_le large),
      if_neg some, counted]
    exact ih (by omega)

theorem orCorruptOk {found : Option CodeTree} {tree : CodeTree} (done : orCorrupt found = .ok tree) :
    found = some tree := by
  cases found with
  | none => cases done
  | some root =>
    cases done
    rfl

theorem descriptionSound {codes : Codes} {bits rest : Bits}
    (read : description bits = .ok (codes, rest)) :
    ∃ front, bits = front ++ rest ∧ Description codes front := by
  obtain ⟨⟨lengthExtra, afterLengths⟩, gotLengths, read⟩ := okBind read
  obtain ⟨⟨distanceExtra, afterDistances⟩, gotDistances, read⟩ := okBind read
  obtain ⟨⟨orderExtra, afterOrder⟩, gotOrder, read⟩ := okBind read
  simp only at read
  split at read
  · cases read
  · rename_i few
    obtain ⟨⟨given, afterGiven⟩, gotGiven, read⟩ := okBind read
    obtain ⟨tree, described, read⟩ := okBind read
    obtain ⟨⟨lengths, afterWords⟩, gotWords, read⟩ := okBind read
    obtain ⟨distanceCode, gotDistanceCode, read⟩ := okBind read
    obtain ⟨lengthCode, gotLengthCode, read⟩ := okBind read
    cases read
    obtain ⟨_, rfl, -, rfl⟩ := (fieldParses 5).sound gotLengths
    obtain ⟨_, rfl, -, rfl⟩ := (fieldParses 5).sound gotDistances
    obtain ⟨_, rfl, smallOrder, rfl⟩ := (fieldParses 4).sound gotOrder
    obtain ⟨_, rfl, count, small, rfl⟩ := (fieldsParse 3 _).sound gotGiven
    obtain ⟨spelled, rfl, spells, size⟩ := wordLengthsSound gotWords
    have order : orderExtra = given.length - 4 := by omega
    refine ⟨_, ?_, .mk (by omega) (by omega) (by omega) small (orCorruptOk described) spells size
      (orCorruptOk gotLengthCode) (orCorruptOk gotDistanceCode)⟩
    rw [order]
    simp only [List.append_assoc]

theorem descriptionComplete {codes : Codes} {front : Bits} (description : Description codes front)
    (rest : Bits) : Deflate.description (front ++ rest) = .ok (codes, rest) := by
  cases description with
  | @mk tree lengthExtra distanceExtra given lengths spelled lengthCount distanceCount few small
      describes spells size lengthCode distanceCode =>
    have first : firstLength = 257 := rfl
    have sums : 4 + (given.length - 4) = given.length := by omega
    have readLengths := (fieldParses 5).complete (Bits.ofNat 5 distanceExtra ++
      (Bits.ofNat 4 (given.length - 4) ++ (given.flatMap (Bits.ofNat 3) ++ (spelled ++ rest))))
      ⟨(by omega : lengthExtra < 2 ^ 5), rfl⟩
    have readDistances := (fieldParses 5).complete
      (Bits.ofNat 4 (given.length - 4) ++ (given.flatMap (Bits.ofNat 3) ++ (spelled ++ rest)))
      ⟨(by omega : distanceExtra < 2 ^ 5), rfl⟩
    have readOrder := (fieldParses 4).complete (given.flatMap (Bits.ofNat 3) ++ (spelled ++ rest))
      ⟨(by omega : given.length - 4 < 2 ^ 4), rfl⟩
    have readGiven := (fieldsParse 3 given.length).complete (spelled ++ rest) ⟨rfl, small, rfl⟩
    have readWords := wordLengthsComplete (CodeTree.rootedComplete describes).filled spells
      (by omega : lengths.size < #[].size + (lengths.size + 2)) rest
    rw [inOrder] at describes
    rw [size] at readWords
    simp only [Deflate.description, List.append_assoc, readLengths, readDistances, readOrder, bind,
      Except.bind, sums, readGiven, describes, orCorrupt, readWords, lengthCode, distanceCode]
    rw [if_neg (by omega)]
    rfl

theorem copyStoredSound {count : Nat} {p q : Progress} (done : copyStored count p = .ok q) :
    ∃ bytes : Bytes, bytes.length = count ∧ p.bits = Bits.ofBytes bytes ++ q.bits ∧
      q.output = expand (bytes.map .byte) p.output := by
  induction count generalizing p with
  | zero =>
    cases done
    exact ⟨[], rfl, rfl, rfl⟩
  | succ count ih =>
    rw [copyStored] at done
    split at done
    · cases done
    · rename_i byte rest read
      obtain ⟨_, same, small, rfl⟩ := (fieldParses 8).sound read
      obtain ⟨bytes, length, split, output⟩ := ih done
      have value : (UInt8.ofNat byte).toNat = byte := by
        rw [UInt8.toNat_ofNat']
        exact Nat.mod_eq_of_lt small
      refine ⟨UInt8.ofNat byte :: bytes, by rw [List.length_cons, length], ?_, output⟩
      simp only at split
      rw [same, split, Bits.ofBytesCons, value, List.append_assoc]

theorem copyStoredComplete (bytes : Bytes) (output : Array UInt8) (rest : Bits) :
    copyStored bytes.length ⟨output, Bits.ofBytes bytes ++ rest⟩ =
      .ok ⟨expand (bytes.map .byte) output, rest⟩ := by
  induction bytes generalizing output with
  | nil => rfl
  | cons byte bytes ih =>
    have read := (fieldParses 8).complete (Bits.ofBytes bytes ++ rest) ⟨byte.toNat_lt, rfl⟩
    rw [Bits.ofBytesCons, List.append_assoc, List.length_cons, copyStored, read]
    simp only [UInt8.ofNat_toNat]
    exact ih (output.push byte)

theorem storedSound {p q : Progress} (done : stored p = .ok q) :
    ∃ bytes : Bytes, bytes.length ≤ 0xffff ∧ q.output = expand (bytes.map .byte) p.output ∧
      Bits.align p.bits = Bits.ofNat 16 bytes.length ++
        (Bits.ofNat 16 (0xffff - bytes.length) ++ (Bits.ofBytes bytes ++ q.bits)) := by
  obtain ⟨⟨count, afterCount⟩, gotCount, done⟩ := okBind done
  obtain ⟨⟨complement, afterComplement⟩, gotComplement, done⟩ := okBind done
  simp only at gotComplement done
  split at done
  · cases done
  · obtain ⟨first, aligned, -, firstCount⟩ := (fieldParses 16).sound (orStopOk gotCount)
    obtain ⟨second, after, -, secondCount⟩ := (fieldParses 16).sound (orStopOk gotComplement)
    obtain ⟨bytes, length, held, output⟩ := copyStoredSound done
    have complementary : complement = 0xffff - bytes.length := by omega
    simp only at held
    refine ⟨bytes, by omega, output, ?_⟩
    rw [aligned, firstCount, after, secondCount, held, complementary, length]

theorem bodySound {offset kind rounds : Nat} {p q : Progress}
    (whole : (offset + p.bits.length) % 8 = 0) (done : block kind rounds p = .ok q) :
    ∃ tokens front, p.bits = front ++ q.bits ∧ Body offset kind tokens front ∧
      q.output = expand tokens p.output := by
  unfold block at done
  split at done
  · obtain ⟨bytes, fits, output, aligned⟩ := storedSound done
    obtain ⟨padding, length, begun⟩ := Bits.alignSplit p.bits
    rw [aligned] at begun
    refine ⟨_, padding ++ _, ?_, .stored (by omega) (by omega) fits, output⟩
    simp only [List.append_assoc]
    exact begun
  · obtain ⟨tokens, front, same, spelled, output⟩ := symbolsSound done
    exact ⟨tokens, front, same, .fixed spelled, output⟩
  · obtain ⟨⟨codes, more⟩, described, done⟩ := okBind done
    obtain ⟨head, split, description⟩ := descriptionSound (orStopOk described)
    obtain ⟨tokens, front, rfl, spelled, output⟩ := symbolsSound done
    exact ⟨tokens, head ++ front, by rw [split, List.append_assoc],
      .described description spelled, output⟩
  · cases done

theorem bodyComplete {offset kind : Nat} {tokens : List Token} {front : Bits}
    (body : Body offset kind tokens front) {rest : Bits}
    (whole : (offset + (front ++ rest).length) % 8 = 0) {rounds : Nat}
    (enough : front.length ≤ rounds) (output : Array UInt8) :
    block kind rounds ⟨output, front ++ rest⟩ = .ok ⟨expand tokens output, rest⟩ := by
  cases body with
  | @stored padding bytes short aligned fits =>
    have begun : Bits.align (padding ++ (Bits.ofNat 16 bytes.length ++
        (Bits.ofNat 16 (0xffff - bytes.length) ++ (Bits.ofBytes bytes ++ rest)))) =
        Bits.ofNat 16 bytes.length ++ (Bits.ofNat 16 (0xffff - bytes.length) ++
          (Bits.ofBytes bytes ++ rest)) := by
      simp only [List.append_assoc] at whole
      generalize Bits.ofNat 16 bytes.length ++ (Bits.ofNat 16 (0xffff - bytes.length) ++
          (Bits.ofBytes bytes ++ rest)) = behind at whole ⊢
      have same : (padding ++ behind).length % 8 = padding.length := by
        rw [List.length_append] at whole ⊢
        omega
      rw [Bits.align, same, List.drop_left]
    have readCount := (fieldParses 16).complete (Bits.ofNat 16 (0xffff - bytes.length) ++
      (Bits.ofBytes bytes ++ rest)) ⟨(by omega : bytes.length < 2 ^ 16), rfl⟩
    have readComplement := (fieldParses 16).complete (Bits.ofBytes bytes ++ rest)
      ⟨(by omega : 0xffff - bytes.length < 2 ^ 16), rfl⟩
    simp only [block, stored, List.append_assoc, begun, readCount, orStop, bind, Except.bind,
      readComplement]
    rw [if_neg (by omega)]
    exact copyStoredComplete bytes output rest
  | fixed spelled => exact symbolsComplete filledFixed spelled enough output rest
  | described description spelled =>
    rw [List.length_append] at enough
    simp only [block, List.append_assoc, descriptionComplete description, orStop, bind, Except.bind]
    exact symbolsComplete description.filled spelled (by omega) output rest

theorem Body.kindSmall {offset kind : Nat} {tokens : List Token} {bits : Bits}
    (body : Body offset kind tokens bits) : kind < 2 ^ 2 := by
  cases body <;> decide

theorem blocksSound {offset rounds : Nat} {p q : Progress}
    (whole : (offset + p.bits.length) % 8 = 0) (done : blocks rounds p = .ok q) :
    ∃ tokens front, p.bits = front ++ q.bits ∧ Blocks offset tokens front ∧
      q.output = expand tokens p.output := by
  induction rounds generalizing offset p with
  | zero => cases done
  | succ rounds ih =>
    rw [blocks] at done
    split at done
    · cases done
    · rename_i last afterLast gotLast
      split at done
      · cases done
      · rename_i kind afterKind gotKind
        split at done
        · cases done
        · rename_i next ended
          obtain ⟨_, split, smallLast, rfl⟩ := (fieldParses 1).sound gotLast
          obtain ⟨_, rfl, -, rfl⟩ := (fieldParses 2).sound gotKind
          have header : p.bits.length = 3 + afterKind.length := by
            rw [split, List.length_append, List.length_append, Bits.lengthOfNat, Bits.lengthOfNat]
            omega
          obtain ⟨tokens, front, rfl, body, output⟩ :=
            @bodySound (offset + 3) _ _ _ _ (by simp only; omega) ended
          split at done
          · rename_i final
            cases done
            refine ⟨tokens, _, ?_, .last body, output⟩
            rw [split, final]
            simp only [List.append_assoc]
          · rename_i more
            have first : last = 0 := by omega
            rw [List.length_append] at header
            obtain ⟨later, rest, same, behind, after⟩ :=
              @ih (offset + 3 + front.length) _ (by omega) done
            refine ⟨tokens ++ later, _, ?_, .further body behind, ?_⟩
            · rw [split, first, same]
              simp only [List.append_assoc]
            · rw [after, output, expand, expand, expand, List.foldl_append]

theorem blocksComplete {offset : Nat} {tokens : List Token} {front : Bits}
    (format : Blocks offset tokens front) {rest : Bits}
    (whole : (offset + (front ++ rest).length) % 8 = 0) {rounds : Nat}
    (enough : front.length ≤ rounds) (output : Array UInt8) :
    blocks rounds ⟨output, front ++ rest⟩ = .ok ⟨expand tokens output, rest⟩ := by
  induction format generalizing rounds output with
  | @last offset kind tokens bits body =>
    have readLast := (fieldParses 1).complete (Bits.ofNat 2 kind ++ (bits ++ rest))
      ⟨(by decide : 1 < 2 ^ 1), rfl⟩
    have readKind := (fieldParses 2).complete (bits ++ rest) ⟨body.kindSmall, rfl⟩
    simp only [List.append_assoc, List.length_append, Bits.lengthOfNat] at whole enough
    obtain ⟨rounds, rfl⟩ := Nat.exists_eq_add_one.mpr (by omega : 0 < rounds)
    have ended := @bodyComplete _ _ _ _ body rest (by rw [List.length_append]; omega) (rounds + 1)
      (by omega) output
    simp only [List.append_assoc, blocks, readLast, readKind, ended, if_true]
  | @further offset kind tokens bits later more body behind ih =>
    have readLast := (fieldParses 1).complete (Bits.ofNat 2 kind ++ (bits ++ (more ++ rest)))
      ⟨(by decide : 0 < 2 ^ 1), rfl⟩
    have readKind := (fieldParses 2).complete (bits ++ (more ++ rest)) ⟨body.kindSmall, rfl⟩
    simp only [List.append_assoc, List.length_append, Bits.lengthOfNat] at whole enough
    obtain ⟨rounds, rfl⟩ := Nat.exists_eq_add_one.mpr (by omega : 0 < rounds)
    have ended := @bodyComplete _ _ _ _ body (more ++ rest)
      (by rw [List.length_append, List.length_append]; omega) (rounds + 1) (by omega) output
    simp only [List.append_assoc, blocks, readLast, readKind, ended]
    rw [if_neg (by decide), ih (by rw [List.length_append]; omega) (by omega), expand, expand,
      expand, List.foldl_append]

theorem decodeIff {bits rest : Bits} (whole : bits.length % 8 = 0) (output : Array UInt8) :
    decode bits = .ok ⟨output, rest⟩ ↔
      ∃ tokens front, bits = front ++ rest ∧ Blocks 0 tokens front ∧ output = expand tokens #[] := by
  constructor
  · intro done
    exact blocksSound (by rw [Nat.zero_add]; exact whole) done
  · rintro ⟨tokens, front, rfl, format, rfl⟩
    refine blocksComplete format (by rw [Nat.zero_add]; exact whole) ?_ #[]
    rw [List.length_append]
    omega

theorem blocksEnd {first second rest behind : Bits} {tokens others : List Token}
    (whole : (first ++ rest).length % 8 = 0) (same : first ++ rest = second ++ behind)
    (one : Blocks 0 tokens first) (other : Blocks 0 others second) : rest = behind := by
  have read := (decodeIff whole _).mpr ⟨tokens, first, rfl, one, rfl⟩
  have again := (decodeIff whole _).mpr ⟨others, second, same, other, rfl⟩
  exact congrArg Progress.bits (Except.ok.inj (read.symm.trans again))

end ArtifactVault.Deflate
