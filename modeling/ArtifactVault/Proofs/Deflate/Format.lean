import ArtifactVault.Proofs.Deflate.Codes
import ArtifactVault.Proofs.Deflate.Tokens
import ArtifactVault.Proofs.Outcome

/-! The format of compressed streams, said without reading one: blocks of tokens, each spelled by the
words of a code and the extra bits of its spans. Whatever tells where a block begins, how its codes
are described and where it ends is part of the bits; nothing is said of what stands behind them. -/
namespace ArtifactVault.Deflate

/-- A copy may reach back to before the start of the output, where there are zeros. -/
inductive Token.Spelled (codes : Codes) : Token → Bits → Prop where
  | byte {symbol word b} (listed : (symbol, word) ∈ codes.lengths.words)
      (meant : meaning symbol = .byte b) : Spelled codes (.byte b) word
  | copy {symbol word lengths length place far distances distance}
      (listed : (symbol, word) ∈ codes.lengths.words) (meant : meaning symbol = .copy lengths)
      (long : lengths.Holds length) (placed : (place, far) ∈ codes.distances.words)
      (reaching : distanceSpans[place]? = some distances) (back : distances.Holds distance) :
      Spelled codes (.copy length distance)
        (word ++ (lengths.bits length ++ (far ++ distances.bits distance)))

inductive Spelling (codes : Codes) : List Token → Bits → Prop where
  | finish {symbol word} (listed : (symbol, word) ∈ codes.lengths.words)
      (meant : meaning symbol = .finish) : Spelling codes [] word
  | token {token tokens bits rest} (first : token.Spelled codes bits)
      (behind : Spelling codes tokens rest) : Spelling codes (token :: tokens) (bits ++ rest)

def repeated (symbol : Nat) (before : Array Nat) : Nat :=
  if symbol = 16 then before.getD (before.size - 1) 0 else 0

/-- The lengths of words one by one, the last one some times more, or some zeros, put behind those
before. -/
inductive Lengths (tree : CodeTree) : Array Nat → Array Nat → Bits → Prop where
  | done (lengths) : Lengths tree lengths lengths []
  | plain {symbol word before lengths rest} (listed : (symbol, word) ∈ tree.words)
      (small : symbol < 16) (behind : Lengths tree (before.push symbol) lengths rest) :
      Lengths tree before lengths (word ++ rest)
  | again {symbol word count before lengths rest} (listed : (symbol, word) ∈ tree.words)
      (large : 16 ≤ symbol) (follows : symbol = 16 → before.isEmpty = false)
      (times : (repeatSpan symbol).Holds count)
      (behind : Lengths tree (before ++ Array.replicate count (repeated symbol before)) lengths
        rest) :
      Lengths tree before lengths (word ++ ((repeatSpan symbol).bits count ++ rest))

def inOrder (given : List Nat) : List Nat :=
  (List.range 19).map fun symbol => ((descriptionOrder.zip given).lookup symbol).getD 0

inductive Description : Codes → Bits → Prop where
  | mk {codes tree lengthExtra distanceExtra given lengths spelled}
      (lengthCount : firstLength + lengthExtra ≤ 286) (distanceCount : 1 + distanceExtra ≤ 30)
      (few : 4 ≤ given.length ∧ given.length < 20) (small : ∀ n ∈ given, n < 8)
      (describes : CodeTree.complete? (inOrder given) = some tree)
      (spells : Lengths tree #[] lengths spelled)
      (size : lengths.size = firstLength + lengthExtra + (1 + distanceExtra))
      (lengthCode :
        CodeTree.usable? (lengths.toList.take (firstLength + lengthExtra)) = some codes.lengths)
      (distanceCode :
        CodeTree.usable? (lengths.toList.drop (firstLength + lengthExtra)) = some codes.distances) :
      Description codes (Bits.ofNat 5 lengthExtra ++ (Bits.ofNat 5 distanceExtra ++
        (Bits.ofNat 4 (given.length - 4) ++ (given.flatMap (Bits.ofNat 3) ++ spelled))))

/-- What follows the kind of a block, `offset` bits after the start of a byte. Stored bytes begin
with a byte of their own. -/
inductive Body (offset : Nat) : Nat → List Token → Bits → Prop where
  | stored {padding : Bits} {bytes : Bytes} (short : padding.length < 8)
      (aligned : (offset + padding.length) % 8 = 0) (fits : bytes.length ≤ 0xffff) :
      Body offset 0 (bytes.map .byte) (padding ++ (Bits.ofNat 16 bytes.length ++
        (Bits.ofNat 16 (0xffff - bytes.length) ++ Bits.ofBytes bytes)))
  | fixed {tokens bits} (spelled : Spelling .fixed tokens bits) : Body offset 1 tokens bits
  | described {codes tokens head bits} (description : Description codes head)
      (spelled : Spelling codes tokens bits) : Body offset 2 tokens (head ++ bits)

inductive Blocks : Nat → List Token → Bits → Prop where
  | last {offset kind tokens bits} (body : Body (offset + 3) kind tokens bits) :
      Blocks offset tokens (Bits.ofNat 1 1 ++ (Bits.ofNat 2 kind ++ bits))
  | further {offset kind tokens bits later rest} (body : Body (offset + 3) kind tokens bits)
      (behind : Blocks (offset + 3 + bits.length) later rest) :
      Blocks offset (tokens ++ later) (Bits.ofNat 1 0 ++ (Bits.ofNat 2 kind ++ (bits ++ rest)))

structure Parses {α : Type} (parse : Bits → Except Fault (α × Bits)) (format : α → Bits → Prop) :
    Prop where
  sound : ∀ {bits value rest}, parse bits = .ok (value, rest) →
    ∃ front, bits = front ++ rest ∧ format value front
  complete : ∀ {front value} (rest), format value front → parse (front ++ rest) = .ok (value, rest)

theorem fieldParses (width : Nat) :
    Parses (field width) fun n bits => n < 2 ^ width ∧ bits = Bits.ofNat width n where
  sound := by
    intro bits n rest read
    rw [field] at read
    split at read
    · rename_i found given
      cases read
      obtain ⟨small, split⟩ := Bits.fieldSplit given
      exact ⟨_, split, small, rfl⟩
    · cases read
  complete := by
    rintro _ n rest ⟨small, rfl⟩
    rw [field, Bits.fieldOfNat small]

theorem spanParses (span : Span) : Parses span.read fun n bits => span.Holds n ∧ bits = span.bits n where
  sound := by
    intro bits n rest read
    obtain ⟨⟨extra, more⟩, given, read⟩ := okBind read
    cases read
    obtain ⟨front, split, small, same⟩ := (fieldParses span.extraBits).sound given
    have value : span.base + extra - span.base = extra := Nat.add_sub_cancel_left ..
    refine ⟨front, split, ⟨Nat.le_add_right .., Nat.add_lt_add_left small _⟩, ?_⟩
    rw [Span.bits, value, same]
  complete := by
    rintro _ n rest ⟨holds, rfl⟩
    exact Span.readBits holds rest

theorem fieldsParse (width count : Nat) : Parses (fields width count) fun ns bits =>
    ns.length = count ∧ (∀ n ∈ ns, n < 2 ^ width) ∧ bits = ns.flatMap (Bits.ofNat width) := by
  induction count with
  | zero =>
    refine ⟨fun {bits ns rest} read => ?_, ?_⟩
    · cases read
      exact ⟨[], rfl, rfl, by simp, rfl⟩
    · rintro _ ns rest ⟨none, -, rfl⟩
      rw [List.eq_nil_of_length_eq_zero none]
      rfl
  | succ count ih =>
    refine ⟨fun {bits ns rest} read => ?_, ?_⟩
    · obtain ⟨⟨n, more⟩, first, read⟩ := okBind read
      obtain ⟨⟨later, after⟩, others, read⟩ := okBind read
      cases read
      obtain ⟨front, rfl, small, rfl⟩ := (fieldParses width).sound first
      obtain ⟨back, rfl, length, smalls, rfl⟩ := ih.sound others
      exact ⟨_, (List.append_assoc ..).symm, by rw [List.length_cons, length],
        List.forall_mem_cons.mpr ⟨small, smalls⟩, rfl⟩
    · rintro _ ns rest ⟨length, small, rfl⟩
      obtain ⟨n, later, rfl⟩ := List.exists_cons_of_length_eq_add_one length
      obtain ⟨first, others⟩ := List.forall_mem_cons.mp small
      rw [fields, List.flatMap_cons, List.append_assoc,
        (fieldParses width).complete _ ⟨first, rfl⟩]
      simp only [bind, Except.bind]
      rw [ih.complete rest ⟨Nat.succ.inj length, others, rfl⟩]
      rfl

end ArtifactVault.Deflate
