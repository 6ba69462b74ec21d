import ArtifactVault.Proofs.Envelope

/-! Which envelopes are accepted: the short ones, as nothing, and those in which a whole stream of no
more than the declared length follows a header below the ceiling. A reader of the stream hands out its
content in pieces of any size and is asked for one byte more than is declared. When that much comes
the stream goes on too long; when less does the reader was asked again and has found the end, behind
the sum, or a fault. -/
namespace ArtifactVault.Envelope

/-- The content of an envelope, in the format as the reader takes it: a copy may reach back to before
the start of the output, where there are zeros, and in a code with no more than one word a dead end
that lies more than ten bits down is a word of symbol 0. -/
inductive Encloses : Bytes → Bytes → Prop where
  | nothing {envelope : Bytes} (short : envelope.length ≤ headerLength) : Encloses envelope []
  | stream {b0 b1 b2 b3 : UInt8} {stream trailing content : Bytes}
      (below : Zlib.ofWord b0 b1 b2 b3 + 1 < sizeCeiling) (whole : Zlib.Stream stream content)
      (fits : content.length ≤ Zlib.ofWord b0 b1 b2 b3) :
      Encloses (b0 :: b1 :: b2 :: b3 :: (stream ++ trailing)) content

structure Delivery where
  pieces : List Bytes
  ending : Except Deflate.Fault Unit

def readUpTo (ending : Except Deflate.Fault Unit) : Nat → List Bytes → Except Deflate.Fault Bytes
  | 0, _ => .ok []
  | _ + 1, [] => ending.map fun _ => []
  | limit + 1, piece :: pieces => do
    let taken := piece.take (limit + 1)
    return taken ++ (← readUpTo ending (limit + 1 - taken.length) pieces)

def inflate (delivery : Delivery) (declared : Nat) : Except Fault Bytes :=
  match readUpTo delivery.ending (declared + 1) delivery.pieces with
  | .error fault => .error (.corrupt fault)
  | .ok bytes => if declared < bytes.length then .error (.longerThanDeclared declared) else .ok bytes

def unwrapBy (read : Nat → Except Fault Bytes) (envelope : Bytes) : Except Fault Bytes :=
  if envelope.length ≤ headerLength then .ok []
  else
    let declared := (declaredLength? envelope).getD 0
    if sizeCeiling ≤ declared + 1 then .error (.declaredTooLarge declared) else read declared

theorem unwrapBytesBy (envelope : Bytes) :
    unwrapBytes envelope = unwrapBy (contentOf · (envelope.drop headerLength)) envelope := rfl

/-- A reader that hands out the content of a whole stream in order and comes to its end, and that ends
in a fault on everything else. -/
structure Delivery.KeepsTo (delivery : Delivery) (framed : Bytes) : Prop where
  whole : ∀ content, Zlib.Begins framed content →
    delivery.pieces.flatten = content ∧ delivery.ending = .ok ()
  faulty : (∀ content, ¬ Zlib.Begins framed content) → ∃ fault, delivery.ending = .error fault

section
variable (ending : Except Deflate.Fault Unit)

theorem readUpToFull {limit : Nat} {pieces : List Bytes} (long : limit ≤ pieces.flatten.length) :
    readUpTo ending limit pieces = .ok (pieces.flatten.take limit) := by
  fun_induction readUpTo ending limit pieces with
  | case1 => rw [List.take_zero]
  | case2 => cases long
  | case3 limit piece pieces taken ih =>
    have size : taken.length = min (limit + 1) piece.length := List.length_take
    have left : limit + 1 - piece.length = limit + 1 - taken.length := by omega
    rw [List.flatten_cons, List.length_append] at long
    rw [ih (by omega), List.flatten_cons, List.take_append, left]
    rfl

theorem readUpToShort {limit : Nat} {pieces : List Bytes} (short : pieces.flatten.length < limit) :
    readUpTo ending limit pieces = ending.map fun _ => pieces.flatten := by
  fun_induction readUpTo ending limit pieces with
  | case1 => cases short
  | case2 => rfl
  | case3 limit piece pieces taken ih =>
    rw [List.flatten_cons, List.length_append] at short
    have all : taken = piece := List.take_of_length_le (by omega)
    rw [all] at ih
    rw [all, ih (by omega), List.flatten_cons]
    cases ending with
    | error fault => rfl
    | ok done => rfl

end

def Accepts (read : Nat → Except Fault Bytes) (framed : Bytes) : Prop :=
  ∀ declared content, read declared = .ok content ↔
    Zlib.Begins framed content ∧ content.length ≤ declared

theorem contentOfAccepts (framed : Bytes) : Accepts (contentOf · framed) framed := by
  intro declared content
  simp only [← Zlib.decodeIff]
  constructor
  · intro accepted
    unfold contentOf at accepted
    split at accepted
    · rename_i made whole
      split at accepted
      · cases accepted
      · rename_i fits
        cases accepted
        exact ⟨whole, Nat.le_of_not_lt fits⟩
    · split at accepted <;> cases accepted
    · split at accepted <;> cases accepted
  · rintro ⟨whole, fits⟩
    rw [contentOf, whole]
    exact if_neg (Nat.not_lt_of_le fits)

theorem inflateAccepts {delivery : Delivery} {framed : Bytes} (keeps : delivery.KeepsTo framed) :
    Accepts (inflate delivery) framed := by
  intro declared content
  rw [inflate]
  by_cases long : declared + 1 ≤ delivery.pieces.flatten.length
  · have more : declared < (delivery.pieces.flatten.take (declared + 1)).length := by
      rw [List.length_take]
      omega
    rw [readUpToFull delivery.ending long]
    simp only [if_pos more]
    refine ⟨nofun, ?_⟩
    rintro ⟨begins, fits⟩
    rw [← (keeps.whole content begins).1] at fits
    exact absurd fits (Nat.not_le_of_lt long)
  · rw [readUpToShort delivery.ending (Nat.lt_of_not_le long)]
    cases ended : delivery.ending with
    | error fault =>
      refine ⟨nofun, fun accepted => ?_⟩
      have whole := (keeps.whole content accepted.1).2
      rw [ended] at whole
      cases whole
    | ok done =>
      have short : ¬ declared < delivery.pieces.flatten.length := by omega
      simp only [Except.map, if_neg short]
      refine ⟨fun same => ?_, fun accepted => congrArg _ (keeps.whole content accepted.1).1⟩
      cases same
      have begun : ∃ content, Zlib.Begins framed content := by
        by_contra refused
        obtain ⟨fault, failed⟩ := keeps.faulty (not_exists.mp refused)
        rw [ended] at failed
        cases failed
      obtain ⟨made, begins⟩ := begun
      rw [(keeps.whole made begins).1] at short ⊢
      exact ⟨begins, Nat.le_of_not_lt short⟩

theorem longEnvelope {envelope : Bytes} (long : ¬ envelope.length ≤ headerLength) :
    ∃ b0 b1 b2 b3 framed, envelope = b0 :: b1 :: b2 :: b3 :: framed ∧ 0 < framed.length := by
  rw [headerLength] at long
  match envelope with
  | b0 :: b1 :: b2 :: b3 :: framed =>
    simp only [List.length_cons] at long
    exact ⟨b0, b1, b2, b3, framed, rfl, by omega⟩
  | [] | [_] | [_, _] | [_, _, _] => exact absurd (by simp) long

section
variable {read : Nat → Except Fault Bytes} {envelope : Bytes}

theorem unwrapByIff (accepts : Accepts read (envelope.drop headerLength)) (content : Bytes) :
    unwrapBy read envelope = .ok content ↔ Encloses envelope content := by
  by_cases short : envelope.length ≤ headerLength
  · rw [unwrapBy, if_pos short]
    refine ⟨fun same => ?_, fun encloses => ?_⟩
    · cases same
      exact .nothing short
    · cases encloses with
      | nothing => rfl
      | stream below whole =>
        have filled := whole.filled
        simp only [List.length_cons, List.length_append, headerLength] at short
        omega
  · obtain ⟨b0, b1, b2, b3, framed, rfl, some⟩ := longEnvelope short
    have declared : declaredLength? (b0 :: b1 :: b2 :: b3 :: framed) =
        Option.some (Zlib.ofWord b0 b1 b2 b3) := rfl
    rw [unwrapBy, if_neg short, declared, Option.getD_some]
    by_cases large : sizeCeiling ≤ Zlib.ofWord b0 b1 b2 b3 + 1
    · rw [if_pos large]
      refine ⟨nofun, fun encloses => ?_⟩
      cases encloses with
      | nothing short => exact absurd short ‹_›
      | stream below => exact absurd below (Nat.not_lt_of_le large)
    · rw [if_neg large, accepts]
      constructor
      · rintro ⟨⟨stream, trailing, rfl, whole⟩, fits⟩
        exact .stream (Nat.lt_of_not_le large) whole fits
      · intro encloses
        cases encloses with
        | nothing short => exact absurd short ‹_›
        | stream below whole fits => exact ⟨⟨_, _, rfl, whole⟩, fits⟩

theorem unwrapByTooLarge {declared : Nat} (long : headerLength < envelope.length)
    (header : declaredLength? envelope = some declared) (large : sizeCeiling ≤ declared + 1) :
    unwrapBy read envelope = .error (.declaredTooLarge declared) := by
  rw [unwrapBy, if_neg (Nat.not_le_of_lt long), header, Option.getD_some, if_pos large]

end

theorem Encloses.begun {envelope content : Bytes} (encloses : Encloses envelope content)
    (long : headerLength < envelope.length) :
    Zlib.Begins (envelope.drop headerLength) content := by
  cases encloses with
  | nothing short => exact absurd long (Nat.not_lt_of_le short)
  | stream below whole fits => exact ⟨_, _, rfl, whole⟩

/-- Unwrapping never aborts. It accepts just what encloses a content; a header at the ceiling is
refused whatever follows it, and so is the beginning of a stream that lacks its end. Reading the
stream in pieces, however it is handed out, comes to the same. Copies from before the start of the
output and dead ends that stand for a symbol are of the format (`Encloses`). -/
theorem acceptedExactly (envelope : Blob) :
    ∃ answer, unwrap envelope = .ok answer ∧
      (∀ content, answer.map Blob.content = .ok content ↔ Encloses envelope.content content) ∧
      (∀ declared, headerLength < envelope.content.length →
        declaredLength? envelope.content = some declared → sizeCeiling ≤ declared + 1 →
        answer = .error (.declaredTooLarge declared)) ∧
      (headerLength < envelope.content.length →
        Zlib.Truncated (envelope.content.drop headerLength) → ∃ fault, answer = .error fault) ∧
      ∀ delivery : Delivery, delivery.KeepsTo (envelope.content.drop headerLength) →
        ∀ content, unwrapBy (inflate delivery) envelope.content = .ok content ↔
          answer.map Blob.content = .ok content := by
  have accepted (content : Bytes) :
      ((unwrapBytes envelope.content).map Blob.held).map Blob.content = .ok content ↔
        Encloses envelope.content content := by
    rw [← unwrapByIff (contentOfAccepts _), ← unwrapBytesBy]
    cases unwrapBytes envelope.content with
    | error fault => exact ⟨nofun, nofun⟩
    | ok made => simp only [Except.map, Blob.heldContent, Except.ok.injEq]
  refine ⟨_, unwrapEq envelope, accepted, ?_, ?_, ?_⟩
  · intro declared long header large
    rw [unwrapBytesBy, unwrapByTooLarge long header large]
    rfl
  · intro long truncated
    cases answer : (unwrapBytes envelope.content).map Blob.held with
    | error fault => exact ⟨fault, rfl⟩
    | ok made =>
      have encloses := (accepted made.content).mp (by rw [answer]; rfl)
      exact absurd (encloses.begun long) (truncated.notBegun made.content)
  · intro delivery keeps content
    exact (unwrapByIff (inflateAccepts keeps) content).trans (accepted content).symm

theorem lettersAccepted :
    ∃ answer, unwrap (Blob.held (envelopeOf [[0x61, 0x62]])) = .ok answer ∧
      answer.map Blob.content = .ok [0x61, 0x62] ∧
      unwrapBy (inflate ⟨[[0x61], [0x62]], .ok ()⟩) (envelopeOf [[0x61, 0x62]]) =
        .ok [0x61, 0x62] := by
  have begins : Zlib.Begins (Zlib.encode [0x61, 0x62]) [0x61, 0x62] :=
    ⟨_, [], (List.append_nil _).symm, Zlib.encodeStream _⟩
  have keeps : (⟨[[0x61], [0x62]], .ok ()⟩ : Delivery).KeepsTo
      ((envelopeOf [[0x61, 0x62]]).drop headerLength) := by
    refine ⟨fun content same => ⟨Zlib.beginsOnce begins same, rfl⟩, fun none => ?_⟩
    exact absurd begins (none _)
  have encloses : Encloses (0 :: 0 :: 0 :: 2 :: (Zlib.encode [0x61, 0x62] ++ [])) [0x61, 0x62] :=
    .stream (by decide) (Zlib.encodeStream _) (by decide)
  obtain ⟨answer, unwrapped, accepted, -, -, read⟩ :=
    acceptedExactly (Blob.held (envelopeOf [[0x61, 0x62]]))
  rw [Blob.heldContent] at accepted read
  rw [List.append_nil] at encloses
  have whole := (accepted _).mpr encloses
  exact ⟨answer, unwrapped, whole, (read _ keeps _).mpr whole⟩

end ArtifactVault.Envelope
