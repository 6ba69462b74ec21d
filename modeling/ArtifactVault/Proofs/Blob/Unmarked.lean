import ArtifactVault.Proofs.Blob.Normalize

/-! What normalization comes to. Bytes behind a UTF-8 mark are taken as they are, so they may be no
text and may begin with another mark; decoded units may begin with another one as well. Everything
else becomes text without a mark, which is exactly what normalization leaves alone. -/
namespace ArtifactVault.Blob
variable {b : Blob}

theorem encodeMark : Utf8.encodeChar Utf16.markChar = utf8Mark := by decide

theorem headOfMark (rest : Bytes) :
    Utf8.head 0xef (0xbb :: 0xbf :: rest) = .char Utf16.markChar 3 :=
  @Utf8.headOfSpelled _ _ [0xbb, 0xbf] rest (by
    have spelled := Utf8.spelledEncoding Utf16.markChar
    rwa [encodeMark] at spelled)

theorem encodeMarkIff (cs : List Char) :
    hasUtf8Mark (Utf8.encode cs) = true ↔ cs.head? = some Utf16.markChar := by
  cases cs with
  | nil => decide
  | cons c cs =>
    rw [List.head?_cons, Option.some.injEq]
    refine ⟨fun marked => ?_, fun same => ?_⟩
    · obtain ⟨rest, whole⟩ := List.isPrefixOf_iff_prefix.mp marked
      obtain ⟨lead, more, bytes, spelled⟩ := Utf8.headOfEncoding c
      have read := Utf8.headOfSpelled (Utf8.encode cs) spelled
      rw [Utf8.encode, List.flatMap_cons, bytes, List.cons_append] at whole
      obtain ⟨rfl, behind⟩ := List.cons.inj whole
      rw [Utf8.encode, ← behind] at read
      exact (Utf8.Head.char.inj ((headOfMark rest).symm.trans read)).1.symm
    · rw [same, Utf8.encode, List.flatMap_cons, encodeMark]
      exact List.isPrefixOf_iff_prefix.mpr (List.prefix_append _ _)

theorem validHasNoUnits {bytes : Bytes} (valid : Utf8.Valid bytes) :
    Utf16.markReversed? bytes = none := by
  unfold Utf16.markReversed?
  split
  · rfl
  · split
    · exact absurd (Utf8.leadOfValid valid) (by decide)
    · exact absurd (Utf8.leadOfValid valid) (by decide)
    · rfl

theorem codePageBytesEq : ∀ byte, codePageBytes byte = Utf8.encodeChar (CodePage.char byte) :=
  Byte.everyByte (by decide +kernel)

theorem transcodedEq (bytes : Bytes) :
    bytes.flatMap codePageBytes = Utf8.encode (bytes.map CodePage.char) := by
  rw [Utf8.encode, List.flatMap_map, funext codePageBytesEq]

theorem codePageNotMark : ∀ byte, CodePage.char byte ≠ Utf16.markChar :=
  Byte.everyByte (by decide +kernel)

theorem transcodedUnmarked (bytes : Bytes) : hasUtf8Mark (bytes.flatMap codePageBytes) = false := by
  rw [transcodedEq, Bool.eq_false_iff, ne_eq, encodeMarkIff]
  cases bytes with
  | nil => nofun
  | cons byte bytes => exact fun same => codePageNotMark byte (Option.some.inj same)

theorem lengthTranscodedLe (bytes : Bytes) :
    (bytes.flatMap codePageBytes).length ≤ 3 * bytes.length := by
  induction bytes with
  | nil => exact Nat.le_refl _
  | cons byte bytes ih =>
    have first := lengthCodePageBytes byte
    have growth : CodePage.growth byte ≤ 2 := by
      unfold CodePage.growth
      split
      · exact Nat.le_refl _
      · split <;> decide
    rw [List.flatMap_cons, List.length_append, List.length_cons]
    omega

theorem lengthToUtf8 (bytes : Bytes) : (Utf16.toUtf8 bytes).length ≤ 2 * bytes.length := by
  have text := Utf8.lengthEncode (Utf16.decode (Utf16.units bytes))
  have characters := Utf16.lengthDecode (Utf16.units bytes)
  have units := Utf16.lengthUnits bytes
  rw [Utf16.toUtf8]
  omega

def normalized (bytes : Bytes) : Bytes :=
  if hasUtf8Mark bytes then bytes.drop 3
  else match Utf16.markReversed? bytes with
    | some reversed => Utf16.toUtf8 (Utf16.unmarked reversed bytes)
    | none => if Utf8.isValid bytes then bytes else bytes.flatMap codePageBytes

theorem normalizedMarked {bytes : Bytes} (marked : hasUtf8Mark bytes = true) :
    normalized bytes = bytes.drop 3 := if_pos marked

theorem normalizedUnits {bytes : Bytes} {reversed : Bool} (unmarked : hasUtf8Mark bytes = false)
    (units : Utf16.markReversed? bytes = some reversed) :
    normalized bytes = Utf16.toUtf8 (Utf16.unmarked reversed bytes) := by
  simp only [normalized, unmarked, units, Bool.false_eq_true, if_false]

theorem normalizedPlain {bytes : Bytes} (unmarked : hasUtf8Mark bytes = false)
    (plain : Utf16.markReversed? bytes = none) :
    normalized bytes = if Utf8.isValid bytes then bytes else bytes.flatMap codePageBytes := by
  simp only [normalized, unmarked, plain, Bool.false_eq_true, if_false]

def MarkedTwice (bytes : Bytes) : Prop :=
  if hasUtf8Mark bytes then hasUtf8Mark (bytes.drop 3) = true
  else (Utf16.markReversed? bytes).isSome ∧ (bytes.drop 2).take 2 = bytes.take 2

theorem normalizedValidIff (bytes : Bytes) :
    Utf8.Valid (normalized bytes) ↔ (hasUtf8Mark bytes = true → Utf8.Valid (bytes.drop 3)) := by
  cases marked : hasUtf8Mark bytes with
  | true => rw [normalizedMarked marked, forall_prop_of_true rfl]
  | false =>
    refine iff_of_true ?_ nofun
    cases units : Utf16.markReversed? bytes with
    | some reversed =>
      rw [normalizedUnits marked units]
      exact ⟨_, rfl⟩
    | none =>
      rw [normalizedPlain marked units]
      by_cases valid : Utf8.isValid bytes = true
      · rw [if_pos valid]
        exact (Utf8.validIff bytes).mp valid
      · rw [if_neg valid, transcodedEq]
        exact ⟨_, rfl⟩

theorem normalizedMarkIff (bytes : Bytes) :
    hasUtf8Mark (normalized bytes) = true ↔ MarkedTwice bytes := by
  unfold MarkedTwice
  cases marked : hasUtf8Mark bytes with
  | true => rw [normalizedMarked marked, if_pos rfl]
  | false =>
    rw [if_neg Bool.false_ne_true]
    cases units : Utf16.markReversed? bytes with
    | some reversed =>
      rw [normalizedUnits marked units, Utf16.toUtf8, encodeMarkIff, Utf16.unmarkedMarkIff units]
      exact (and_iff_right rfl).symm
    | none =>
      rw [normalizedPlain marked units]
      refine iff_of_false ?_ nofun
      by_cases valid : Utf8.isValid bytes = true
      · rw [if_pos valid, marked]
        nofun
      · rw [if_neg valid, transcodedUnmarked]
        nofun

theorem normalizedFixed {bytes : Bytes} (fixed : normalized bytes = bytes) :
    Utf8.Valid bytes ∧ hasUtf8Mark bytes = false := by
  have unmarked : hasUtf8Mark bytes = false := by
    refine Bool.eq_false_iff.mpr fun marked => ?_
    have front := (List.isPrefixOf_iff_prefix.mp marked).length_le
    have shorter := congrArg List.length fixed
    have three : utf8Mark.length = 3 := rfl
    rw [normalizedMarked marked, List.length_drop] at shorter
    omega
  have valid := (normalizedValidIff bytes).mpr (by rw [unmarked]; nofun)
  rw [fixed] at valid
  exact ⟨valid, unmarked⟩

theorem decodeUnitsAsking {reversed : Bool} (wf : b.WellFormed)
    (units : Utf16.markReversed? b.content = some reversed) (assumeCodePage : Bool) :
    Asking (2 * b.used + 1) (Fresh (Utf16.toUtf8 (Utf16.unmarked reversed b.content)))
      (b.decodeMarked assumeCodePage) := by
  have live := lengthContent wf
  have left := Utf16.lengthUnmarked reversed b.content
  have short := lengthToUtf8 (Utf16.unmarked reversed b.content)
  unfold decodeMarked
  rw [units]
  refine askingBind ((reorderedAsking wf reversed).more (by omega)) fun ordered rewritten => ?_
  rw [Utf16.unmarked] at left short ⊢
  rw [rewritten.content]
  exact (ofBytesAsking _).more (by omega)

theorem decodeMarkedAsking (wf : b.WellFormed) (unmarked : hasUtf8Mark b.content = false) :
    Asking (3 * b.used + 1) (fun e => e.WellFormed ∧ e.content = normalized b.content)
      (b.decodeMarked true) := by
  have live := lengthContent wf
  cases units : Utf16.markReversed? b.content with
  | some reversed =>
    rw [normalizedUnits unmarked units]
    exact askingMono ((decodeUnitsAsking wf units true).more (by omega)) fun e made =>
      ⟨made.wellFormed, made.content⟩
  | none =>
    have short := lengthTranscodedLe b.content
    unfold decodeMarked
    rw [normalizedPlain unmarked units, units]
    by_cases valid : Utf8.isValid b.content = true
    · rw [if_pos valid]
      simp only [valid, Bool.not_true, Bool.and_false, Bool.false_eq_true, if_false]
      exact ⟨wf, rfl⟩
    · rw [if_neg valid]
      simp only [Bool.eq_false_iff.mpr valid, Bool.not_false, Bool.and_true, if_true]
      exact askingMono ((transcodeCodePageAsking wf).more (by omega)) fun e made =>
        ⟨made.wellFormed, made.content⟩

theorem normalizeUnmarked {most : Nat} {post : Blob → Prop} {assumeCodePage : Bool}
    (wf : b.WellFormed) (unmarked : hasUtf8Mark b.content = false) (room : b.used + 1 ≤ most)
    (decodes : ∀ {u : Blob}, u.WellFormed → u.content = b.content → u.used = b.used →
      Asking most post (u.decodeMarked assumeCodePage)) :
    Asking most post (b.normalize assumeCodePage) := by
  rw [normalizeEq]
  refine askingBind ((stripUtf8MarkAsking wf).more room) fun answer ⟨stripped, rewritten⟩ => ?_
  rw [unmarked] at stripped rewritten
  rw [stripped]
  have same : answer.2.content = b.content := rewritten.content
  have used : answer.2.used = b.used := by
    rw [← lengthContent rewritten.wellFormed, same, lengthContent wf]
  exact decodes rewritten.wellFormed same used

theorem normalizeAsking (wf : b.WellFormed) :
    Asking (3 * b.used + 1) (fun e => e.WellFormed ∧ e.content = normalized b.content)
      (b.normalize true) := by
  cases marked : hasUtf8Mark b.content with
  | true =>
    rw [normalizeEq]
    refine askingBind ((stripUtf8MarkAsking wf).more (by omega)) fun answer ⟨stripped, rewritten⟩ => ?_
    rw [marked] at stripped rewritten
    rw [stripped, normalizedMarked marked]
    exact ⟨rewritten.wellFormed, rewritten.content⟩
  | false =>
    refine normalizeUnmarked wf marked (by omega) fun whole same used => ?_
    have decoded := decodeMarkedAsking whole (by rw [same, marked])
    rwa [same, used] at decoded

theorem normalizeStays (valid : Utf8.Valid b.content) (unmarked : hasUtf8Mark b.content = false) :
    b.normalize true = .ok b := by
  have stripped : b.stripUtf8Mark = .ok (false, b) := by
    simp only [stripUtf8Mark, unmarked, Bool.false_eq_true, if_false]
    rfl
  have accepted := (Utf8.validIff b.content).mpr valid
  rw [normalizeEq, stripped]
  show b.decodeMarked true = .ok b
  simp only [decodeMarked, validHasNoUnits valid, accepted, Bool.not_true, Bool.and_false,
    Bool.false_eq_true, if_false]

/-- Each part of the promise fails exactly where a mark says more than is true: it stands in front of
bytes that are no text, or of another mark. -/
theorem normalizeSettles (wf : b.WellFormed) (small : 3 * b.used + 1 < sizeCeiling) :
    ∃ e, b.normalize true = .ok e ∧
      (hasUtf8Mark b.content = true → e.content = b.content.drop 3) ∧
      (Utf8.Valid e.content ↔
        (hasUtf8Mark b.content = true → Utf8.Valid (b.content.drop 3))) ∧
      (hasUtf8Mark e.content = true ↔ MarkedTwice b.content) ∧
      (e.normalize true = .ok e ↔ Utf8.Valid e.content ∧ hasUtf8Mark e.content = false) := by
  obtain ⟨e, done, whole, content⟩ := (normalizeAsking wf).below small
  refine ⟨e, done, fun marked => ?_, ?_, ?_, fun again => ?_, fun settled => ?_⟩
  · rw [content, normalizedMarked marked]
  · rw [content]
    exact normalizedValidIff b.content
  · rw [content]
    exact normalizedMarkIff b.content
  · have twice := normalizeAsking whole
    rw [again] at twice
    exact normalizedFixed twice.2.symm
  · exact normalizeStays settled.1 settled.2

def reversedLetter : Blob := ⟨[0xfe, 0xff, 0x20, 0xac], .borrowed, 4, 0, false⟩

theorem normalizeReversedLetter :
    ∃ e, reversedLetter.normalize true = .ok e ∧ Utf8.Valid e.content ∧
      hasUtf8Mark e.content = false ∧ e.normalize true = .ok e := by
  obtain ⟨e, done, -, valid, marked, again⟩ :=
    @normalizeSettles reversedLetter ⟨by decide, by decide, by decide⟩ (by decide)
  have text : Utf8.Valid e.content := valid.mpr (by decide)
  have unmarked : hasUtf8Mark e.content = false :=
    Bool.eq_false_iff.mpr fun mark => absurd (marked.mp mark) (by unfold MarkedTwice; decide)
  exact ⟨e, done, text, unmarked, again.mpr ⟨text, unmarked⟩⟩

theorem markBeforeNoText :
    ∃ e f, (held [0xef, 0xbb, 0xbf, 0xff]).normalize true = .ok e ∧ e.content = [0xff] ∧
      ¬ Utf8.Valid e.content ∧ e.normalize true = .ok f ∧ f.content = [0xc3, 0xbf] := by
  obtain ⟨e, done, whole, content⟩ := (normalizeAsking (b := held [0xef, 0xbb, 0xbf, 0xff])
    (heldWellFormed (by decide))).below (by decide)
  have left : e.content = [0xff] := content.trans (by decide)
  have one : e.used = 1 := by rw [← lengthContent whole, left]; rfl
  obtain ⟨f, again, -, later⟩ := (normalizeAsking whole).below (by rw [one]; decide)
  rw [left] at later
  exact ⟨e, f, done, left, by rw [left]; decide +kernel, again, later.trans (by decide +kernel)⟩

end ArtifactVault.Blob
