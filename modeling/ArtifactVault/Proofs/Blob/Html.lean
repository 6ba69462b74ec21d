import ArtifactVault.Proofs.Blob.Compose
import ArtifactVault.Proofs.Byte

/-! Text escaped for HTML. The five characters that markup gives a meaning are spelled as entities,
and each ampersand that is left begins one, so the text is read back whatever it looked like. What
is spelled is said of characters; the blob, which copies stretches of bytes, holds just that. -/
namespace ArtifactVault.Blob
variable {b : Blob}

def entities : List (Char × List Char) :=
  [('&', ['&', 'a', 'm', 'p', ';']), ('<', ['&', 'l', 't', ';']), ('>', ['&', 'g', 't', ';']),
    ('"', ['&', 'q', 'u', 'o', 't', ';']), ('\'', ['&', '#', '3', '9', ';'])]

def htmlSpelling (c : Char) : List Char := (entities.lookup c).getD [c]

def htmlText (cs : List Char) : List Char := cs.flatMap htmlSpelling

def unescaped : List Char → List Char
  | '&' :: 'a' :: 'm' :: 'p' :: ';' :: rest => '&' :: unescaped rest
  | '&' :: 'l' :: 't' :: ';' :: rest => '<' :: unescaped rest
  | '&' :: 'g' :: 't' :: ';' :: rest => '>' :: unescaped rest
  | '&' :: 'q' :: 'u' :: 'o' :: 't' :: ';' :: rest => '"' :: unescaped rest
  | '&' :: '#' :: '3' :: '9' :: ';' :: rest => '\'' :: unescaped rest
  | c :: rest => c :: unescaped rest
  | [] => []

theorem htmlSpellingCases (c : Char) :
    (∃ entity ∈ entities, entity.1 = c ∧ htmlSpelling c = entity.2) ∨
      (∀ entity ∈ entities, entity.1 ≠ c) ∧ htmlSpelling c = [c] := by
  unfold htmlSpelling
  cases found : entities.lookup c with
  | some text =>
    obtain ⟨front, back, parts, -⟩ := List.lookup_eq_some_iff.mp found
    exact .inl ⟨(c, text), by simp [parts], rfl, rfl⟩
  | none =>
    refine .inr ⟨fun entity mem same => ?_, rfl⟩
    have apart := List.lookup_eq_none_iff.mp found entity mem
    simp [same] at apart

theorem unescapedEntity {entity : Char × List Char} (mem : entity ∈ entities) (rest : List Char) :
    unescaped (entity.2 ++ rest) = entity.1 :: unescaped rest := by
  simp only [entities, List.mem_cons, List.not_mem_nil, or_false] at mem
  rcases mem with rfl | rfl | rfl | rfl | rfl <;> rfl

theorem unescapedOther {c : Char} (other : c ≠ '&') (rest : List Char) :
    unescaped (c :: rest) = c :: unescaped rest := by
  rw [unescaped] <;> exact fun _ same => absurd same other

theorem unescapedHtml (cs : List Char) : unescaped (htmlText cs) = cs := by
  induction cs with
  | nil => rfl
  | cons c cs ih =>
    rw [htmlText, List.flatMap_cons, ← htmlText]
    rcases htmlSpellingCases c with ⟨entity, mem, rfl, spelling⟩ | ⟨plain, spelling⟩
    · rw [spelling, unescapedEntity mem, ih]
    · have other : c ≠ '&' := fun same => plain _ (List.mem_cons_self ..) same.symm
      rw [spelling, List.singleton_append, unescapedOther other, ih]

theorem entityPlain : ∀ entity ∈ entities, ∀ c ∈ entity.2, c ∉ ['<', '>', '"', '\''] := by
  simp [entities]

theorem entityBegins : ∀ entity ∈ entities,
    ∃ name, entity.2 = '&' :: name ∧ '&' ∉ name := by
  intro entity mem
  simp only [entities, List.mem_cons, List.not_mem_nil, or_false] at mem
  rcases mem with rfl | rfl | rfl | rfl | rfl <;> exact ⟨_, rfl, by decide⟩

theorem htmlPlain (cs : List Char) : ∀ c ∈ htmlText cs, c ∉ ['<', '>', '"', '\''] := by
  intro c mem
  obtain ⟨source, -, mem⟩ := List.mem_flatMap.mp mem
  rcases htmlSpellingCases source with ⟨entity, known, -, spelling⟩ | ⟨plain, spelling⟩
  · exact entityPlain entity known c (spelling ▸ mem)
  · rw [spelling, List.mem_singleton] at mem
    subst mem
    intro special
    have keys : ∀ c ∈ ['<', '>', '"', '\''], ∃ entity ∈ entities, entity.1 = c := by
      simp [entities]
    obtain ⟨entity, known, same⟩ := keys c special
    exact plain entity known same

theorem suffixBehind {front back rest : List Char} (none : '&' ∉ front)
    (suffix : '&' :: rest <:+ front ++ back) : '&' :: rest <:+ back := by
  induction front with
  | nil => exact suffix
  | cons c front ih =>
    obtain ⟨first, later⟩ := not_or.mp (fun mem => none (List.mem_cons.mpr mem))
    rcases List.suffix_cons_iff.mp suffix with whole | suffix
    · exact absurd (List.cons.inj whole).1 first
    · exact ih later suffix

theorem htmlAmpersand {cs rest : List Char} (suffix : '&' :: rest <:+ htmlText cs) :
    ∃ entity ∈ entities, entity.2 <+: '&' :: rest := by
  induction cs with
  | nil => exact absurd (List.suffix_nil.mp suffix) nofun
  | cons c cs ih =>
    rw [htmlText, List.flatMap_cons, ← htmlText] at suffix
    rcases htmlSpellingCases c with ⟨entity, mem, -, spelling⟩ | ⟨plain, spelling⟩
    · obtain ⟨name, text, none⟩ := entityBegins entity mem
      rw [spelling, text, List.cons_append] at suffix
      rcases List.suffix_cons_iff.mp suffix with whole | behind
      · exact ⟨entity, mem, by rw [whole, text, ← List.cons_append]; exact List.prefix_append _ _⟩
      · exact ih (suffixBehind none behind)
    · rw [spelling] at suffix
      refine ih (suffixBehind (fun mem => ?_) suffix)
      exact plain _ (List.mem_cons_self ..) (List.mem_singleton.mp mem)

theorem htmlEntityBytes : ∀ entity ∈ entities, Utf8.encode entity.2 =
    replaced htmlEntity? (Utf8.encodeChar entity.1) := by
  decide +kernel

theorem htmlEntityKnown : ∀ byte, htmlEntity? byte = none ∨
    byte.toNat < 0x80 ∧ ∃ entity ∈ entities, entity.1 = Char.ofNat byte.toNat :=
  Byte.everyByte (by decide +kernel)

theorem encodeHtml (cs : List Char) :
    Utf8.encode (htmlText cs) = replaced htmlEntity? (Utf8.encode cs) := by
  refine encodeReplaced (fun c => ?_) cs
  rcases htmlSpellingCases c with ⟨entity, mem, rfl, spelling⟩ | ⟨plain, spelling⟩
  · rw [spelling, htmlEntityBytes entity mem]
  · rw [spelling]
    refine (replacedCharacter fun byte => (htmlEntityKnown byte).imp_right ?_).symm
    rintro ⟨ascii, entity, mem, same⟩
    exact ⟨ascii, fun other => plain entity mem (same.trans other.symm)⟩

theorem appendHtmlBuilt (text : String) :
    Built (fun b => (pieces htmlEntity? (Utf8.ofString text)).foldlM append b)
      (Utf8.encode (htmlText text.toList)) :=
  (piecesBuilt htmlEntity? _).congr (fun _ => rfl) (encodeHtml text.toList).symm

structure Escapes (text out : List Char) : Prop where
  plain : ∀ c ∈ out, c ∉ ['<', '>', '"', '\'']
  ampersands : ∀ rest, '&' :: rest <:+ out → ∃ entity ∈ entities, entity.2 <+: '&' :: rest
  stands : unescaped out = text

theorem htmlEscapes (cs : List Char) : Escapes cs (htmlText cs) :=
  ⟨htmlPlain cs, fun _ => htmlAmpersand, unescapedHtml cs⟩

theorem appendHtmlWithin {limit : Nat} (room : RoomFor b limit) (text : String)
    (fits : b.used + (Utf8.encode (htmlText text.toList)).length ≤ limit) :
    ∃ e, b.appendHtml text = .ok e ∧ Written b.mark (Utf8.encode (htmlText text.toList)) e ∧
      RoomFor e limit :=
  (appendHtmlBuilt text).appends.within b.mark limit room.mark fits

theorem encodeHtmlAppend (first second : String) :
    Utf8.encode (htmlText (first ++ second).toList) =
      Utf8.encode (htmlText first.toList) ++ Utf8.encode (htmlText second.toList) := by
  simp only [String.toList_append, htmlText, Utf8.encode, List.flatMap_append]

theorem htmlReadsBack {limit : Nat} (room : RoomFor b limit) :
    (∀ text : String, b.used + (Utf8.encode (htmlText text.toList)).length ≤ limit →
      ∃ e out, b.appendHtml text = .ok e ∧ e.content = b.content ++ Utf8.encode out ∧
        Escapes text.toList out) ∧
    ∀ first second : String,
      b.used + (Utf8.encode (htmlText (first ++ second).toList)).length ≤ limit →
      ∃ e f, b.appendHtml (first ++ second) = .ok e ∧
        (do (← b.appendHtml first).appendHtml second) = .ok f ∧ SameContent e f := by
  constructor
  · intro text fits
    obtain ⟨e, done, written, -⟩ := appendHtmlWithin room text fits
    exact ⟨e, _, done, written.content, htmlEscapes text.toList⟩
  · intro first second fits
    obtain ⟨e, whole, written, -⟩ := appendHtmlWithin room _ fits
    rw [encodeHtmlAppend, List.length_append] at fits
    rw [encodeHtmlAppend] at written
    obtain ⟨m, began, front, left⟩ := appendHtmlWithin room first (by omega)
    have used := front.used (markWellFormed room.wellFormed)
    have counted : b.mark.used = b.used := rfl
    obtain ⟨f, ended, back, -⟩ := appendHtmlWithin left second (by omega)
    rw [markMarked front.formatted] at back
    exact ⟨e, f, whole, by rw [began]; exact ended, written.same (front.trans back)⟩

theorem tagEscaped :
    (∃ e out, (Blob.mk [0x3c, 0x61, 0x00] .borrowed 2 1 false).appendHtml "&lt;\"é'>" = .ok e ∧
      e.content = [0x3c, 0x61] ++ Utf8.encode out ∧ Escapes "&lt;\"é'>".toList out) ∧
    ∃ e f, (Blob.mk [0x3c, 0x61, 0x00] .borrowed 2 1 false).appendHtml ("&l" ++ "t;<") = .ok e ∧
      (do (← (Blob.mk [0x3c, 0x61, 0x00] .borrowed 2 1 false).appendHtml "&l").appendHtml "t;<") =
        .ok f ∧ SameContent e f := by
  obtain ⟨one, two⟩ := @htmlReadsBack ⟨[0x3c, 0x61, 0x00], .borrowed, 2, 1, false⟩ 100
    ⟨⟨by decide, by decide, by decide⟩, by decide, by decide⟩
  exact ⟨one "&lt;\"é'>" (by decide +kernel), two "&l" "t;<" (by decide +kernel)⟩

end ArtifactVault.Blob
