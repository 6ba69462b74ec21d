import ArtifactVault.Blob.Compose
import ArtifactVault.Proofs.Blob.Append
import ArtifactVault.Proofs.Text.Utf8

/-! What the builders append: the text itself, or the text with each special byte replaced. The mark
of formatted text is set before anything is written, so it holds of failed writes too. -/
namespace ArtifactVault.Blob
variable {b : Blob}

theorem markWellFormed (wf : b.WellFormed) : b.mark.WellFormed :=
  ⟨wf.used_le, wf.cursor_le, wf.capacity_lt⟩

theorem markMarked (marked : b.formatted = true) : b.mark = b := by
  rw [mark, ← marked]

theorem RoomFor.mark {limit : Nat} (room : RoomFor b limit) : RoomFor b.mark limit :=
  ⟨markWellFormed room.wellFormed, room.doubled, room.borrowed⟩

def replaced (replacement? : UInt8 → Option Bytes) (bytes : Bytes) : Bytes :=
  bytes.flatMap fun byte => (replacement? byte).getD [byte]

theorem flattenPieces (replacement? : UInt8 → Option Bytes) (bytes : Bytes) :
    (pieces replacement? bytes).flatten = replaced replacement? bytes := by
  induction bytes with
  | nil => rfl
  | cons byte bytes ih =>
    rw [replaced] at ih
    rw [replaced, List.flatMap_cons, ← ih]
    cases found : replacement? byte with
    | some replacement =>
      simp only [pieces, List.foldr_cons, found, List.flatten_cons, List.nil_append,
        Option.getD_some]
    | none =>
      simp only [pieces, List.foldr_cons, found]
      generalize List.foldr _ _ bytes = pieced
      cases pieced with
      | nil => rfl
      | cons stretch rest => rfl

theorem piecesBuilt (replacement? : UInt8 → Option Bytes) (bytes : Bytes) :
    Built (fun b => (pieces replacement? bytes).foldlM append b) (replaced replacement? bytes) :=
  (Built.each .append (pieces replacement? bytes)).congr (fun _ => rfl) (by
    rw [List.flatMap_id', flattenPieces])

theorem replacedUntouched {replacement? : UInt8 → Option Bytes} {bytes : Bytes}
    (untouched : ∀ byte ∈ bytes, replacement? byte = none) : replaced replacement? bytes = bytes := by
  induction bytes with
  | nil => rfl
  | cons byte bytes ih =>
    have rest := ih fun other mem => untouched other (by simp [mem])
    rw [replaced] at rest
    rw [replaced, List.flatMap_cons, rest, untouched byte (by simp)]
    rfl

theorem replacedCharacter {replacement? : UInt8 → Option Bytes} {c : Char}
    (other : ∀ byte, replacement? byte = none ∨ byte.toNat < 0x80 ∧ c ≠ Char.ofNat byte.toNat) :
    replaced replacement? (Utf8.encodeChar c) = Utf8.encode [c] := by
  rw [Utf8.encode, List.flatMap_singleton]
  refine replacedUntouched fun byte mem => (other byte).resolve_right ?_
  exact fun both => both.2 (Utf8.asciiOfEncoding mem both.1)

theorem encodeReplaced {replacement? : UInt8 → Option Bytes} {spelling : Char → List Char}
    (each : ∀ c, Utf8.encode (spelling c) = replaced replacement? (Utf8.encodeChar c))
    (cs : List Char) :
    Utf8.encode (cs.flatMap spelling) = replaced replacement? (Utf8.encode cs) := by
  simp only [Utf8.encode, replaced, List.flatMap_assoc] at *
  exact congrArg (List.flatMap · cs) (funext each)

theorem writeTextSound (wf : b.WellFormed) (text : String) :
    Sound (Written b.mark (Utf8.ofString text)) (b.writeText text) :=
  (appendAppends _).sound b.mark (markWellFormed wf)

theorem writeTextWithin {limit : Nat} {text : String} (room : RoomFor b limit)
    (fits : b.used + (Utf8.ofString text).length ≤ limit) :
    ∃ e, b.writeText text = .ok e ∧ Written b.mark (Utf8.ofString text) e ∧ RoomFor e limit :=
  (appendAppends _).within b.mark limit room.mark fits

theorem appendFormattedSound (wf : b.WellFormed) (pieces : List String) :
    Sound (fun e => e.WellFormed ∧ e.formatted = (!pieces.isEmpty || b.formatted))
      (b.appendFormatted pieces) := by
  induction pieces generalizing b with
  | nil => exact ⟨wf, rfl⟩
  | cons text pieces ih =>
    rw [appendFormatted, List.foldlM_cons]
    refine soundBind (writeTextSound wf text) fun e written => ?_
    refine soundMono (ih written.wellFormed) fun f later => ⟨later.1, ?_⟩
    rw [later.2, written.formatted]
    exact Bool.or_true _

theorem appendHtmlSound (wf : b.WellFormed) (text : String) :
    Sound (Written b.mark (replaced htmlEntity? (Utf8.ofString text))) (b.appendHtml text) :=
  (piecesBuilt htmlEntity? _).appends.sound b.mark (markWellFormed wf)

theorem appendJsonSound (wf : b.WellFormed) (text : String) :
    Sound (Written b.mark (Utf8.encode (Json.quoteChars text.toList))) (b.appendJson text) :=
  (appendAppends _).sound b.mark (markWellFormed wf)

theorem appendSqlBuilt (sql : String) : Built (·.appendSql sql) (Utf8.ofString sql) :=
  .append _

theorem appendSqlEscapedBuilt (text : String) :
    Built (·.appendSqlEscaped text) (replaced (doubled 0x27) (Utf8.ofString text)) :=
  piecesBuilt _ _

def sqlLiteral : Option String → Bytes
  | some text => [0x27] ++ replaced (doubled 0x27) (Utf8.ofString text) ++ [0x27]
  | none => Bytes.ascii ['N', 'U', 'L', 'L']

theorem appendSqlStringBuilt (text : Option String) :
    Built (·.appendSqlString text) (sqlLiteral text) := by
  cases text with
  | none => exact .append _
  | some text =>
    have opened := (Built.byte 0x27).andThen (appendSqlEscapedBuilt text)
    exact (opened.andThen (Built.byte 0x27)).congr
      (fun b => by cases h : b.appendByte 0x27 <;> simp [appendSqlString, h, bind, Except.bind]) rfl

theorem appendSqlIdentifierBuilt (name : String) :
    Built (·.appendSqlIdentifier name)
      ([0x22] ++ replaced (doubled 0x22) (Utf8.ofString name) ++ [0x22]) := by
  have opened := (Built.byte 0x22).andThen (piecesBuilt (doubled 0x22) (Utf8.ofString name))
  exact (opened.andThen (Built.byte 0x22)).congr
    (fun b => by cases h : b.appendByte 0x22 <;>
      simp [appendSqlIdentifier, appendDoubling, h, bind, Except.bind]) rfl

theorem appendSqlIntBuilt (value : Int64) :
    Built (·.appendSqlInt value) (Utf8.ofString (toString value.toInt)) :=
  .append _

theorem sqlTextSound (b : Blob) : Sound (fun _ => True) b.sqlText := by
  unfold sqlText
  split
  · exact .formattedSql
  · split
    · trivial
    · exact .illFormedSql

end ArtifactVault.Blob
