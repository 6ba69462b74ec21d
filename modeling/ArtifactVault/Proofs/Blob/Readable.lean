import Mathlib.Data.Nat.Digits.Defs
import ArtifactVault.Blob.Program
import ArtifactVault.Proofs.Blob.Marks
import ArtifactVault.Proofs.Text.Utf8

/-! Statements put together by the SQL family. What a part looks like is said of characters, without
a blob: quotes are doubled and integers have no digit that they could do without. The blob, which
copies stretches of bytes, holds just that, and gives it back as text until something else than the
family writes into it. -/
namespace ArtifactVault.Blob
variable {b : Blob}

inductive SqlPart
  | statement (sql : String)
  | escaped (text : String)
  | literal (text : Option String)
  | identifier (name : String)
  | number (value : Int64)

def SqlPart.edit : SqlPart → TextEdit
  | .statement sql => .sql sql
  | .escaped text => .sqlEscaped text
  | .literal text => .sqlString text
  | .identifier name => .sqlIdentifier name
  | .number value => .sqlInt value

def build (b : Blob) (parts : List SqlPart) : Except Abort Blob :=
  parts.foldlM (fun b part => part.edit.apply b) b

def withDoubled (quote : Char) (cs : List Char) : List Char :=
  cs.flatMap fun c => if c = quote then [quote, quote] else [c]

def decimalDigits (n : Nat) : List Char :=
  if n = 0 then ['0'] else (Nat.digits 10 n).reverse.map Nat.digitChar

def signedDecimal (value : Int) : List Char :=
  (if value < 0 then ['-'] else []) ++ decimalDigits value.natAbs

def SqlPart.rendering : SqlPart → List Char
  | .statement sql => sql.toList
  | .escaped text => withDoubled '\'' text.toList
  | .literal (some text) => ['\''] ++ withDoubled '\'' text.toList ++ ['\'']
  | .literal none => ['N', 'U', 'L', 'L']
  | .identifier name => ['"'] ++ withDoubled '"' name.toList ++ ['"']
  | .number value => signedDecimal value.toInt

def rendered (parts : List SqlPart) : List Char := parts.flatMap SqlPart.rendering

theorem toDigitsDecimal {n : Nat} (positive : 0 < n) :
    Nat.toDigits 10 n = (Nat.digits 10 n).reverse.map Nat.digitChar := by
  induction n using Nat.strongRecOn with
  | ind n ih =>
    rw [Nat.toDigits_eq_if (by decide)]
    split
    · rw [Nat.digits_of_lt 10 n (by omega) (by assumption)]
      rfl
    · rw [Nat.digits_def' (by decide) positive, ih (n / 10) (by omega) (by omega),
        List.reverse_cons, List.map_append]
      rfl

theorem reprDecimal (n : Nat) : n.repr.toList = decimalDigits n := by
  rw [Nat.toList_repr, decimalDigits]
  split
  · rename_i zero
    rw [zero]
    rfl
  · exact toDigitsDecimal (by omega)

theorem toStringDecimal (value : Int) : (toString value).toList = signedDecimal value := by
  cases value with
  | ofNat n =>
    rw [signedDecimal, if_neg (by simp)]
    exact reprDecimal n
  | negSucc n =>
    have sign : toString (Int.negSucc n) = "-" ++ (n + 1).repr := rfl
    rw [signedDecimal, if_pos (Int.negSucc_lt_zero n), sign, String.toList_append, reprDecimal]
    rfl

theorem encodeDoubled {quote : UInt8} (ascii : quote.toNat < 0x80) (cs : List Char) :
    Utf8.encode (withDoubled (Char.ofNat quote.toNat) cs) =
      replaced (doubled quote) (Utf8.encode cs) := by
  have own : Utf8.encodeChar (Char.ofNat quote.toNat) = [quote] := Utf8.encodeSpelled (.one ascii)
  refine encodeReplaced (fun c => ?_) cs
  split
  · rename_i same
    simp [same, own, Utf8.encode, replaced, doubled]
  · rename_i other
    refine (replacedCharacter fun byte => ?_).symm
    by_cases same : byte = quote
    · subst same
      exact .inr ⟨ascii, other⟩
    · exact .inl (if_neg same)

theorem SqlPart.built (part : SqlPart) :
    Built (part.edit.apply ·) (Utf8.encode part.rendering) := by
  have quotes := @encodeDoubled 0x27 (by decide)
  have doubleQuotes := @encodeDoubled 0x22 (by decide)
  cases part with
  | statement sql => exact appendSqlBuilt sql
  | escaped text =>
    exact (appendSqlEscapedBuilt text).congr (fun _ => rfl) (quotes text.toList).symm
  | literal text =>
    refine (appendSqlStringBuilt text).congr (fun _ => rfl) ?_
    cases text with
    | none => decide
    | some text =>
      have whole := quotes text.toList
      simp only [Utf8.encode] at whole
      simp only [sqlLiteral, rendering, Utf8.ofString, Utf8.encode, List.flatMap_append]
      rw [← whole]
      rfl
  | identifier name =>
    refine (appendSqlIdentifierBuilt name).congr (fun _ => rfl) ?_
    have whole := doubleQuotes name.toList
    simp only [Utf8.encode] at whole
    simp only [rendering, Utf8.ofString, Utf8.encode, List.flatMap_append]
    rw [← whole]
    rfl
  | number value =>
    refine (appendSqlIntBuilt value).congr (fun _ => rfl) ?_
    rw [Utf8.ofString, toStringDecimal]
    rfl

theorem buildAppends (parts : List SqlPart) :
    Appends (build · parts) (Utf8.encode (rendered parts)) :=
  ((Built.each SqlPart.built parts).congr (fun _ => rfl) List.flatMap_assoc.symm).appends

theorem Appends.roomAfter {act : Blob → Except Abort Blob} {bytes : Bytes} {limit : Nat} {e : Blob}
    (appends : Appends act bytes) (room : RoomFor b limit) (done : act b = .ok e)
    (fits : e.used ≤ limit) : RoomFor e limit := by
  have sound := appends.sound b room.wellFormed
  rw [done] at sound
  have used := Written.used room.wellFormed sound
  obtain ⟨other, same, -, still⟩ := appends.within b limit room (used ▸ fits)
  cases done.symm.trans same
  exact still

theorem sqlTextOfPure {cs : List Char} (pure : b.formatted = false)
    (content : b.content = Utf8.encode cs) : b.sqlText = .ok (String.ofList cs) := by
  rw [sqlText, pure, content, Utf8.decodeEncode]
  rfl

theorem sqlTextOfMarked (marked : b.formatted = true) : b.sqlText = .error .formattedSql := by
  rw [sqlTextRefused, isPureSql, marked]
  rfl

theorem builtWritten {parts : List SqlPart} (done : build empty parts = .ok b) :
    Written empty (Utf8.encode (rendered parts)) b := by
  have written := (buildAppends parts).sound empty emptyWellFormed
  simp only [done] at written
  exact written

theorem builtReads {parts : List SqlPart} (done : build empty parts = .ok b) :
    b.sqlText = .ok (String.ofList (rendered parts)) :=
  sqlTextOfPure (builtWritten done).formatted (builtWritten done).content

theorem buildOnwards {parts : List SqlPart} {limit : Nat} (room : RoomFor b limit)
    (fits : b.used + (Utf8.encode (rendered parts)).length ≤ limit) : ∃ f, build b parts = .ok f := by
  obtain ⟨f, done, -⟩ := (buildAppends parts).within b limit room fits
  exact ⟨f, done⟩

theorem buildFits {parts : List SqlPart}
    (small : 2 * (Utf8.encode (rendered parts)).length + 200 < sizeCeiling) :
    ∃ b, build empty parts = .ok b :=
  buildOnwards (emptyRoom small) (Nat.zero_add _).le

def TextEdit.general : TextEdit → Bool
  | .writeText _ | .formatted _ | .html _ | .json _ | .argument .. => true
  | .sql _ | .sqlEscaped _ | .sqlString _ | .sqlIdentifier _ | .sqlInt _ | .sqlText
  | .addCarriageReturns | .newlinesOnly | .transcodeCodePage | .stripUtf8Mark | .normalize _ => false

theorem inscribesUnlessSilent {change : TextEdit} (general : change.general = true)
    (written : change ≠ .formatted []) : change.inscribes = true := by
  cases change with
  | formatted pieces =>
    cases pieces with
    | nil => exact absurd rfl written
    | cons => rfl
  | writeText | html | json | argument => rfl
  | _ => cases general

theorem inscriptionWritten {change : TextEdit} {e : Blob} (wf : b.WellFormed)
    (inscribes : change.inscribes = true) (done : change.apply b = .ok e) :
    ∃ act bytes, Built act bytes ∧ act b.mark = .ok e ∧ Written b.mark bytes e := by
  obtain ⟨act, bytes, made, acted⟩ := inscriptionBuilt wf inscribes done
  have after := made.appends.sound b.mark (markWellFormed wf)
  simp only [acted] at after
  exact ⟨act, bytes, made, acted, after⟩

theorem refusedBehindInscription {front back : List SqlPart} {change : TextEdit} {e f : Blob}
    (built : build empty front = .ok b) (inscribes : change.inscribes = true)
    (done : change.apply b = .ok e) (finished : build e back = .ok f) :
    f.sqlText = .error .formattedSql := by
  obtain ⟨act, bytes, -, -, after⟩ := inscriptionWritten (builtWritten built).wellFormed inscribes done
  have later := (buildAppends back).sound e after.wellFormed
  simp only [finished] at later
  exact sqlTextOfMarked (later.formatted.trans after.formatted)

theorem readBehindSilence {front back : List SqlPart} {f : Blob} (built : build empty front = .ok b)
    (finished : build b back = .ok f) :
    f.sqlText = .ok (String.ofList (rendered (front ++ back))) := by
  have whole : build empty (front ++ back) = build empty front >>= fun b => build b back :=
    List.foldlM_append
  rw [built] at whole
  exact builtReads (whole.trans finished)

theorem roomBehindGeneral {front : List SqlPart} {change : TextEdit} {e : Blob} {more : Nat}
    (built : build empty front = .ok b) (general : change.general = true)
    (done : change.apply b = .ok e) (small : 2 * (e.used + more) + 200 < sizeCeiling) :
    RoomFor e (e.used + more) := by
  have room (fits : b.used ≤ e.used + more) : RoomFor b (e.used + more) :=
    (buildAppends front).roomAfter (emptyRoom small) built fits
  by_cases silent : change = .formatted []
  · subst silent
    cases done
    exact room (Nat.le_add_right _ _)
  · have wf := (builtWritten built).wellFormed
    obtain ⟨act, bytes, made, acted, after⟩ :=
      inscriptionWritten wf (inscribesUnlessSilent general silent) done
    have used := after.used (markWellFormed wf)
    have fits : b.used ≤ e.used := used ▸ Nat.le_add_right _ _
    exact made.appends.roomAfter (room (Nat.le_add_right_of_le fits)).mark acted
      (Nat.le_add_right _ _)

/-- Parts of SQL put together in an empty blob are read back as they look, and they fit up to half
the ceiling. Behind one call of the formatter or of an escaper the rest still fits, and nothing is
read as SQL any more, be the text empty; but a call that hands over no text at all, not even an empty
one, leaves no mark, and the parts are read as if there had been no call. -/
theorem sqlPartsReadable (parts : List SqlPart) :
    (∀ b, build empty parts = .ok b → b.sqlText = .ok (String.ofList (rendered parts))) ∧
    (2 * (Utf8.encode (rendered parts)).length + 200 < sizeCeiling →
      ∃ b, build empty parts = .ok b) ∧
    ∀ front back change b e, front ++ back = parts → build empty front = .ok b →
      TextEdit.general change = true → change.apply b = .ok e →
      (∀ f, build e back = .ok f →
        (change ≠ .formatted [] → f.sqlText = .error .formattedSql) ∧
        (change = .formatted [] → f.sqlText = .ok (String.ofList (rendered parts)))) ∧
      (2 * (e.used + (Utf8.encode (rendered back)).length) + 200 < sizeCeiling →
        ∃ f, build e back = .ok f) := by
  refine ⟨fun _ => builtReads, buildFits, ?_⟩
  rintro front back change b e rfl built general done
  refine ⟨fun f finished => ⟨fun written => ?_, fun silent => ?_⟩, fun small => ?_⟩
  · exact refusedBehindInscription built (inscribesUnlessSilent general written) done finished
  · subst silent
    cases done
    exact readBehindSilence built finished
  · exact buildOnwards (roomBehindGeneral built general done small) (Nat.le_refl _)

def insertion : List SqlPart :=
  [.statement "INSERT INTO ", .identifier "t\"", .statement " VALUES(", .literal (some "it's"),
    .statement ",", .literal none, .statement ",", .number (-120), .statement ")"]

theorem insertionReadable :
    (∃ b, build empty insertion = .ok b ∧
      b.sqlText = .ok "INSERT INTO \"t\"\"\" VALUES('it''s',NULL,-120)") ∧
    ∃ b e f, build empty (insertion.take 4) = .ok b ∧ b.appendFormatted [""] = .ok e ∧
      build e (insertion.drop 4) = .ok f ∧ f.sqlText = .error .formattedSql := by
  obtain ⟨reads, fits, behind⟩ := sqlPartsReadable insertion
  constructor
  · have looks : String.ofList (rendered insertion) =
        "INSERT INTO \"t\"\"\" VALUES('it''s',NULL,-120)" := by decide +kernel
    obtain ⟨b, built⟩ := fits (by decide +kernel)
    exact ⟨b, built, looks ▸ reads b built⟩
  · have length : (build empty (insertion.take 4) >>= (appendFormatted · [""])).toOption.map
        Blob.used = some 32 := by decide +kernel
    cases written : build empty (insertion.take 4) >>= (appendFormatted · [""]) with
    | error cause =>
      rw [written] at length
      cases length
    | ok e =>
      rw [written] at length
      obtain ⟨b, built, done⟩ := okBind written
      obtain ⟨reads, room⟩ := behind _ _ (.formatted [""]) b e (List.take_append_drop 4 _) built
        rfl done
      have used : e.used = 32 := Option.some.inj length
      obtain ⟨f, finished⟩ := room (used ▸ by decide +kernel)
      exact ⟨b, e, f, built, done, finished, (reads f finished).1 nofun⟩

theorem silentFormatReadable : ∃ b e f, build empty [.statement "SELECT "] = .ok b ∧
    TextEdit.apply b (.formatted []) = .ok e ∧ build e [.literal (some "a")] = .ok f ∧
    f.sqlText = .ok "SELECT 'a'" := by
  have text : (build empty [.statement "SELECT "] >>= fun b => TextEdit.apply b (.formatted []) >>=
      fun e => build e [.literal (some "a")] >>= sqlText).toOption = some "SELECT 'a'" := by
    decide +kernel
  cases read : build empty [.statement "SELECT "] >>= fun b =>
      TextEdit.apply b (.formatted []) >>= fun e => build e [.literal (some "a")] >>= sqlText with
  | error cause =>
    rw [read] at text
    cases text
  | ok sql =>
    rw [read] at text
    obtain ⟨b, built, read⟩ := okBind read
    obtain ⟨e, formatted, read⟩ := okBind read
    obtain ⟨f, finished, read⟩ := okBind read
    exact ⟨b, e, f, built, formatted, finished, read.trans (congrArg _ (Option.some.inj text))⟩

end ArtifactVault.Blob
