import Mathlib.Logic.Relation
import ArtifactVault.Proofs.Blob.Unmarked

/-! Windows-1252 made UTF-8 where it stands. The growth that is counted first is the growth that the
rewriting uses up, so the place it writes to never falls below the bytes it has yet to read. -/
namespace ArtifactVault.Blob
variable {b : Blob} {expand : UInt8 → Bytes}

structure Pass where
  store : Array UInt8
  unread : Nat
  index : Nat

def Pass.result (expand : UInt8 → Bytes) (p : Pass) : Except Abort (Array UInt8) :=
  expandFrom expand p.store p.unread p.index

inductive Pass.Moves (expand : UInt8 → Bytes) : Pass → Pass → Prop where
  | move {store written : Array UInt8} {unread index place : Nat} {byte : UInt8}
      (apart : unread + 1 < index) (read : readAt store unread = .ok byte)
      (back : stepBack index (expand byte).length = .ok place)
      (wrote : writeAt store place (expand byte) = .ok written) :
      Moves expand ⟨store, unread + 1, index⟩ ⟨written, unread, place⟩

theorem resultReached {p : Pass} {done : Array UInt8} (ends : p.result expand = .ok done) :
    ∃ last, Relation.ReflTransGen (Pass.Moves expand) p last ∧ last.index ≤ last.unread ∧
      last.store = done := by
  obtain ⟨store, unread, index⟩ := p
  induction unread generalizing store index with
  | zero =>
    rw [Pass.result, expandFrom] at ends
    split at ends
    · cases ends
    · cases ends
      exact ⟨_, .refl, Nat.le_of_not_lt (by assumption), rfl⟩
  | succ unread ih =>
    rw [Pass.result, expandFrom] at ends
    split at ends
    · cases ends
      exact ⟨_, .refl, by assumption, rfl⟩
    · rename_i apart
      obtain ⟨byte, read, ends⟩ := okBind ends
      obtain ⟨place, back, ends⟩ := okBind ends
      obtain ⟨written, wrote, ends⟩ := okBind ends
      obtain ⟨last, reaches, ended⟩ := ih written place ends
      exact ⟨last, .head (.move (Nat.lt_of_not_le apart) read back wrote) reaches, ended⟩

theorem writeAtBehind {store written : Array UInt8} {index n : Nat} {bytes : Bytes}
    (wrote : writeAt store index bytes = .ok written) (behind : n ≤ index) :
    written.toList.take n = store.toList.take n := by
  induction bytes generalizing store index with
  | nil =>
    cases wrote
    rfl
  | cons byte bytes ih =>
    rw [writeAt] at wrote
    split at wrote
    · rw [ih wrote (Nat.le_succ_of_le behind), Array.toList_setIfInBounds,
        List.take_set_of_le behind]
    · cases wrote

theorem readAtFound {store : Array UInt8} {index : Nat} {byte : UInt8}
    (read : readAt store index = .ok byte) : store.toList[index]? = some byte := by
  rw [Array.getElem?_toList]
  unfold readAt at read
  split at read
  · cases read
    assumption
  · cases read

structure Pass.Spares (expand : UInt8 → Bytes) (content : Bytes) (p : Pass) : Prop where
  unread_le : p.unread ≤ content.length
  front : p.store.toList.take p.unread = content.take p.unread
  index : p.index = ((content.take p.unread).flatMap expand).length

theorem Pass.Spares.apart {content : Bytes} {p : Pass} (spares : p.Spares expand content)
    (expands : Expands expand) : p.unread ≤ p.index := by
  have longer := expands.lengthLe (content.take p.unread)
  rw [spares.index]
  rwa [List.length_take, Nat.min_eq_left spares.unread_le] at longer

theorem Pass.Moves.spares {content : Bytes} {p q : Pass} (expands : Expands expand)
    (moves : p.Moves expand q) (spares : p.Spares expand content) : q.Spares expand content := by
  cases moves with
  | @move store written unread index place byte apart read back wrote =>
    have inside : unread + 1 ≤ content.length := spares.unread_le
    have front : store.toList.take (unread + 1) = content.take (unread + 1) := spares.front
    have kept : store.toList.take unread = content.take unread := by
      have shorter := congrArg (List.take unread) front
      rwa [List.take_take, List.take_take, Nat.min_eq_left (Nat.le_succ _)] at shorter
    have here : content.take (unread + 1) = content.take unread ++ [byte] := by
      rw [← front, ← kept, List.take_add_one, readAtFound read]
      rfl
    have length := spares.index
    simp only [here, List.flatMap_append, List.flatMap_singleton, List.length_append] at length
    have stepped : place = ((content.take unread).flatMap expand).length := by
      rw [stepBack, if_pos (by omega)] at back
      cases back
      omega
    have ahead := expands.lengthLe (content.take unread)
    rw [List.length_take, Nat.min_eq_left (by omega), ← stepped] at ahead
    refine ⟨Nat.le_of_succ_le inside, ?_, stepped⟩
    rw [writeAtBehind wrote ahead]
    exact kept

theorem reachedSpares {content : Bytes} {p q : Pass} (expands : Expands expand)
    (reaches : Relation.ReflTransGen (Pass.Moves expand) p q) (spares : p.Spares expand content) :
    q.Spares expand content := by
  induction reaches with
  | refl => exact spares
  | tail _ moves ih => exact moves.spares expands ih

theorem charValue : ∀ byte, (CodePage.char byte).toNat = CodePage.codePoint byte :=
  Byte.everyByte (by decide +kernel)

theorem pointsOfPage (bytes : Bytes) :
    (bytes.map CodePage.char).map Char.toNat = bytes.map CodePage.codePoint := by
  rw [List.map_map]
  exact congrArg (List.map · bytes) (funext charValue)

theorem textOfPage {text : List Char} {bytes : Bytes}
    (points : text.map Char.toNat = bytes.map CodePage.codePoint) :
    text = bytes.map CodePage.char :=
  (List.map_inj_right fun _ _ => Char.toNat_inj.mp).mp (points.trans (pointsOfPage bytes).symm)

def pageByte (point : Nat) : UInt8 :=
  if point ∈ CodePage.high then UInt8.ofNat (0x80 + CodePage.high.toList.idxOf point)
  else UInt8.ofNat point

theorem pageByteOf : ∀ byte, pageByte (CodePage.codePoint byte) = byte :=
  Byte.everyByte (by decide +kernel)

theorem codePointsInjective {bytes others : Bytes}
    (same : bytes.map CodePage.codePoint = others.map CodePage.codePoint) : bytes = others := by
  have back := congrArg (List.map pageByte) same
  simpa only [List.map_map, Function.comp_def, pageByteOf, List.map_id'] using back

def pageGrowth (b : Blob) : Nat := (b.content.map CodePage.growth).foldr (· + ·) 0

def ReadsFirst (expand : UInt8 → Bytes) (content : Bytes) (start : Pass) (left : Bytes) : Prop :=
  (∀ p, Relation.ReflTransGen (Pass.Moves expand) start p →
    p.unread ≤ p.index ∧ p.store.toList.take p.unread = content.take p.unread) ∧
  ∃ last, Relation.ReflTransGen (Pass.Moves expand) start last ∧ last.index ≤ last.unread ∧
    last.store.toList = left

structure Transcoded (b : Blob) (text : List Char) (e : Blob) : Prop where
  rewritten : Rewritten b (Utf8.encode text) e
  valid : Utf8.isValid e.content = true
  reads : Utf8.decode e.content = .ok text
  grown : e.content.length = b.content.length + pageGrowth b
  spared : pageGrowth b ≠ 0 → ∃ g, b.growInPlace (b.used + pageGrowth b) = .ok g ∧
    ReadsFirst codePageBytes b.content ⟨g.store.toArray, b.used, b.used + pageGrowth b⟩ e.store

theorem expandReadsFirst {growth : Nat} {e : Blob} (wf : b.WellFormed) (expands : Expands expand)
    (length : (b.content.flatMap expand).length = b.used + growth)
    (done : b.expandInPlace growth expand = .ok e) :
    ∃ g, b.growInPlace (b.used + growth) = .ok g ∧
      ReadsFirst expand b.content ⟨g.store.toArray, b.used, b.used + growth⟩ e.store := by
  have live := lengthContent wf
  have grows := growInPlaceAsking wf (Nat.le_add_right b.used growth)
  obtain ⟨g, grown, done⟩ := okBind done
  rw [grown] at grows
  obtain ⟨store, owned, done⟩ := okBind done
  rw [ownedStoreOk grows.1.owned] at owned
  cases owned
  obtain ⟨left, rewrote, same⟩ := okBind done
  cases same
  have spares : (⟨g.store.toArray, b.used, b.used + growth⟩ : Pass).Spares expand b.content :=
    ⟨Nat.le_of_eq live.symm, by rw [← live, List.take_length, live]; exact grows.1.front,
      by rw [← live, List.take_length, length, live]⟩
  obtain ⟨last, reaches, met, store⟩ :=
    @resultReached expand ⟨g.store.toArray, b.used, b.used + growth⟩ _ rewrote
  refine ⟨g, grown, fun p reached => ?_, last, reaches, met, congrArg Array.toList store⟩
  have kept := reachedSpares expands reached spares
  exact ⟨kept.apart expands, kept.front⟩

theorem transcodedText {e : Blob} (wf : b.WellFormed) (done : b.transcodeCodePage = .ok e) :
    Transcoded b (b.content.map CodePage.char) e := by
  have asking := transcodeCodePageAsking wf
  rw [done, transcodedEq] at asking
  have rewritten : Rewritten b (Utf8.encode (b.content.map CodePage.char)) e := asking
  have length := lengthTranscoded b.content
  refine ⟨rewritten, ?_, ?_, ?_, fun grows => ?_⟩
  · rw [rewritten.content, Utf8.validIff]
    exact ⟨_, rfl⟩
  · rw [rewritten.content, Utf8.decodeEncode]
  · rw [rewritten.content, ← transcodedEq, length]
    rfl
  · rw [lengthContent wf] at length
    have expanded : b.transcodeCodePage = b.expandInPlace (pageGrowth b) codePageBytes := if_neg grows
    rw [expanded] at done
    exact expandReadsFirst wf codePageExpands length done

theorem transcodeSpells (wf : b.WellFormed) :
    ∃ text : List Char, text.map Char.toNat = b.content.map CodePage.codePoint ∧
      text.length = b.content.length ∧
      (match b.transcodeCodePage with
        | .ok e => Transcoded b text e
        | .error _ => sizeCeiling ≤ (Utf8.encode text).length + 1) ∧
      ∀ other e f : Blob, other.WellFormed → b.transcodeCodePage = .ok e →
        other.transcodeCodePage = .ok f → e.content = f.content → b.content = other.content := by
  refine ⟨b.content.map CodePage.char, pointsOfPage _, List.length_map _, ?_,
    fun other e f whole done next same => ?_⟩
  · have asking := transcodeCodePageAsking wf
    rw [transcodedEq] at asking
    cases done : b.transcodeCodePage with
    | ok e => exact transcodedText wf done
    | error cause =>
      rw [done] at asking
      obtain ⟨request, size, -, reached, asked⟩ := asking
      exact Nat.le_trans reached asked
  · have first := (transcodedText wf done).rewritten.content
    have second := (transcodedText whole next).rewritten.content
    have texts := Utf8.encodeInjective (first.symm.trans (same.trans second))
    have same := congrArg (List.map Char.toNat) texts
    rw [pointsOfPage, pointsOfPage] at same
    exact codePointsInjective same

theorem euroSpelled :
    let borrowed : Blob := ⟨[0x80, 0xe9, 0x81, 0x7a], .borrowed, 4, 1, false⟩
    let owned : Blob := ⟨[0x80, 0xe9, 0x81, 0x7a, 0xff], .owned, 4, 0, true⟩
    ∃ e f, borrowed.transcodeCodePage = .ok e ∧ owned.transcodeCodePage = .ok f ∧
      e.content = [0xe2, 0x82, 0xac, 0xc3, 0xa9, 0xc2, 0x81, 0x7a] ∧ e.content = f.content ∧
      borrowed.content = owned.content := by
  intro borrowed owned
  have spelled : Utf8.encode ([0x80, 0xe9, 0x81, 0x7a].map CodePage.char) =
      [0xe2, 0x82, 0xac, 0xc3, 0xa9, 0xc2, 0x81, 0x7a] := by decide
  have transcodes {b : Blob} (wf : b.WellFormed) (content : b.content = [0x80, 0xe9, 0x81, 0x7a]) :
      ∃ e, b.transcodeCodePage = .ok e ∧
        e.content = [0xe2, 0x82, 0xac, 0xc3, 0xa9, 0xc2, 0x81, 0x7a] := by
    obtain ⟨text, points, -, outcome, -⟩ := transcodeSpells wf
    rw [textOfPage points, content] at outcome
    cases done : b.transcodeCodePage with
    | ok e =>
      rw [done] at outcome
      exact ⟨e, rfl, outcome.rewritten.content.trans spelled⟩
    | error cause =>
      rw [done] at outcome
      have reached : sizeCeiling ≤
          (Utf8.encode ([0x80, 0xe9, 0x81, 0x7a].map CodePage.char)).length + 1 := outcome
      exact absurd reached (by decide)
  have borrowedWf : borrowed.WellFormed := ⟨by decide, by decide, by decide⟩
  have ownedWf : owned.WellFormed := ⟨by decide, by decide, by decide⟩
  obtain ⟨e, done, first⟩ := transcodes borrowedWf rfl
  obtain ⟨f, next, second⟩ := transcodes ownedWf rfl
  have same := first.trans second.symm
  obtain ⟨-, -, -, -, injective⟩ := transcodeSpells borrowedWf
  exact ⟨e, f, done, next, first, same, injective owned e f ownedWf done next same⟩

end ArtifactVault.Blob
