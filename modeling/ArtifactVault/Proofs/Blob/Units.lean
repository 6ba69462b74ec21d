import ArtifactVault.Proofs.Blob.Unmarked
import ArtifactVault.Proofs.Text.Surrogates

/-! Marked UTF-16 in blobs. Its units are brought into one order where they stand and leave the blob
as text, so neither their order nor what held them can be told from the result. -/
namespace ArtifactVault.Blob
variable {b : Blob} {reversed : Bool} {us : List Nat}

structure Carries (b : Blob) (reversed : Bool) (us : List Nat) : Prop where
  wellFormed : b.WellFormed
  content : b.content = Utf16.marked reversed us
  room : 2 * b.used + 1 < sizeCeiling

def Normalizes (b : Blob) (text : List Char) : Prop :=
  ∀ assumeCodePage, ∃ e, b.normalize assumeCodePage = .ok e ∧ Fresh (Utf8.encode text) e ∧
    Utf8.isValid e.content = true ∧ Utf8.decode e.content = .ok text

theorem markedUnits (reversed : Bool) (us : List Nat) :
    hasUtf8Mark (Utf16.marked reversed us) = false := by
  cases reversed with
  | false => rfl
  | true => rfl

theorem textOfMarked (small : ∀ u ∈ us, u < 0x10000) :
    Utf16.toUtf8 (Utf16.unmarked reversed (Utf16.marked reversed us)) =
      Utf8.encode (Utf16.decode us) := by
  rw [Utf16.unmarkedMarked, Utf16.toUtf8, Utf16.unitsToBytes us small]

theorem Carries.normalizes (carries : Carries b reversed us) (small : ∀ u ∈ us, u < 0x10000) :
    Normalizes b (Utf16.decode us) := by
  intro assumeCodePage
  have unmarked : hasUtf8Mark b.content = false := by rw [carries.content, markedUnits]
  have units : Utf16.markReversed? b.content = some reversed := by
    rw [carries.content, Utf16.markedReversed]
  have text : Utf16.toUtf8 (Utf16.unmarked reversed b.content) =
      Utf8.encode (Utf16.decode us) := by rw [carries.content, textOfMarked small]
  have asking : Asking (2 * b.used + 1) (Fresh (Utf8.encode (Utf16.decode us)))
      (b.normalize assumeCodePage) := by
    refine normalizeUnmarked carries.wellFormed unmarked (by omega) fun {u} whole same used => ?_
    rw [← same] at units text
    have decoded := decodeUnitsAsking whole units assumeCodePage
    rwa [used, text] at decoded
  obtain ⟨e, done, fresh⟩ := asking.below carries.room
  refine ⟨e, done, fresh, ?_, ?_⟩
  · rw [fresh.content, Utf8.validIff]
    exact ⟨_, rfl⟩
  · rw [fresh.content, Utf8.decodeEncode]

theorem encodeSmall (cs : List Char) : ∀ u ∈ Utf16.encode cs, u < 0x10000 := by
  intro u mem
  obtain ⟨c, -, units⟩ := List.mem_flatMap.mp mem
  by_cases short : c.toNat < 0x10000
  · rw [Utf16.encodeShort short, List.mem_singleton] at units
    exact units ▸ short
  · obtain ⟨high, low, pair, first, second, -⟩ := Utf16.pairOf short
    rw [Utf16.isHighIff] at first
    rw [Utf16.isLowIff] at second
    rw [pair, List.mem_cons, List.mem_singleton] at units
    omega

theorem unitsNormalize :
    (∀ (cs : List Char) (b : Blob) (reversed : Bool), Carries b reversed (Utf16.encode cs) →
      Normalizes b cs) ∧
    ∀ us : List UInt16, ∃ text, Utf16.Spells (us.map UInt16.toNat) text ∧
      ∀ (b : Blob) (reversed : Bool), Carries b reversed (us.map UInt16.toNat) →
        Normalizes b text := by
  refine ⟨fun cs b reversed carries => ?_, fun us => ?_⟩
  · have text := carries.normalizes (encodeSmall cs)
    rwa [Utf16.decodeSpelled (Utf16.spelledEncode cs)] at text
  · have small : ∀ u ∈ us.map UInt16.toNat, u < 0x10000 := by
      intro u mem
      obtain ⟨unit, -, rfl⟩ := List.mem_map.mp mem
      exact unit.toNat_lt
    exact ⟨_, Utf16.decodeSpells _ small, fun b reversed carries => carries.normalizes small⟩

theorem brokenPairNormalizes :
    let text := [Char.ofNat 0x1f600, '\uFFFD']
    Normalizes ⟨[0xff, 0xfe, 0x3d, 0xd8, 0x00, 0xde, 0x3d, 0xd8], .borrowed, 8, 0, false⟩ text ∧
      Normalizes ⟨[0xfe, 0xff, 0xd8, 0x3d, 0xde, 0x00, 0xd8, 0x3d, 0], .owned, 8, 3, true⟩ text := by
  intro text
  obtain ⟨read, spells, carried⟩ := unitsNormalize.2 [0xd83d, 0xde00, 0xd83d]
  have last (v : Nat) (same : [].head? = some v) : Utf16.isLow v = false := by cases same
  have same : read = text := by
    rw [← Utf16.decodeSpelled spells]
    exact Utf16.decodeSpelled (.char (Char.ofNat 0x1f600) (.highAlone rfl last .nil))
  rw [← same]
  exact ⟨carried _ false ⟨⟨by decide, by decide, by decide⟩, by decide, by decide⟩,
    carried _ true ⟨⟨by decide, by decide, by decide⟩, by decide, by decide⟩⟩

end ArtifactVault.Blob
