import ArtifactVault.Proofs.Store.Contents

/-! A store in memory stands for a map: under each name of the map it has the envelope of that
content, and it has no other names. -/
namespace ArtifactVault.MemoryStore
open Store Keyed

theorem settingsInsertNew (s : MemoryStore) (id : ArtifactId) (envelope : Bytes) :
    (s.insertNew id envelope).settings = s.settings := by
  unfold insertNew
  split
  · rfl
  · rfl

section
variable {s : MemoryStore}

theorem envelopeInsertNew (id other : ArtifactId) (envelope : Bytes) :
    (s.insertNew id envelope).envelope? other =
      (s.envelope? other).or (if other = id then some envelope else none) := by
  unfold insertNew
  cases there : s.contains id with
  | true =>
    rw [if_pos rfl]
    by_cases same : other = id
    · obtain ⟨found, held⟩ := Option.isSome_iff_exists.mp there
      rw [same, held, Option.some_or]
    · rw [if_neg same, Option.or_none]
  | false =>
    have absent : s.envelope? id = none := Option.not_isSome_iff_eq_none.mp (Bool.eq_false_iff.mp there)
    rw [if_neg Bool.false_ne_true, envelope?, lookupCons]
    by_cases same : other = id
    · rw [if_pos same, if_pos same, same, absent, Option.none_or]
    · rw [if_neg same, if_neg same, Option.or_none]
      rfl

def Once (s : MemoryStore) : Prop := (s.envelopes.map (·.1)).Nodup

theorem insertNewOnce (once : s.Once) (id : ArtifactId) (envelope : Bytes) :
    (s.insertNew id envelope).Once := by
  unfold insertNew
  split
  · exact once
  · rename_i absent
    refine List.nodup_cons.mpr ⟨?_, once⟩
    rw [foundIff]
    exact absent

theorem deleteOnce (once : s.Once) (id : ArtifactId) : (s.delete id).2.Once :=
  once.sublist (List.filter_sublist.map _)

end

section
variable [Zlib.Encoder] {s : MemoryStore} {m : Contents}

structure Stands (s : MemoryStore) (m : Contents) : Prop where
  envelopes : ∀ id, s.envelope? id = (m.lookup id).map fun content => Envelope.envelopeOf [content]
  once : s.Once

theorem standsEmpty (settings : StoreSettings) : Stands (.empty settings) ∅ :=
  ⟨fun _ => rfl, List.nodup_nil⟩

theorem Stands.contains (stands : Stands s m) (id : ArtifactId) : s.contains id = decide (id ∈ m) := by
  rw [MemoryStore.contains, stands.envelopes, Option.isSome_map, Bool.eq_iff_iff,
    Finmap.lookup_isSome, decide_eq_true_iff]

theorem Stands.size (stands : Stands s m) : s.size = m.keys.card := by
  have keys : (s.envelopes.map (·.1)).toFinset = m.keys := by
    ext id
    have there := stands.contains id
    rw [MemoryStore.contains, Bool.eq_iff_iff, decide_eq_true_iff] at there
    rw [List.mem_toFinset, foundIff, Finmap.mem_keys]
    exact there
  rw [← keys, List.toFinset_card_of_nodup stands.once, List.length_map]
  rfl

theorem Stands.insertNew (stands : Stands s m) (id : ArtifactId) (content : Bytes) :
    Stands (s.insertNew id (Envelope.envelopeOf [content])) (m.add id content) := by
  refine ⟨fun other => ?_, insertNewOnce stands.once _ _⟩
  rw [envelopeInsertNew, stands.envelopes, Contents.add]
  by_cases same : other = id
  · subst same
    rw [if_pos rfl]
    by_cases present : other ∈ m
    · obtain ⟨held, found⟩ := Option.isSome_iff_exists.mp (Finmap.lookup_isSome.mpr present)
      rw [if_pos present, found]
      rfl
    · rw [if_neg present, Finmap.lookup_insert, Finmap.lookup_eq_none.mpr present]
      rfl
  · rw [if_neg same, Option.or_none]
    split
    · rfl
    · rw [Finmap.lookup_insert_of_ne _ same]

theorem Stands.delete (stands : Stands s m) (id : ArtifactId) :
    Stands (s.delete id).2 (m.erase id) := by
  refine ⟨fun other => ?_, deleteOnce stands.once id⟩
  rw [MemoryStore.delete, envelope?, lookupFilter]
  by_cases same : other = id
  · rw [if_pos same, same, Finmap.lookup_erase]
    rfl
  · rw [if_neg same, Finmap.lookup_erase_ne same]
    exact stands.envelopes other

theorem Stands.get [Zlib.LawfulEncoder] (stands : Stands s m) (faithful : Faithful m)
    (id : ArtifactId) : s.get id = .ok (.ok ((m.lookup id).map Blob.held)) := by
  unfold MemoryStore.get
  rw [stands.envelopes]
  cases found : m.lookup id with
  | none => rfl
  | some content =>
    have fits := faithful.fits id content found
    have below : ¬ sizeCeiling ≤ (Envelope.envelopeOf [content]).length := by
      have wrapped := fits.wrapped
      omega
    have whole : (⟨Envelope.envelopeOf [content], .borrowed, (Envelope.envelopeOf [content]).length,
        0, false⟩ : Blob).content = Envelope.envelopeOf [content] := List.take_length
    have opened := unpackEq (faithful.named id content found) fits whole s.settings
    simp only [Option.map_some, Blob.borrow, checkCeiling, if_neg below, bind, Except.bind, pure,
      Except.pure, opened]
    rfl

end

theorem memoryFollows [Zlib.Encoder] [Zlib.LawfulEncoder] (settings : StoreSettings)
    (files : FileTree) : Follows settings.algorithm fun state m =>
      ∃ s, state = ⟨.memory s, files⟩ ∧ s.settings = settings ∧ Stands s m := by
  rintro _ m call ⟨s, rfl, rfl, stands⟩ faithful admissible
  have got := fun id => stands.get faithful id
  cases call with
  | put content =>
    refine ⟨⟨.memory (s.insertNew (.compute s.settings.algorithm content.content)
      (Envelope.envelopeOf [content.content])), files⟩, ?_, _, rfl, settingsInsertNew _ _ _,
      stands.insertNew _ _⟩
    simp only [State.call, callMemory, MemoryStore.put, packEq admissible, bind, Except.bind,
      pure, Except.pure, Blob.heldContent]
    rfl
  | get id =>
    refine ⟨_, ?_, s, rfl, rfl, stands⟩
    simp only [State.call, callMemory, got, bind, Except.bind]
    rfl
  | getRequired id =>
    refine ⟨_, ?_, s, rfl, rfl, stands⟩
    simp only [State.call, callMemory, got, bind, Except.bind, Contents.call, Contents.required]
    cases m.lookup id with
    | none => rfl
    | some content => rfl
  | contains id =>
    refine ⟨_, ?_, s, rfl, rfl, stands⟩
    simp only [State.call, callMemory, stands.contains]
    rfl
  | delete id =>
    refine ⟨⟨.memory (s.delete id).2, files⟩, ?_, _, rfl, rfl, stands.delete id⟩
    simp only [State.call, callMemory, MemoryStore.delete, stands.contains]
    rfl
  | size =>
    refine ⟨_, ?_, s, rfl, rfl, stands⟩
    simp only [State.call, callMemory, stands.size]
    rfl
  | isEmpty =>
    refine ⟨_, ?_, s, rfl, rfl, stands⟩
    simp only [State.call, callMemory, stands.size]
    rfl

end ArtifactVault.MemoryStore
