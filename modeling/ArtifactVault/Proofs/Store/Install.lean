import ArtifactVault.Proofs.FileTree.Changes
import ArtifactVault.Proofs.Store.Directory

/-! Putting a new artifact into a store of files. The envelope is written at a place of its own and
then moved, so all that is left of it is one file more, at the place of its name. -/
namespace ArtifactVault.DirectoryStore
open FileTree Store

section
variable [Zlib.Encoder] {origin t : FileTree} {root : Bytes} {base : Place}
  {m : Contents} {id : ArtifactId}

theorem Stands.makeShard (stands : Stands origin t base m) (vacant : Vacant origin root base)
    (id : ArtifactId) : ∃ now, t.makeDirectories (join root (shard id)) = (.ok (), now) ∧
      Stands origin now base m ∧ now.node? (base ++ [shard id]) = some .directory := by
  rcases stands.housed.makeShard vacant id with ⟨-, made⟩ | ⟨there, made⟩
  · have node := @nodeInsert t _ .directory (belowNotTop (belowCons base (shard id) []))
    refine ⟨_, made, stands.newShard node (onceInsert stands.once), ?_⟩
    rw [node, if_pos rfl]
  · exact ⟨t, made, stands, there⟩

theorem Stands.noTemporary (stands : Stands origin t base m) (id : ArtifactId) (names : Place) :
    t.node? (temporaryPlace base id ++ names) = none := by
  rw [temporaryPlace, List.append_assoc]
  by_contra found
  obtain ⟨other, same⟩ := stands.nothingElse _ _ _ found
  have rest := (List.cons.inj (List.append_cancel_left same)).2
  exact temporaryNoLeaf 0 other (List.cons.inj rest).1

theorem Stands.freeTemporary (stands : Stands origin t base m) (vacant : Vacant origin root base)
    (there : t.node? (base ++ [shard id]) = some .directory) :
    t.lookup .itself (join (join root (shard id)) (temporaryName 0)) = .error .notFound := by
  have fresh : t.node? (temporaryPlace base id) = none := by
    have unused := stands.noTemporary id []
    rwa [List.append_nil] at unused
  have looked := resolveTemporary vacant (stands.housed.keeps vacant).ways there (by rw [fresh]; exact nofun)
  simp only [FileTree.lookup, looked, bind, Except.bind, fresh]
  rfl

theorem Stands.free (stands : Stands origin t base m) (absent : id ∉ m) :
    t.node? (placeOf base id) = none := by
  rw [stands.artifacts, Finmap.lookup_eq_none.mpr absent]
  rfl

theorem Stands.replaced (stands : Stands origin t base m) (content : Bytes)
    (there : t.node? (base ++ [shard id]) = some .directory) :
    Stands origin (t.replaced (temporaryPlace base id) (placeOf base id)
      (Envelope.envelopeOf [content])) base (m.insert id content) := by
  have source := temporaryBelow base id
  have target := belowNotTop (placeBelow base id)
  have unused := stands.noTemporary id
  refine stands.update ?_ (Finmap.lookup_insert _)
    (fun other differs => Finmap.lookup_insert_of_ne _ differs) (fun _ => there) ?_
  · exact nodeReplacedFresh (belowNotTop source) target (temporaryApart base id) unused
  · exact onceReplaced stands.once source target unused

theorem Stands.install (stands : Stands origin t base m) (vacant : Vacant origin root base)
    (absent : id ∉ m) (content : Bytes) :
    ∃ now, install t (join root (shard id)) (join (join root (shard id)) (leaf id))
        (Envelope.envelopeOf [content]) = (.ok (), now) ∧
      Stands origin now base (m.insert id content) := by
  obtain ⟨made, shardMade, stands, there⟩ := stands.makeShard vacant id
  have keeps := stands.housed.keeps vacant
  have source := belowNotTop (temporaryBelow base id)
  have fresh : made.node? (temporaryPlace base id) = none := by
    have unused := stands.noTemporary id []
    rwa [List.append_nil] at unused
  let full := made.written (temporaryPlace base id) (Envelope.envelopeOf [content])
  have fullKeeps : made.Keeps full := keepsWritten fresh
  have file : full.node? (temporaryPlace base id) = some (.file (Envelope.envelopeOf [content])) := by
    rw [nodeWritten source, if_pos rfl]
  have free : full.node? (placeOf base id) = none := by
    rw [nodeWritten source, if_neg (temporaryApart base id).symm]
    exact stands.free absent
  have looked := resolveTemporary vacant keeps.ways there (by rw [fresh]; exact nofun)
  have leaves := resolveTemporary vacant (keeps.trans fullKeeps).ways (fullKeeps _ _ there)
    (by rw [file]; exact nofun) .itself
  have checked : checkPath (join (join root (shard id)) (leaf id)) = .ok () :=
    vacant.checkIn (leafName id) (lengthLeafBounds id).2
  have arrives : full.resolve .itself (join (join root (shard id)) (leaf id)) =
      .ok (placeOf base id) :=
    resolvePath vacant.way (keeps.trans fullKeeps).ways (leafName id) checked
      (fullKeeps _ _ there) (by rw [← placeOf, free]; exact nofun)
  have moved := renameFile checked leaves arrives (temporaryApart base id) file
  rw [free, if_neg nofun] at moved
  have unused := stands.freeTemporary vacant there
  have created : made.createFile (join (join root (shard id)) (temporaryName 0)) =
      .ok (temporaryPlace base id, made.insert (temporaryPlace base id) (.file [])) := by
    simp only [createFile, looked, bind, Except.bind, fresh]
    rfl
  refine ⟨_, ?_, stands.replaced content there⟩
  simp only [DirectoryStore.install, shardMade, freshFirst unused, created, writeFresh source]
  rw [persist, ← written, moved]
  rfl

end

end ArtifactVault.DirectoryStore
