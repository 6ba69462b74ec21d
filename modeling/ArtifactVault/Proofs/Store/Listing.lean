import ArtifactVault.Proofs.Store.Directory

/-! Counting the artifacts of a store of files. The names that are found in the shards are those of
the ids of the map, and each is found once: in the shard of its own first digits. -/
namespace ArtifactVault.DirectoryStore
open FileTree Store

theorem checkEach {entries : List (Bytes × Node)} {check : Bytes × Node → Except StoreError Unit}
    (fine : ∀ entry ∈ entries, check entry = .ok ()) : entries.forM check = .ok () := by
  induction entries with
  | nil => rfl
  | cons entry entries ih =>
    rw [List.forM, fine entry (by simp)]
    exact ih fun later mem => fine later (by simp [mem])

section
variable {t : FileTree} {base : Place}

def shardEntries (t : FileTree) (base : Place) : List (Bytes × Node) :=
  (t.children base).filter fun entry => entry.2 = .directory

def allNames (t : FileTree) (base : Place) : List Bytes :=
  (shardEntries t base).flatMap fun entry => hashNames t base entry.1

theorem shardEntryIff (once : t.OnceBelow base) {entry : Bytes × Node} :
    entry ∈ shardEntries t base ↔ entry.2 = .directory ∧ t.node? (base ++ [entry.1]) = some entry.2 := by
  rw [shardEntries, List.mem_filter, decide_eq_true_iff, and_comm, childIff,
    entryIff once (belowCons base _ _)]

theorem sizeListed {s : DirectoryStore} (once : t.OnceBelow base)
    (resolved : t.resolve .target s.root = .ok base) (directory : t.node? base = some .directory)
    (passes : ∀ name, t.node? (base ++ [name]) = some .directory →
      checkPath (join s.root name) = .ok ()) :
    s.size t = .ok (allNames t base).length := by
  have checked : (shardEntries t base).forM
      (fun entry => liftError (checkPath (join s.root entry.1))) = .ok () := by
    refine checkEach fun entry mem => ?_
    obtain ⟨shard, found⟩ := (shardEntryIff once).mp mem
    rw [passes _ (shard ▸ found)]
    rfl
  simp only [DirectoryStore.size, resolved, liftError, bind, Except.bind, directory]
  rw [← shardEntries]
  simp only [liftError] at checked
  rw [checked]
  rfl

end

section
variable [Zlib.Encoder] {origin t : FileTree} {root : Bytes} {base : Place}
  (settings : StoreSettings) {m : Contents}

theorem Stands.shardEntry (stands : Stands origin t base m) {entry : Bytes × Node} :
    entry ∈ shardEntries t base ↔ entry.2 = .directory ∧ t.node? (base ++ [entry.1]) = some entry.2 :=
  shardEntryIff stands.once

theorem Stands.hashName (stands : Stands origin t base m) {name first : Bytes} :
    name ∈ hashNames t base first ↔ ∃ id ∈ m, name = id.nameBytes ∧ first = shard id := by
  simp only [hashNames, List.mem_filter, List.mem_map]
  constructor
  · rintro ⟨⟨⟨next, node⟩, child, rfl⟩, -⟩
    have below : Below base (base ++ [first] ++ [next]) := by
      rw [← List.append_cons]
      exact belowCons base _ _
    have found := (entryIff stands.once below).mp (childIff.mp child)
    rw [← List.append_cons] at found
    obtain ⟨id, place⟩ := stands.nothingElse first next [] (by rw [found]; exact nofun)
    obtain ⟨rfl, rest⟩ := List.cons.inj (List.append_cancel_left place)
    obtain ⟨rfl, -⟩ := List.cons.inj rest
    refine ⟨id, ?_, wholeName id, rfl⟩
    rw [← placeOf, stands.artifacts] at found
    obtain ⟨content, there, -⟩ := Option.map_eq_some_iff.mp found
    exact Finmap.mem_of_lookup_eq_some there
  · rintro ⟨id, mem, rfl, rfl⟩
    obtain ⟨content, there⟩ := Finmap.mem_iff.mp mem
    have found := stands.artifacts id
    rw [there, placeOf, List.append_cons, Option.map_some] at found
    have below : Below base (base ++ [shard id] ++ [leaf id]) := by
      rw [← List.append_cons]
      exact belowCons base _ _
    refine ⟨⟨(leaf id, artifact content), ?_, wholeName id⟩, ?_⟩
    · exact childIff.mpr ((entryIff stands.once below).mpr found)
    · rw [id.hashNameOfId]
      rfl

theorem Stands.nameListed (stands : Stands origin t base m) {name : Bytes} :
    name ∈ allNames t base ↔ ∃ id ∈ m, name = id.nameBytes := by
  rw [allNames, List.mem_flatMap]
  constructor
  · rintro ⟨entry, -, listed⟩
    obtain ⟨id, mem, same, -⟩ := stands.hashName.mp listed
    exact ⟨id, mem, same⟩
  · rintro ⟨id, mem, rfl⟩
    refine ⟨(shard id, .directory), ?_, stands.hashName.mpr ⟨id, mem, rfl, rfl⟩⟩
    exact stands.shardEntry.mpr ⟨rfl, stands.parents id mem⟩

theorem Stands.hashNamesOnce (stands : Stands origin t base m) (first : Bytes) :
    (hashNames t base first).Nodup := by
  have once := childrenNodup stands.once (List.prefix_append base [first])
  have names : (t.children (base ++ [first])).map (fun entry => first ++ entry.1) =
      ((t.children (base ++ [first])).map (·.1)).map (first ++ ·) := by
    rw [List.map_map]
    rfl
  rw [hashNames, names]
  exact (once.map (List.append_right_injective first)).filter _

theorem Stands.namesOnce (stands : Stands origin t base m) : (allNames t base).Nodup := by
  have once := List.pairwise_map.mp (childrenNodup stands.once (List.prefix_refl base))
  have shards : (shardEntries t base).Pairwise fun x y => x.1 ≠ y.1 :=
    once.sublist List.filter_sublist
  refine List.nodup_flatMap.mpr ⟨fun entry _ => stands.hashNamesOnce entry.1, shards.imp ?_⟩
  intro x y differ name inX inY
  obtain ⟨id, -, rfl, first⟩ := stands.hashName.mp inX
  obtain ⟨other, -, same, second⟩ := stands.hashName.mp inY
  rw [ArtifactId.nameBytesInjective same] at first
  exact differ (first.trans second.symm)

theorem Stands.countNames (stands : Stands origin t base m) :
    (allNames t base).length = m.keys.card := by
  have names : (allNames t base).toFinset = m.keys.image ArtifactId.nameBytes := by
    ext name
    simp only [List.mem_toFinset, stands.nameListed, Finset.mem_image, Finmap.mem_keys, eq_comm]
  rw [← List.toFinset_card_of_nodup stands.namesOnce, names,
    Finset.card_image_of_injective _ fun _ _ => ArtifactId.nameBytesInjective]

theorem Stands.size (stands : Stands origin t base m) (vacant : Vacant origin root base) :
    (⟨root, settings⟩ : DirectoryStore).size t = .ok m.keys.card := by
  have keeps := stands.housed.keeps vacant
  have resolved : t.resolve .target root = .ok base := by
    rw [resolveEq, checkOfResolve vacant.leads]
    exact (vacant.way.still keeps.ways).walks
  rw [← stands.countNames]
  refine sizeListed stands.once resolved (keeps _ _ vacant.directory) fun name found => ?_
  obtain ⟨-, id, same⟩ := stands.shards _ _ found
  rw [same, vacant.checkShard id]

end

end ArtifactVault.DirectoryStore
