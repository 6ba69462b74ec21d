import ArtifactVault.Proofs.Store.Contents
import ArtifactVault.Proofs.Store.Housing
import ArtifactVault.Proofs.Transfer

/-! A store of files stands for a map. Below the root there are directories of the first digits of
some ids, and in them the envelopes of the map, each at the place of its name; outside of the root
nothing has changed. A shard that a deletion leaves empty stays, so directories may be more than the
map asks for. -/
namespace ArtifactVault.DirectoryStore
open FileTree Store

section
variable [Zlib.Encoder] {origin t now : FileTree} {root : Bytes} {base : Place}
  (settings : StoreSettings) {m after : Contents} {id : ArtifactId}

def artifact (content : Bytes) : Node := .file (Envelope.envelopeOf [content])

structure Stands (origin t : FileTree) (base : Place) (m : Contents) : Prop where
  outside : ∀ place, ¬ Below base place → t.node? place = origin.node? place
  shards : ∀ name node, t.node? (base ++ [name]) = some node →
    node = .directory ∧ ∃ id, name = shard id
  artifacts : ∀ id, t.node? (placeOf base id) = (m.lookup id).map artifact
  nothingElse : ∀ name next more, t.node? (base ++ name :: next :: more) ≠ none →
    ∃ id, base ++ name :: next :: more = placeOf base id
  parents : ∀ id ∈ m, t.node? (base ++ [shard id]) = some .directory
  once : t.OnceBelow base

theorem standsAtFirst (vacant : Vacant origin root base) : Stands origin origin base ∅ := by
  have nothing {place : Place} (below : Below base place) := vacant.nothing place below
  refine ⟨fun _ _ => rfl, fun name node found => ?_, fun id => ?_, fun name next more found => ?_,
    fun id mem => ?_, ?_⟩
  · rw [nothing (belowCons base name [])] at found
    cases found
  · exact nothing (belowCons base _ _)
  · exact absurd (nothing (belowCons base _ _)) found
  · exact absurd mem (Finmap.notMem_empty)
  · refine List.pairwise_of_forall_mem_list fun x mem y _ below => ?_
    exact absurd rfl (noEntry (belowNotTop below) (nothing below) x mem)

theorem Stands.housed (stands : Stands origin t base m) : Housed origin t base := by
  refine ⟨stands.outside, fun name node found => (stands.shards name node found).1,
    fun first second node found => ?_, fun first second third more => ?_⟩
  · obtain ⟨id, same⟩ := stands.nothingElse first second [] (by rw [found]; exact nofun)
    obtain ⟨rfl, -⟩ := List.cons.inj (List.append_cancel_left same)
    rw [same, stands.artifacts] at found
    obtain ⟨content, kept, file⟩ := Option.map_eq_some_iff.mp found
    exact ⟨stands.parents id (Finmap.mem_of_lookup_eq_some kept), _, file.symm⟩
  · by_contra found
    obtain ⟨id, same⟩ := stands.nothingElse first second (third :: more) found
    exact nomatch (List.cons.inj (List.cons.inj (List.append_cancel_left same)).2).2

theorem Stands.lookup (stands : Stands origin t base m) (vacant : Vacant origin root base)
    (id : ArtifactId) (goal : Goal) :
    t.lookup goal ((⟨root, settings⟩ : DirectoryStore).path id) =
      ((m.lookup id).map fun content => .ok (artifact content)).getD (.error .notFound) := by
  rw [stands.housed.lookup vacant, stands.artifacts]
  cases m.lookup id with
  | none => rfl
  | some content => rfl

theorem Stands.update (stands : Stands origin t base m) {content : Option Bytes}
    (changed : ∀ place, now.node? place =
      if place = placeOf base id then content.map artifact else t.node? place)
    (here : after.lookup id = content) (others : ∀ other ≠ id, after.lookup other = m.lookup other)
    (parent : content ≠ none → t.node? (base ++ [shard id]) = some .directory)
    (once : now.OnceBelow base) : Stands origin now base after := by
  have shardKept (name : Bytes) : now.node? (base ++ [name]) = t.node? (base ++ [name]) := by
    rw [changed, if_neg (shardNotPlace base name id)]
  refine ⟨fun place outside => ?_, fun name node found => ?_, fun other => ?_,
    fun name next more found => ?_, fun other mem => ?_, once⟩
  · rw [← stands.outside place outside, changed, if_neg]
    exact fun same => outside (same ▸ belowCons base _ _)
  · rw [shardKept] at found
    exact stands.shards name node found
  · rw [changed]
    by_cases same : other = id
    · rw [same, if_pos rfl, here]
    · rw [if_neg fun place => same (placeInjective place), others other same]
      exact stands.artifacts other
  · rw [changed] at found
    split at found
    · exact ⟨id, by assumption⟩
    · exact stands.nothingElse name next more found
  · rw [shardKept]
    by_cases same : other = id
    · subst same
      refine parent fun none => ?_
      rw [← here, Finmap.lookup_eq_none] at none
      exact none mem
    · refine stands.parents other (Finmap.lookup_isSome.mp ?_)
      rw [← others other same]
      exact Finmap.lookup_isSome.mpr mem

theorem Stands.newShard (stands : Stands origin t base m)
    (changed : ∀ place, now.node? place =
      if place = base ++ [shard id] then some .directory else t.node? place)
    (once : now.OnceBelow base) : Stands origin now base m := by
  have placeKept (other : ArtifactId) : now.node? (placeOf base other) = t.node? (placeOf base other) := by
    rw [changed, if_neg (shardNotPlace base _ _).symm]
  refine ⟨fun place outside => ?_, fun name node found => ?_, fun other => ?_,
    fun name next more found => ?_, fun other mem => ?_, once⟩
  · rw [← stands.outside place outside, changed, if_neg]
    exact fun same => outside (same ▸ belowCons base _ _)
  · rw [changed] at found
    split at found
    · rename_i same
      exact ⟨(Option.some.inj found).symm, id, (List.cons.inj (List.append_cancel_left same)).1⟩
    · exact stands.shards name node found
  · rw [placeKept]
    exact stands.artifacts other
  · rw [changed, if_neg] at found
    · exact stands.nothingElse name next more found
    · exact fun same => nomatch (List.cons.inj (List.append_cancel_left same)).2
  · rw [changed]
    split
    · rfl
    · exact stands.parents other mem

theorem Stands.contains (stands : Stands origin t base m) (vacant : Vacant origin root base)
    (id : ArtifactId) : (⟨root, settings⟩ : DirectoryStore).contains t id = decide (id ∈ m) := by
  rw [DirectoryStore.contains, isFile, stands.lookup settings vacant]
  cases found : m.lookup id with
  | none => exact (decide_eq_false (Finmap.lookup_eq_none.mp found)).symm
  | some content => exact (decide_eq_true (Finmap.mem_of_lookup_eq_some found)).symm

theorem Stands.pathExists (stands : Stands origin t base m) (vacant : Vacant origin root base)
    (id : ArtifactId) :
    t.pathExists ((⟨root, settings⟩ : DirectoryStore).path id) = decide (id ∈ m) := by
  rw [FileTree.pathExists, stands.lookup settings vacant]
  cases found : m.lookup id with
  | none => exact (decide_eq_false (Finmap.lookup_eq_none.mp found)).symm
  | some content => exact (decide_eq_true (Finmap.mem_of_lookup_eq_some found)).symm

theorem Stands.get [Zlib.LawfulEncoder] (stands : Stands origin t base m)
    (vacant : Vacant origin root base) (faithful : Faithful m) (id : ArtifactId) :
    (⟨root, settings⟩ : DirectoryStore).get t id = .ok (.ok ((m.lookup id).map Blob.held)) := by
  have found := stands.lookup settings vacant id
  unfold DirectoryStore.get
  cases there : m.lookup id with
  | none =>
    have missing := found .itself
    rw [there] at missing
    simp only [Transfer.readPath, missing]
    rfl
  | some content =>
    rw [there] at found
    have fits := faithful.fits id content there
    obtain ⟨envelope, read, whole⟩ := @Transfer.readPathFile t .empty _ _ (found .itself)
      (found .target) fits.wrapped .follow .standard
    have opened := unpackEq (faithful.named id content there) fits whole settings
    simp only [read, bind, Except.bind, opened]
    rfl

theorem Stands.delete (stands : Stands origin t base m) (vacant : Vacant origin root base)
    (id : ArtifactId) :
    ∃ now, (⟨root, settings⟩ : DirectoryStore).delete t id = (.ok (decide (id ∈ m)), now) ∧
      Stands origin now base (m.erase id) := by
  have removed : t.removeFile ((⟨root, settings⟩ : DirectoryStore).path id) = _ :=
    stands.housed.removeArtifact vacant id
  rw [stands.artifacts] at removed
  rw [DirectoryStore.delete, removed]
  cases found : m.lookup id with
  | none =>
    have absent := Finmap.lookup_eq_none.mp found
    refine ⟨t, ?_, ?_⟩
    · rw [decide_eq_false absent]
      rfl
    · rw [eraseAbsent absent]
      exact stands
  | some content =>
    refine ⟨t.erase (placeOf base id), ?_, ?_⟩
    · rw [decide_eq_true (Finmap.mem_of_lookup_eq_some found)]
      rfl
    · exact stands.update (nodeErase (belowNotTop (placeBelow base id))) (Finmap.lookup_erase _ _)
        (fun other differs => Finmap.lookup_erase_ne differs) (fun some => absurd rfl some)
        (onceErase stands.once)

end

end ArtifactVault.DirectoryStore
