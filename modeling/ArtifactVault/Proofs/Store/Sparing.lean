import Mathlib.Data.List.Induction
import ArtifactVault.Proofs.FileTree.Changes
import ArtifactVault.Proofs.Outcome
import ArtifactVault.Proofs.Store.Shards

/-! What a put or a delete in files spares. Each artifact has places of its own, its file and the
files that it is written to first, and calls about it change nothing else but that they may make the
directory above. So no read of another artifact can tell that they were made. -/
namespace ArtifactVault.DirectoryStore
open FileTree

structure Sturdy (t : FileTree) (root : Bytes) (base : Place) : Prop where
  leads : Leads t root base
  unlinked : t.Unlinked
  closed : ∀ place name, t.node? (place ++ [name]) ≠ none → t.node? place = some .directory

section
variable {t now later : FileTree} {root : Bytes} {base place : Place} {settings : StoreSettings}
  {id other : ArtifactId}

theorem Sturdy.above (sturdy : Sturdy t root base) {name : Bytes} {names : Place}
    (found : t.node? (place ++ name :: names) ≠ none) : t.node? place = some .directory := by
  induction names using List.reverseRecOn with
  | nil => exact sturdy.closed place name found
  | append_singleton names last ih =>
    have split : place ++ name :: (names ++ [last]) = place ++ name :: names ++ [last] := by simp
    rw [split] at found
    refine ih ?_
    rw [sturdy.closed _ _ found]
    exact nofun

theorem Sturdy.resolve (sturdy : Sturdy t root base) {name : Bytes} {goal : Goal}
    (descends : Descends name) (noSlash : slash ∉ name) :
    t.resolve goal (join (join root (shard id)) name) = (do
      checkPath (join (join root (shard id)) name)
      match t.node? (base ++ [shard id]) with
      | some .directory =>
        if longestName < name.length then .error .nameTooLong else .ok (base ++ [shard id, name])
      | some _ => .error .notADirectory
      | none => .error .notFound) :=
  resolveIn sturdy.leads (.refl t) descends noSlash (sturdy.unlinked _) (sturdy.unlinked _)

theorem Sturdy.resolveArtifact (sturdy : Sturdy t root base) {goal : Goal} :
    t.resolve goal ((⟨root, settings⟩ : DirectoryStore).path id) = (do
      checkPath ((⟨root, settings⟩ : DirectoryStore).path id)
      match t.node? (base ++ [shard id]) with
      | some .directory => .ok (placeOf base id)
      | some _ => .error .notADirectory
      | none => .error .notFound) := by
  rw [pathEq, sturdy.resolve (leafName id).toDescends (leafName id).noSlash]
  simp only [if_neg (leafName id).short, placeOf]

def Own (base : Place) (id : ArtifactId) (place : Place) : Prop :=
  place = placeOf base id ∨ ∃ n, place = base ++ [shard id, temporaryName n]

theorem ownIn (own : Own base id place) : ∃ name, place = base ++ [shard id] ++ [name] := by
  rcases own with rfl | ⟨n, rfl⟩
  · exact ⟨leaf id, List.append_cons _ _ _⟩
  · exact ⟨temporaryName n, List.append_cons _ _ _⟩

theorem ownOfPlace (own : Own base other (placeOf base id)) : id = other := by
  rcases own with same | ⟨n, same⟩
  · exact placeInjective same
  · have names := (List.cons.inj (List.append_cancel_left same)).2
    exact absurd (List.cons.inj names).1.symm (temporaryNoLeaf n id)

theorem ownNoShard {name : Bytes} : ¬ Own base other (base ++ [name]) := by
  intro own
  obtain ⟨leaf, same⟩ := ownIn own
  have lengths := congrArg List.length same
  simp only [List.length_append, List.length_cons, List.length_nil] at lengths
  omega

structure Refiled (t now : FileTree) (base : Place) (other : ArtifactId) : Prop where
  elsewhere : ∀ place, ¬ Own base other place → now.node? place = t.node? place
  files : ∀ place, Own base other place → now.node? place = t.node? place ∨
    t.node? place ≠ some .directory ∧ ∀ node, now.node? place = some node → ∃ content, node = .file content

/-- What an action about one artifact leaves to a reader of another. -/
structure Spares (t now : FileTree) (root : Bytes) (base : Place) (other : ArtifactId) : Prop where
  sturdy : Sturdy now root base
  places : ∀ id ≠ other, now.node? (placeOf base id) = t.node? (placeOf base id)
  shards : ∀ id, now.node? (base ++ [shard id]) = t.node? (base ++ [shard id]) ∨
    t.node? (base ++ [shard id]) = none ∧ now.node? (base ++ [shard id]) = some .directory

theorem Sturdy.spares (sturdy : Sturdy t root base) : Spares t t root base other :=
  ⟨sturdy, fun _ _ => rfl, fun _ => .inl rfl⟩

theorem Spares.trans (first : Spares t now root base other) (second : Spares now later root base other) :
    Spares t later root base other := by
  refine ⟨second.sturdy, fun id apart => (second.places id apart).trans (first.places id apart),
    fun id => ?_⟩
  rcases first.shards id with same | ⟨missing, made⟩
  · rw [← same]
    exact second.shards id
  · rcases second.shards id with same | ⟨absent, -⟩
    · exact .inr ⟨missing, same.trans made⟩
    · rw [made] at absent
      cases absent

theorem Spares.keepsShard (spares : Spares t now root base other)
    (there : t.node? (base ++ [shard id]) = some .directory) :
    now.node? (base ++ [shard id]) = some .directory := by
  rcases spares.shards id with same | ⟨missing, -⟩
  · exact same.trans there
  · rw [there] at missing
    cases missing

theorem Refiled.ways (refiled : Refiled t now base other) (unlinked : t.Unlinked) : t.Ways now := by
  intro place node noFile found
  by_cases own : Own base other place
  · rcases refiled.files place own with same | ⟨noDirectory, -⟩
    · rw [same, found]
    · cases node with
      | file content => exact absurd rfl (noFile content)
      | link target => exact absurd found (unlinked place target)
      | directory => exact absurd found noDirectory
  · rw [refiled.elsewhere place own, found]

theorem Refiled.spares (refiled : Refiled t now base other) (sturdy : Sturdy t root base)
    (parent : t.node? (base ++ [shard other]) = some .directory) :
    Spares t now root base other := by
  have ways := refiled.ways sturdy.unlinked
  refine ⟨⟨sturdy.leads.still ways, fun place target found => ?_, fun place name found => ?_⟩,
    fun id apart => refiled.elsewhere _ fun own => apart (ownOfPlace own),
    fun id => .inl (refiled.elsewhere _ ownNoShard)⟩
  · by_cases own : Own base other place
    · rcases refiled.files place own with same | ⟨-, files⟩
      · exact sturdy.unlinked place target (same.symm.trans found)
      · obtain ⟨content, file⟩ := files _ found
        cases file
    · exact sturdy.unlinked place target ((refiled.elsewhere place own).symm.trans found)
  · by_cases own : Own base other (place ++ [name])
    · obtain ⟨leaf, same⟩ := ownIn own
      rw [(List.append_inj' same rfl).1]
      exact ways.directory parent
    · rw [refiled.elsewhere _ own] at found
      exact ways.directory (sturdy.closed place name found)

theorem Spares.lookup (spares : Spares t now root base other) (sturdy : Sturdy t root base)
    (apart : id ≠ other) :
    now.lookup .target ((⟨root, settings⟩ : DirectoryStore).path id) =
      t.lookup .target ((⟨root, settings⟩ : DirectoryStore).path id) := by
  rw [FileTree.lookup, FileTree.lookup, sturdy.resolveArtifact, spares.sturdy.resolveArtifact]
  cases checkPath ((⟨root, settings⟩ : DirectoryStore).path id) with
  | error e => rfl
  | ok _ =>
    rcases spares.shards id with same | ⟨missing, made⟩
    · rw [same]
      cases t.node? (base ++ [shard id]) with
      | none => rfl
      | some node =>
        cases node with
        | file content => rfl
        | link target => rfl
        | directory => simp only [bind, Except.bind, spares.places id apart]
    · have nothing : t.node? (placeOf base id) = none := by
        by_contra found
        have split : placeOf base id = base ++ [shard id] ++ [leaf id] := List.append_cons _ _ _
        rw [split] at found
        rw [sturdy.closed _ _ found] at missing
        cases missing
      rw [missing, made]
      simp only [bind, Except.bind, spares.places id apart, nothing]
      rfl

theorem refiledErase {content : Bytes} (own : Own base other place)
    (file : t.node? place = some (.file content)) : Refiled t (t.erase place) base other := by
  have below : place ≠ [] := by
    obtain ⟨name, rfl⟩ := ownIn own
    exact List.append_ne_nil_of_right_ne_nil _ (List.cons_ne_nil _ _)
  refine ⟨fun it others => ?_, fun it _ => ?_⟩
  · rw [nodeErase below, if_neg]
    rintro rfl
    exact others own
  · rw [nodeErase below]
    split
    · rename_i same
      subst same
      rw [file]
      exact .inr ⟨nofun, nofun⟩
    · exact .inl rfl

theorem Sturdy.delete (sturdy : Sturdy t root base) (other : ArtifactId) :
    Spares t ((⟨root, settings⟩ : DirectoryStore).delete t other).2 root base other := by
  have removed : (∃ e, t.removeFile ((⟨root, settings⟩ : DirectoryStore).path other) = .error e) ∨
      Spares t (t.erase (placeOf base other)) root base other ∧
        t.removeFile ((⟨root, settings⟩ : DirectoryStore).path other) =
          .ok (t.erase (placeOf base other)) := by
    rw [removeFile, sturdy.resolveArtifact]
    cases checkPath ((⟨root, settings⟩ : DirectoryStore).path other) with
    | error e => exact .inl ⟨e, rfl⟩
    | ok _ =>
      cases parent : t.node? (base ++ [shard other]) with
      | none => exact .inl ⟨_, rfl⟩
      | some node =>
        cases node with
        | file content => exact .inl ⟨_, rfl⟩
        | link target => exact .inl ⟨_, rfl⟩
        | directory =>
          simp only [bind, Except.bind]
          cases there : t.node? (placeOf base other) with
          | none => exact .inl ⟨_, rfl⟩
          | some node =>
            cases node with
            | file content =>
              exact .inr ⟨(refiledErase (.inl rfl) there).spares sturdy parent, rfl⟩
            | link target => exact absurd there (sturdy.unlinked _ target)
            | directory => exact .inl ⟨_, rfl⟩
  unfold DirectoryStore.delete
  rcases removed with ⟨e, failed⟩ | ⟨spares, done⟩
  · rw [failed]
    split
    · simp_all
    · exact sturdy.spares
    · exact sturdy.spares
  · rw [done]
    exact spares

theorem Sturdy.addShard (sturdy : Sturdy t root base) (other : ArtifactId)
    (missing : t.node? (base ++ [shard other]) = none) :
    Spares t (t.insert (base ++ [shard other]) .directory) root base other := by
  have node := @nodeInsert t _ .directory (belowNotTop (belowCons base (shard other) []))
  have keeps : t.Keeps (t.insert (base ++ [shard other]) .directory) :=
    keepsFresh missing fun place apart => by rw [node, if_neg apart]
  refine ⟨⟨sturdy.leads.still keeps.ways, fun place target found => ?_, fun place name found => ?_⟩,
    fun id _ => ?_, fun id => ?_⟩
  · rw [node] at found
    split at found
    · cases found
    · exact sturdy.unlinked place target found
  · rw [node] at found
    split at found
    · rename_i same
      rw [(List.append_inj' same rfl).1]
      exact keeps _ _ sturdy.leads.directory
    · exact keeps _ _ (sturdy.closed place name found)
  · rw [node, if_neg (shardNotPlace base _ _).symm]
  · rw [node]
    split
    · rename_i same
      rw [same]
      exact .inr ⟨missing, rfl⟩
    · exact .inl rfl

theorem Sturdy.makeShard (sturdy : Sturdy t root base) (other : ArtifactId) :
    (∃ e, t.makeDirectories (join root (shard other)) = (.error e, t)) ∨
      ∃ made, t.makeDirectories (join root (shard other)) = (.ok (), made) ∧
        Spares t made root base other ∧ made.node? (base ++ [shard other]) = some .directory := by
  have filled : join root (shard other) ≠ [] := joinFilled (shardName other).filled
  have named := @withoutSlashesJoin root _ (shardName other)
  have resolve (goal : Goal) := @resolveShard t t root base goal other sturdy.leads (.refl t)
    (sturdy.unlinked _)
  cases checked : checkPath (join root (shard other)) with
  | error e =>
    have failed : t.makeDirectory (join root (shard other)) = .error e := by
      rw [makeDirectory, checked]
      rfl
    have noDirectory : t.isDirectory (join root (shard other)) = false := by
      rw [isDirectory, FileTree.lookup, resolve, checked]
      rfl
    exact .inl ⟨e, makeDirectoriesBlocked filled failed (checkPathFault filled checked) noDirectory⟩
  | ok _ =>
    have resolved (goal : Goal) :
        t.resolve goal (join root (shard other)) = .ok (base ++ [shard other]) := by
      rw [resolve, checked]
      rfl
    have made := makeDirectoryEq filled checked named resolved
    cases there : t.node? (base ++ [shard other]) with
    | none =>
      refine .inr ⟨_, makeDirectoriesNew filled checked named resolved there,
        sturdy.addShard other there, ?_⟩
      rw [nodeInsert (belowNotTop (belowCons base _ _)), if_pos rfl]
    | some node =>
      cases node with
      | directory =>
        exact .inr ⟨t, makeDirectoriesThere filled checked named resolved there, sturdy.spares, there⟩
      | link target => exact absurd there (sturdy.unlinked _ target)
      | file content =>
        have noDirectory : t.isDirectory (join root (shard other)) = false := by
          rw [isDirectory, FileTree.lookup, resolved]
          simp only [bind, Except.bind, there]
          rfl
        rw [there] at made
        refine .inl ⟨_, makeDirectoriesBlocked filled made ?_ noDirectory⟩
        intro same
        cases same

section
variable (sturdy : Sturdy t root base) (parent : t.node? (base ++ [shard other]) = some .directory)
  (n : Nat) (content : Bytes)

include sturdy parent

theorem createCases :
    (∃ e, t.createFile (join (join root (shard other)) (temporaryName n)) = .error e) ∨
      checkPath (join (join root (shard other)) (temporaryName n)) = .ok () ∧
      ¬ longestName < (temporaryName n).length ∧
      t.node? (sourceOf base other n) ≠ some .directory ∧
      t.createFile (join (join root (shard other)) (temporaryName n)) =
        .ok (sourceOf base other n, t.insert (sourceOf base other n) (.file [])) := by
  have absent {byte : UInt8} := @temporaryAbsent n byte
  rw [createFile, sturdy.resolve (temporaryDescends n) (absent (by decide) (by decide))]
  cases checkPath (join (join root (shard other)) (temporaryName n)) with
  | error e => exact .inl ⟨e, rfl⟩
  | ok _ =>
    rw [parent]
    simp only [bind, Except.bind]
    by_cases long : longestName < (temporaryName n).length
    · rw [if_pos long]
      exact .inl ⟨_, rfl⟩
    · rw [if_neg long, ← sourceOf]
      simp only
      cases there : t.node? (sourceOf base other n) with
      | none => exact .inr ⟨trivial, long, nofun, rfl⟩
      | some node =>
        cases node with
        | directory => exact .inl ⟨_, rfl⟩
        | file content => exact .inr ⟨trivial, long, nofun, rfl⟩
        | link target => exact absurd there (sturdy.unlinked _ target)

theorem writtenSpares (free : t.node? (sourceOf base other n) ≠ some .directory) :
    Spares t (t.written (sourceOf base other n) content) root base other := by
  have source : sourceOf base other n ≠ [] := belowNotTop (sourceBelow base other n)
  have node := @nodeWritten t _ content source
  refine Refiled.spares ⟨fun place others => ?_, fun place own => ?_⟩ sturdy parent
  · rw [node, if_neg]
    rintro rfl
    exact others (.inr ⟨n, rfl⟩)
  · rw [node]
    split
    · rename_i same
      subst same
      exact .inr ⟨free, fun node found => ⟨content, (Option.some.inj found).symm⟩⟩
    · exact .inl rfl

theorem replacedSpares (free : t.node? (sourceOf base other n) ≠ some .directory)
    (replaceable : t.node? (placeOf base other) ≠ some .directory) :
    Spares t (t.replaced (sourceOf base other n) (placeOf base other) content) root base other := by
  have source : sourceOf base other n ≠ [] := belowNotTop (sourceBelow base other n)
  have target : placeOf base other ≠ [] := belowNotTop (placeBelow base other)
  have apart := sourceNoPlace base other n other
  have unused (name : Bytes) (names : Place) :
      t.node? (sourceOf base other n ++ name :: names) = none := by
    by_contra found
    exact free (sturdy.above found)
  have node := @nodeReplaced t _ _ source unused content target apart
  refine Refiled.spares ⟨fun place others => ?_, fun place own => ?_⟩ sturdy parent
  · rw [node, if_neg, if_neg]
    · rintro rfl
      exact others (.inr ⟨n, rfl⟩)
    · rintro rfl
      exact others (.inl rfl)
  · rw [node]
    split
    · rename_i same
      subst same
      exact .inr ⟨replaceable, fun node found => ⟨content, (Option.some.inj found).symm⟩⟩
    · split
      · rename_i same
        subst same
        exact .inr ⟨free, nofun⟩
      · exact .inl rfl

theorem Sturdy.resolveSource (goal : Goal)
    (checked : checkPath (join (join root (shard other)) (temporaryName n)) = .ok ())
    (short : ¬ longestName < (temporaryName n).length) :
    t.resolve goal (join (join root (shard other)) (temporaryName n)) =
      .ok (sourceOf base other n) := by
  have absent {byte : UInt8} := @temporaryAbsent n byte
  rw [sturdy.resolve (temporaryDescends n) (absent (by decide) (by decide)), checked, parent]
  exact if_neg short

theorem replaceCases {now : FileTree}
    (checked : checkPath (join (join root (shard other)) (temporaryName n)) = .ok ())
    (short : ¬ longestName < (temporaryName n).length)
    (there : t.node? (sourceOf base other n) = some (.file content))
    (renamed : t.rename (join (join root (shard other)) (temporaryName n))
      ((⟨root, settings⟩ : DirectoryStore).path other) = .ok now) :
    t.node? (placeOf base other) ≠ some .directory ∧
      now = (t.erase (placeOf base other)).relocate (sourceOf base other n) (placeOf base other) := by
  have leaves := sturdy.resolveSource parent n .itself checked short
  cases allowed : checkPath ((⟨root, settings⟩ : DirectoryStore).path other) with
  | error e =>
    rw [rename, allowed] at renamed
    cases renamed
  | ok _ =>
    have arrives : t.resolve .itself ((⟨root, settings⟩ : DirectoryStore).path other) =
        .ok (placeOf base other) := by
      rw [sturdy.resolveArtifact, allowed, parent]
      rfl
    rw [renameFile allowed leaves arrives (sourceNoPlace base other n other) there] at renamed
    split at renamed
    · cases renamed
    · exact ⟨by assumption, (Except.ok.inj renamed).symm⟩

theorem persistSpares (free : t.node? (sourceOf base other n) ≠ some .directory)
    (checked : checkPath (join (join root (shard other)) (temporaryName n)) = .ok ())
    (short : ¬ longestName < (temporaryName n).length) :
    Spares t (persist (t.written (sourceOf base other n) content)
      (join (join root (shard other)) (temporaryName n))
      ((⟨root, settings⟩ : DirectoryStore).path other)).2 root base other := by
  have filed := writtenSpares sturdy parent n content free
  have source : sourceOf base other n ≠ [] := belowNotTop (sourceBelow base other n)
  have there : (t.written (sourceOf base other n) content).node? (sourceOf base other n) =
      some (.file content) := by
    rw [nodeWritten source, if_pos rfl]
  have above : (t.written (sourceOf base other n) content).node? (base ++ [shard other]) =
      some .directory := filed.keepsShard parent
  unfold persist
  cases renamed : (t.written (sourceOf base other n) content).rename _ _ with
  | ok now =>
    obtain ⟨replaceable, rfl⟩ := replaceCases filed.sturdy above n content checked short there renamed
    rw [nodeWritten source, if_neg (sourceNoPlace base other n other).symm]
      at replaceable
    exact replacedSpares sturdy parent n content free replaceable
  | error e =>
    have removed : (t.written (sourceOf base other n) content).removeFile
        (join (join root (shard other)) (temporaryName n)) =
          .ok ((t.written (sourceOf base other n) content).erase (sourceOf base other n)) := by
      rw [removeFile, filed.sturdy.resolveSource above n .itself checked short]
      simp only [bind, Except.bind, there]
      rfl
    simp only [removed, Except.toOption, Option.getD_some]
    exact filed.trans ((refiledErase (.inr ⟨n, rfl⟩) there).spares filed.sturdy above)

end

theorem Sturdy.install (sturdy : Sturdy t root base) (other : ArtifactId) (content : Bytes) :
    Spares t (install t (join root (shard other))
      ((⟨root, settings⟩ : DirectoryStore).path other) content).2 root base other := by
  unfold DirectoryStore.install
  rcases sturdy.makeShard other with ⟨e, failed⟩ | ⟨made, done, spares, parent⟩
  · rw [failed]
    exact sturdy.spares
  · rw [done]
    obtain ⟨n, fresh⟩ := freshPathNamed made (join root (shard other)) (made.entries.length + 1) 0
    simp only [fresh]
    rcases createCases spares.sturdy parent n with ⟨e, failed⟩ | ⟨checked, short, free, created⟩
    · rw [failed]
      exact spares
    · rw [created]
      have source : sourceOf base other n ≠ [] := belowNotTop (sourceBelow base other n)
      simp only [writeFresh source]
      exact spares.trans (persistSpares spares.sturdy parent n content free checked short)

theorem Sturdy.put [Zlib.Encoder] (sturdy : Sturdy t root base) {content : Blob}
    {outcome : Except StoreError ArtifactId}
    (done : (⟨root, settings⟩ : DirectoryStore).put t content = .ok (outcome, now)) :
    Spares t now root base (.compute settings.algorithm content.content) := by
  obtain ⟨⟨id, envelope⟩, packed, done⟩ := okBind done
  obtain ⟨_, -, named⟩ := okBind packed
  cases named
  simp only at done
  split at done
  · cases done
    exact sturdy.spares
  · cases done
    exact sturdy.install _ _

theorem Spares.get (spares : Spares t now root base other) (sturdy : Sturdy t root base)
    (apart : id ≠ other) :
    (⟨root, settings⟩ : DirectoryStore).get now id = (⟨root, settings⟩ : DirectoryStore).get t id := by
  simp only [DirectoryStore.get, Transfer.readPath, lookupUnlinked sturdy.unlinked,
    lookupUnlinked spares.sturdy.unlinked, spares.lookup sturdy apart]

end

end ArtifactVault.DirectoryStore
