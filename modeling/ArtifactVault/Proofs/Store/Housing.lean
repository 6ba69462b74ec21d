import ArtifactVault.Proofs.FileTree.Changes
import ArtifactVault.Proofs.FileTree.Disk
import ArtifactVault.Proofs.Store.Shards

/-! Trees that calls of a store can leave behind, also calls that are still on their way. Right below
the root there are directories and in these there are files; nothing else has come, and outside of
the root nothing has changed. -/
namespace ArtifactVault.DirectoryStore
open FileTree

structure Housed (origin t : FileTree) (base : Place) : Prop where
  outside : ∀ place, ¬ Below base place → t.node? place = origin.node? place
  shards : ∀ name node, t.node? (base ++ [name]) = some node → node = .directory
  files : ∀ first second node, t.node? (base ++ [first, second]) = some node →
    t.node? (base ++ [first]) = some .directory ∧ ∃ content, node = .file content
  shallow : ∀ first second third more, t.node? (base ++ first :: second :: third :: more) = none

section
variable {origin t now : FileTree} {root : Bytes} {base : Place} {settings : StoreSettings}
  {goal : Goal} {id : ArtifactId} {n : Nat}

theorem Housed.refile (housed : Housed origin t base)
    (changed : ∀ place, now.node? place = t.node? place ∨
      ∃ first second, place = base ++ [first, second] ∧
        t.node? (base ++ [first]) = some .directory ∧
        ∀ node, now.node? place = some node → ∃ content, node = .file content) :
    Housed origin now base := by
  have shardKept (name : Bytes) : now.node? (base ++ [name]) = t.node? (base ++ [name]) := by
    refine (changed _).resolve_right ?_
    rintro ⟨first, second, same, -⟩
    exact nomatch (List.cons.inj (List.append_cancel_left same)).2
  refine ⟨fun place outside => ?_, fun name node found => ?_, fun first second node found => ?_,
    fun first second third more => ?_⟩
  · rw [← housed.outside place outside]
    refine (changed _).resolve_right ?_
    rintro ⟨first, second, rfl, -⟩
    exact outside (belowCons base _ _)
  · exact housed.shards name node (shardKept name ▸ found)
  · rw [shardKept]
    rcases changed (base ++ [first, second]) with same | ⟨_, _, same, there, files⟩
    · exact housed.files first second node (same ▸ found)
    · obtain ⟨rfl, -⟩ := List.cons.inj (List.append_cancel_left same)
      exact ⟨there, files node found⟩
  · rw [← housed.shallow first second third more]
    refine (changed _).resolve_right ?_
    rintro ⟨_, _, same, -⟩
    exact nomatch (List.cons.inj (List.cons.inj (List.append_cancel_left same)).2).2

theorem Housed.addShard (housed : Housed origin t base) {name : Bytes}
    (changed : ∀ place, now.node? place =
      if place = base ++ [name] then some .directory else t.node? place) :
    Housed origin now base := by
  have deep {first second : Bytes} {more : Place} :
      now.node? (base ++ first :: second :: more) = t.node? (base ++ first :: second :: more) := by
    rw [changed, if_neg]
    exact fun same => nomatch (List.cons.inj (List.append_cancel_left same)).2
  refine ⟨fun place outside => ?_, fun other node found => ?_, fun first second node found => ?_,
    fun first second third more => ?_⟩
  · rw [changed, if_neg, housed.outside place outside]
    rintro rfl
    exact outside (belowCons base _ _)
  · rw [changed] at found
    split at found
    · exact (Option.some.inj found).symm
    · exact housed.shards other node found
  · rw [deep] at found
    obtain ⟨there, file⟩ := housed.files first second node found
    refine ⟨?_, file⟩
    rw [changed, there]
    exact ite_self _
  · rw [deep, housed.shallow]

section
variable (housed : Housed origin t base) (vacant : Vacant origin root base)

include housed

theorem Housed.shardCases (name : Bytes) :
    t.node? (base ++ [name]) = none ∨ t.node? (base ++ [name]) = some .directory := by
  cases there : t.node? (base ++ [name]) with
  | none => exact .inl rfl
  | some node => exact .inr (congrArg some (housed.shards _ _ there))

theorem Housed.noLinkAbove (name target : Bytes) :
    t.node? (base ++ [name]) ≠ some (.link target) :=
  fun found => nomatch housed.shards _ _ found

theorem Housed.noLink (first second target : Bytes) :
    t.node? (base ++ [first, second]) ≠ some (.link target) := by
  intro found
  obtain ⟨content, file⟩ := (housed.files _ _ _ found).2
  cases file

include vacant

theorem Housed.keeps : origin.Keeps t := by
  intro place node found
  have outside : ¬ Below base place := by
    intro below
    rw [vacant.nothing place below] at found
    cases found
  rw [housed.outside place outside]
  exact found

theorem Housed.resolve (id : ArtifactId) (goal : Goal) :
    t.resolve goal ((⟨root, settings⟩ : DirectoryStore).path id) =
      if t.node? (base ++ [shard id]) = none then .error .notFound else .ok (placeOf base id) := by
  have checked : checkPath (join (join root (shard id)) (leaf id)) = .ok () :=
    vacant.checkIn (leafName id) (lengthLeafBounds id).2
  have ways := (housed.keeps vacant).ways
  rw [pathEq]
  rcases housed.shardCases (shard id) with missing | there
  · rw [if_pos missing]
    exact resolveMissing vacant.way ways (leafName id) checked missing (housed.noLink _ _)
  · rw [there, if_neg nofun]
    exact resolvePath vacant.way ways (leafName id) checked there (housed.noLink _ _)

theorem Housed.lookup (id : ArtifactId) (goal : Goal) :
    t.lookup goal ((⟨root, settings⟩ : DirectoryStore).path id) =
      ((t.node? (placeOf base id)).map .ok).getD (.error .notFound) := by
  rw [FileTree.lookup, housed.resolve vacant id goal]
  split
  · rename_i missing
    cases found : t.node? (placeOf base id) with
    | none => rfl
    | some node =>
      have there := (housed.files _ _ node found).1
      rw [missing] at there
      cases there
  · simp only [bind, Except.bind]
    cases t.node? (placeOf base id) with
    | none => rfl
    | some node => rfl

theorem Housed.pathExists (id : ArtifactId) :
    t.pathExists ((⟨root, settings⟩ : DirectoryStore).path id) =
      (t.node? (placeOf base id)).isSome := by
  rw [FileTree.pathExists, housed.lookup vacant]
  cases t.node? (placeOf base id) with
  | none => rfl
  | some node => rfl

theorem Housed.makeShard (id : ArtifactId) :
    t.node? (base ++ [shard id]) = none ∧ t.makeDirectories (join root (shard id)) =
        (.ok (), t.insert (base ++ [shard id]) .directory) ∨
      t.node? (base ++ [shard id]) = some .directory ∧
        t.makeDirectories (join root (shard id)) = (.ok (), t) := by
  have filled : join root (shard id) ≠ [] := joinFilled (shardName id).filled
  have checked := vacant.checkShard id
  have resolved (goal : Goal) :
      t.resolve goal (join root (shard id)) = .ok (base ++ [shard id]) := by
    rw [resolveShard vacant.way (housed.keeps vacant).ways (housed.noLinkAbove _), checked]
    rfl
  have named := @withoutSlashesJoin root _ (shardName id)
  rcases housed.shardCases (shard id) with missing | there
  · exact .inl ⟨missing, makeDirectoriesNew filled checked named resolved missing⟩
  · exact .inr ⟨there, makeDirectoriesThere filled checked named resolved there⟩

theorem Housed.shardMade (id : ArtifactId) :
    ∃ now, t.makeDirectories (join root (shard id)) = (.ok (), now) ∧
      ∀ place, now.node? place =
        if place = base ++ [shard id] then some .directory else t.node? place := by
  rcases housed.makeShard vacant id with ⟨-, made⟩ | ⟨there, made⟩
  · exact ⟨_, made, nodeInsert (belowNotTop (belowCons base (shard id) []))⟩
  · refine ⟨t, made, fun place => ?_⟩
    split
    · rename_i same
      rw [same, there]
    · rfl

theorem Housed.removeArtifact (id : ArtifactId) :
    t.removeFile ((⟨root, settings⟩ : DirectoryStore).path id) =
      if t.node? (placeOf base id) = none then .error .notFound
      else .ok (t.erase (placeOf base id)) := by
  rw [removeFile, housed.resolve vacant]
  cases found : t.node? (placeOf base id) with
  | none =>
    rw [if_pos rfl]
    split
    · rfl
    · simp only [bind, Except.bind, found]
      rfl
  | some node =>
    obtain ⟨there, content, rfl⟩ := housed.files _ _ node found
    rw [there, if_neg nofun, if_neg nofun]
    simp only [bind, Except.bind, found]
    rfl

end

structure Usable (root : Bytes) (id : ArtifactId) (n : Nat) : Prop where
  checked : checkPath (join (join root (shard id)) (temporaryName n)) = .ok ()
  short : ¬ longestName < (temporaryName n).length

section
variable (housed : Housed origin t base) (vacant : Vacant origin root base)

include housed vacant

theorem Housed.resolveTemporary (there : t.node? (base ++ [shard id]) = some .directory)
    (goal : Goal) : t.resolve goal (join (join root (shard id)) (temporaryName n)) = (do
      checkPath (join (join root (shard id)) (temporaryName n))
      if longestName < (temporaryName n).length then .error .nameTooLong
      else .ok (sourceOf base id n)) := by
  have absent {byte : UInt8} := @temporaryAbsent n byte
  rw [resolveIn vacant.way (housed.keeps vacant).ways (temporaryDescends n)
    (absent (by decide) (by decide)) (housed.noLinkAbove _) (housed.noLink _ _), there]
  rfl

theorem Housed.resolveSource (usable : Usable root id n)
    (there : t.node? (base ++ [shard id]) = some .directory) (goal : Goal) :
    t.resolve goal (join (join root (shard id)) (temporaryName n)) = .ok (sourceOf base id n) := by
  rw [housed.resolveTemporary vacant there, usable.checked]
  exact if_neg usable.short

theorem Housed.moveIn (usable : Usable root id n) {content : Bytes}
    (file : t.node? (sourceOf base id n) = some (.file content)) :
    ∃ now, t.rename (join (join root (shard id)) (temporaryName n))
        ((⟨root, settings⟩ : DirectoryStore).path id) = .ok now ∧
      ∀ place, now.node? place =
        if place = placeOf base id then some (.file content)
        else if place = sourceOf base id n then none else t.node? place := by
  have there := (housed.files _ _ _ file).1
  have arrives : t.resolve .itself ((⟨root, settings⟩ : DirectoryStore).path id) =
      .ok (placeOf base id) := by
    rw [housed.resolve vacant, there, if_neg nofun]
  have checked : checkPath ((⟨root, settings⟩ : DirectoryStore).path id) = .ok () :=
    vacant.checkIn (leafName id) (lengthLeafBounds id).2
  have noDirectory : t.node? (placeOf base id) ≠ some .directory := by
    intro found
    obtain ⟨_, file⟩ := (housed.files _ _ _ found).2
    cases file
  have moved := renameFile checked (housed.resolveSource vacant usable there .itself) arrives
    (sourceNoPlace base id n id) file
  have unused (name : Bytes) (names : Place) :
      t.node? (sourceOf base id n ++ name :: names) = none := by
    rw [sourceOf, List.append_assoc]
    exact housed.shallow _ _ _ _
  rw [if_neg noDirectory] at moved
  refine ⟨_, moved, fun place => ?_⟩
  rw [nodeMoved (belowNotTop (sourceBelow base id n)) unused (belowNotTop (placeBelow base id))
    (sourceNoPlace base id n id), file]

theorem Housed.dropTemporary (usable : Usable root id n) {content : Bytes}
    (file : t.node? (sourceOf base id n) = some (.file content)) :
    t.removeFile (join (join root (shard id)) (temporaryName n)) =
      .ok (t.erase (sourceOf base id n)) := by
  have there := (housed.files _ _ _ file).1
  rw [removeFile, housed.resolveSource vacant usable there]
  simp only [bind, Except.bind, file]
  rfl

end

theorem Housed.createNew {d : Disk} (housed : Housed origin d.names base)
    (vacant : Vacant origin root base)
    (there : d.names.node? (base ++ [shard id]) = some .directory) (n : Nat) :
    (∃ e, d.createNew (join (join root (shard id)) (temporaryName n)) = .error e) ∨
      Usable root id n ∧ d.names.node? (sourceOf base id n) = none ∧
      d.createNew (join (join root (shard id)) (temporaryName n)) =
        .ok (d.unused, d.made (sourceOf base id n)) := by
  have resolved := @Housed.resolveTemporary _ _ root base id n housed vacant there
  unfold Disk.createNew
  rw [createFile, FileTree.lookup, resolved, resolved]
  cases checked : checkPath (join (join root (shard id)) (temporaryName n)) with
  | error e => exact .inl ⟨e, rfl⟩
  | ok _ =>
    simp only [bind, Except.bind]
    by_cases long : longestName < (temporaryName n).length
    · rw [if_pos long]
      exact .inl ⟨_, rfl⟩
    · rw [if_neg long]
      cases taken : d.names.node? (sourceOf base id n) with
      | some node => exact .inl ⟨_, by simp only [taken]; rfl⟩
      | none => exact .inr ⟨⟨checked, long⟩, rfl, by simp only [taken]; rfl⟩

end

end ArtifactVault.DirectoryStore
