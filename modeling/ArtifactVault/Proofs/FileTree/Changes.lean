import ArtifactVault.FileTree.Change
import ArtifactVault.Proofs.FileTree.Paths
import ArtifactVault.Proofs.Outcome

/-! What longer actions on a tree come to: a directory made where there is none, and a file that is
written at one place and moved to another. -/
namespace ArtifactVault.FileTree
variable {t now : FileTree} {place source target : Place}

section
variable {path : Bytes} (filled : path ≠ []) (checked : checkPath path = .ok ())
  (named : withoutSlashes path = path) (resolved : ∀ goal, t.resolve goal path = .ok place)

include filled checked named resolved

theorem makeDirectoryEq : t.makeDirectory path =
    match t.node? place with
    | some _ => .error .alreadyExists
    | none => .ok (t.insert place .directory) := by
  unfold makeDirectory
  rw [checked, named]
  simp only [bind, Except.bind, if_neg filled, resolved]
  cases t.node? place with
  | none => rfl
  | some node => rfl

theorem makeDirectoriesNew (missing : t.node? place = none) :
    t.makeDirectories path = (.ok (), t.insert place .directory) := by
  rw [makeDirectories, if_neg filled, makeDirectoryEq filled checked named resolved, missing]
  rfl

theorem makeDirectoriesThere (there : t.node? place = some .directory) :
    t.makeDirectories path = (.ok (), t) := by
  rw [makeDirectories, if_neg filled, makeDirectoryEq filled checked named resolved, there]
  simp only [settle, isDirectory, lookup, resolved, bind, Except.bind, there]
  rfl

end

theorem makeDirectoriesBlocked {path : Bytes} {e : SystemError} (filled : path ≠ [])
    (failed : t.makeDirectory path = .error e) (other : e ≠ .notFound)
    (noDirectory : t.isDirectory path = false) : t.makeDirectories path = (.error e, t) := by
  rw [makeDirectories, if_neg filled, failed]
  cases e with
  | notFound => exact absurd rfl other
  | _ =>
    simp only [settle, noDirectory]
    rfl

theorem keepsInserted {node : Node} (fresh : t.node? place = none) :
    t.Keeps (t.insert place node) := by
  have below : place ≠ [] := by
    rintro rfl
    cases fresh
  exact keepsFresh fresh fun other apart => by rw [nodeInsert below, if_neg apart]

structure GainsDirectories (t now : FileTree) : Prop where
  keeps : t.Keeps now
  gains : ∀ place node, now.node? place = some node →
    t.node? place = some node ∨ node = .directory

theorem GainsDirectories.refl (t : FileTree) : t.GainsDirectories t :=
  ⟨fun _ _ found => found, fun _ _ found => .inl found⟩

theorem GainsDirectories.trans {later : FileTree} (first : t.GainsDirectories now)
    (second : now.GainsDirectories later) : t.GainsDirectories later := by
  refine ⟨first.keeps.trans second.keeps, fun place node found => ?_⟩
  rcases second.gains place node found with found | directory
  · exact first.gains place node found
  · exact .inr directory

theorem insertGains (fresh : t.node? place = none) :
    t.GainsDirectories (t.insert place .directory) := by
  refine ⟨keepsInserted fresh, fun other node found => ?_⟩
  have below : place ≠ [] := by
    rintro rfl
    cases fresh
  rw [nodeInsert below] at found
  split at found
  · exact .inr (Option.some.inj found).symm
  · exact .inl found

theorem makeDirectoryGains {path : Bytes} (made : t.makeDirectory path = .ok now) :
    t.GainsDirectories now := by
  obtain ⟨_, -, made⟩ := okBind made
  simp only at made
  split at made
  · cases made
  · obtain ⟨place, -, made⟩ := okBind made
    cases missing : t.node? place with
    | some node =>
      simp only [missing] at made
      cases made
    | none =>
      simp only [missing] at made
      cases made
      exact insertGains missing

theorem settleGains (t : FileTree) (path : Bytes) :
    t.GainsDirectories (t.settle path (t.makeDirectory path)).2 := by
  cases made : t.makeDirectory path with
  | ok now => exact makeDirectoryGains made
  | error e => exact .refl t

theorem makeDirectoriesGains (t : FileTree) (path : Bytes) :
    t.GainsDirectories (t.makeDirectories path).2 := by
  fun_induction makeDirectories t path with
  | case1 => exact .refl _
  | case2 => exact .refl _
  | case3 path _ missing above found shorter e later failed ih =>
    rw [failed] at ih
    exact ih
  | case4 path _ missing above found shorter _ later made ih =>
    rw [made] at ih
    exact ih.trans (settleGains later path)
  | case5 => exact .refl _
  | case6 path => exact settleGains t path

theorem writeFresh {content : Bytes} (below : place ≠ []) :
    (t.insert place (.file [])).appendAt place content =
      (t.insert place (.file [])).insert place (.file content) := by
  rw [appendAt, nodeInsert below, if_pos rfl]
  rfl

def written (t : FileTree) (source : Place) (content : Bytes) : FileTree :=
  (t.insert source (.file [])).insert source (.file content)

def replaced (t : FileTree) (source target : Place) (content : Bytes) : FileTree :=
  ((t.written source content).erase target).relocate source target

theorem nodeWritten {content : Bytes} (below : source ≠ []) (other : Place) :
    (t.written source content).node? other =
      if other = source then some (.file content) else t.node? other := by
  rw [written, nodeInsert below, nodeInsert below]
  split
  · rfl
  · rfl

theorem keepsWritten {content : Bytes} (fresh : t.node? source = none) :
    t.Keeps (t.written source content) := by
  have below : source ≠ [] := by
    rintro rfl
    cases fresh
  exact keepsFresh fresh fun other differs => by rw [nodeWritten below, if_neg differs]

section
variable (sourceBelow : source ≠ [])
  (unused : ∀ name names, t.node? (source ++ name :: names) = none)

include sourceBelow unused

theorem leafOfUnused : ∀ entry ∈ (t.erase target).entries, source <+: entry.1 → entry.1 = source := by
  rintro entry mem ⟨names, same⟩
  cases names with
  | nil => rw [← same, List.append_nil]
  | cons name names =>
    have inside : source ++ name :: names ≠ [] := List.append_ne_nil_of_left_ne_nil sourceBelow _
    exact absurd same.symm (noEntry inside (unused name names) entry (List.mem_filter.mp mem).1)

theorem nodeMoved (targetBelow : target ≠ []) (apart : source ≠ target) (other : Place) :
    ((t.erase target).relocate source target).node? other =
      if other = target then t.node? source
      else if other = source then none else t.node? other := by
  have free : (t.erase target).node? target = none := by rw [nodeErase targetBelow, if_pos rfl]
  rw [nodeRelocate sourceBelow targetBelow (leafOfUnused sourceBelow unused) free,
    nodeErase targetBelow, if_neg apart, nodeErase targetBelow]
  by_cases atTarget : other = target
  · rw [if_pos atTarget, if_pos atTarget]
  · rw [if_neg atTarget, if_neg atTarget, if_neg atTarget]

theorem unusedWritten {content : Bytes} (name : Bytes) (names : Place) :
    (t.written source content).node? (source ++ name :: names) = none := by
  have longer : source ++ name :: names ≠ source := fun same => by
    have lengths := congrArg List.length same
    simp only [List.length_append, List.length_cons] at lengths
    omega
  rw [nodeWritten sourceBelow, if_neg longer, unused]

theorem nodeReplaced {content : Bytes} (targetBelow : target ≠ []) (apart : source ≠ target)
    (other : Place) :
    (t.replaced source target content).node? other =
      if other = target then some (.file content)
      else if other = source then none else t.node? other := by
  rw [replaced, nodeMoved sourceBelow (unusedWritten sourceBelow unused) targetBelow apart,
    nodeWritten sourceBelow, if_pos rfl, nodeWritten sourceBelow]
  by_cases atSource : other = source
  · rw [if_pos atSource, if_pos atSource]
  · rw [if_neg atSource, if_neg atSource, if_neg atSource]

end

theorem nodeReplacedFresh {content : Bytes} (sourceBelow : source ≠ []) (targetBelow : target ≠ [])
    (apart : source ≠ target) (unused : ∀ names, t.node? (source ++ names) = none) (other : Place) :
    (t.replaced source target content).node? other =
      if other = target then some (.file content) else t.node? other := by
  have fresh := unused []
  rw [List.append_nil] at fresh
  rw [nodeReplaced sourceBelow (fun name names => unused (name :: names)) targetBelow apart]
  by_cases atSource : other = source
  · rw [if_pos atSource, atSource, fresh]
  · rw [if_neg atSource]

theorem onceReplaced {base : Place} {content : Bytes} (once : t.OnceBelow base)
    (sourceBelow : Below base source) (targetBelow : target ≠ [])
    (unused : ∀ names, t.node? (source ++ names) = none) :
    (t.replaced source target content).OnceBelow base := by
  have free : ((t.written source content).erase target).node? target = none := by
    rw [nodeErase targetBelow, if_pos rfl]
  have below := belowNotTop sourceBelow
  have leaf := @leafOfUnused (t.written source content) source target below
    (unusedWritten below fun name names => unused (name :: names))
  exact onceRelocate (onceErase (onceInsert (onceInsert once))) targetBelow sourceBelow leaf free

theorem checkReplaceFile (t : FileTree) (content : Bytes) (place : Place) :
    t.checkReplace (.file content) place =
      if t.node? place = some .directory then .error .isADirectory else .ok () := by
  unfold checkReplace
  cases t.node? place with
  | none => rfl
  | some node => cases node <;> rfl

theorem renameFile {path targetPath content : Bytes} (checked : checkPath targetPath = .ok ())
    (leaves : t.resolve .itself path = .ok source)
    (arrives : t.resolve .itself targetPath = .ok target) (apart : source ≠ target)
    (there : t.node? source = some (.file content)) : t.rename path targetPath =
      if t.node? target = some .directory then .error .isADirectory
      else .ok ((t.erase target).relocate source target) := by
  rw [rename, checked]
  simp only [bind, Except.bind, leaves, arrives, there, if_neg apart, checkReplaceFile]
  by_cases directory : t.node? target = some .directory
  · rw [if_pos directory, if_pos directory]
  · rw [if_neg directory, if_neg directory]
    rfl

end ArtifactVault.FileTree
