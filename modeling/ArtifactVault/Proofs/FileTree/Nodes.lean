import ArtifactVault.FileTree.Basic
import ArtifactVault.Proofs.Keyed

/-! Each change of a tree by the nodes it leaves. A place may stand in the list more than once, so
what is said of listings asks that the places below a directory are listed once. -/
namespace ArtifactVault.FileTree
open Keyed
variable {t : FileTree} {base place other : Place} {node : Node}

theorem nodeLookup (inside : other ≠ []) : t.node? other = t.entries.lookup other := by
  cases other with
  | nil => exact absurd rfl inside
  | cons name names => rfl

theorem nodeErase (below : place ≠ []) (other : Place) :
    (t.erase place).node? other = if other = place then none else t.node? other := by
  cases other with
  | nil =>
    rw [if_neg below.symm]
    rfl
  | cons name names => exact lookupFilter place

theorem nodeInsert (below : place ≠ []) (other : Place) :
    (t.insert place node).node? other = if other = place then some node else t.node? other := by
  have behind := @nodeErase t place below other
  cases other with
  | nil =>
    rw [if_neg below.symm]
    rfl
  | cons name names =>
    rw [nodeLookup (List.cons_ne_nil _ _)] at behind ⊢
    rw [insert, lookupCons, behind]
    by_cases same : name :: names = place
    · rw [if_pos same, if_pos same]
    · rw [if_neg same, if_neg same, if_neg same]

theorem insertInserted (first : Node) :
    (t.insert place first).insert place node = t.insert place node := by
  have gone : (t.insert place first).erase place = t.erase place := by
    simp [erase, insert, List.filter_filter]
  rw [insert, gone, insert]

theorem noEntry (inside : other ≠ []) (nothing : t.node? other = none) :
    ∀ entry ∈ t.entries, entry.1 ≠ other := by
  rw [nodeLookup inside] at nothing
  exact Keyed.noEntry nothing

def moved (source target : Place) (entry : Place × Node) : Place × Node :=
  if entry.1 = source then (target, entry.2) else entry

theorem relocateLeaf {source target : Place}
    (leaf : ∀ entry ∈ t.entries, source <+: entry.1 → entry.1 = source) :
    (t.relocate source target).entries = t.entries.map (moved source target) := by
  refine List.map_congr_left fun entry mem => ?_
  by_cases same : entry.1 = source
  · have front : source.isPrefixOf entry.1 = true :=
      List.isPrefixOf_iff_prefix.mpr (same ▸ List.prefix_refl _)
    rw [if_pos front, moved, if_pos same, same, List.drop_length, List.append_nil]
  · have front : ¬ source.isPrefixOf entry.1 = true := by
      rw [List.isPrefixOf_iff_prefix]
      exact fun front => same (leaf entry mem front)
    rw [if_neg front, moved, if_neg same]

theorem lookupMoved {entries : List (Place × Node)} {source target : Place}
    (free : ∀ entry ∈ entries, entry.1 ≠ target) :
    (entries.map (moved source target)).lookup other =
      if other = target then entries.lookup source
      else if other = source then none else entries.lookup other := by
  induction entries with
  | nil =>
    split
    · rfl
    · exact (ite_self _).symm
  | cons entry entries ih =>
    have rest := ih fun entry mem => free entry (by simp [mem])
    by_cases leaves : entry.1 = source
    · have put : moved source target entry = (target, entry.2) := if_pos leaves
      rw [List.map_cons, put, lookupCons, rest, lookupCons, lookupCons, leaves]
      by_cases atTarget : other = target
      · rw [if_pos atTarget, if_pos atTarget, if_pos rfl]
      · rw [if_neg atTarget, if_neg atTarget, if_neg atTarget]
        split
        · rfl
        · rfl
    · have stays : moved source target entry = entry := if_neg leaves
      rw [List.map_cons, stays, lookupCons, rest, lookupCons, lookupCons, if_neg (Ne.symm leaves)]
      by_cases here : other = entry.1
      · rw [if_pos here, if_pos here, if_neg (here ▸ free entry (by simp)), if_neg (here ▸ leaves)]
      · rw [if_neg here, if_neg here]

theorem nodeRelocate {source target : Place} (sourceBelow : source ≠ []) (targetBelow : target ≠ [])
    (leaf : ∀ entry ∈ t.entries, source <+: entry.1 → entry.1 = source)
    (free : t.node? target = none) (other : Place) :
    (t.relocate source target).node? other =
      if other = target then t.node? source
      else if other = source then none else t.node? other := by
  cases other with
  | nil =>
    rw [if_neg targetBelow.symm, if_neg sourceBelow.symm]
    rfl
  | cons name names =>
    have inside : name :: names ≠ [] := List.cons_ne_nil _ _
    rw [nodeLookup inside, nodeLookup sourceBelow, nodeLookup inside, relocateLeaf leaf]
    exact lookupMoved (noEntry targetBelow free)

def Below (base place : Place) : Prop := base <+: place ∧ place ≠ base

theorem belowNotTop (below : Below base place) : place ≠ [] := by
  rintro rfl
  exact below.2 (List.prefix_nil.mp below.1).symm

theorem belowCons (base : Place) (name : Bytes) (names : Place) :
    Below base (base ++ name :: names) := by
  refine ⟨List.prefix_append _ _, fun same => ?_⟩
  have lengths := congrArg List.length same
  simp only [List.length_append, List.length_cons] at lengths
  omega

theorem belowNames (below : Below base place) : ∃ name names, place = base ++ name :: names := by
  obtain ⟨⟨names, rfl⟩, strict⟩ := below
  cases names with
  | nil => exact absurd (List.append_nil base) strict
  | cons name names => exact ⟨name, names, rfl⟩

def OnceBelow (t : FileTree) (base : Place) : Prop :=
  t.entries.Pairwise fun x y => Below base x.1 → x.1 ≠ y.1

theorem onceErase (once : t.OnceBelow base) : (t.erase place).OnceBelow base :=
  once.sublist List.filter_sublist

theorem onceInsert (once : t.OnceBelow base) : (t.insert place node).OnceBelow base := by
  refine List.pairwise_cons.mpr ⟨fun entry mem _ same => ?_, onceErase once⟩
  have kept := (List.mem_filter.mp mem).2
  exact of_decide_eq_true kept same.symm

theorem onceRelocate {source target : Place} (once : t.OnceBelow base) (inside : target ≠ [])
    (below : Below base source)
    (leaf : ∀ entry ∈ t.entries, source <+: entry.1 → entry.1 = source)
    (free : t.node? target = none) : (t.relocate source target).OnceBelow base := by
  rw [OnceBelow, relocateLeaf leaf, List.pairwise_map]
  refine once.imp_of_mem fun {x y} memX memY differ => ?_
  have freeX := noEntry inside free x memX
  have freeY := noEntry inside free y memY
  simp only [moved]
  by_cases leavesX : x.1 = source
  · have other : y.1 ≠ source := by
      have different := differ (leavesX ▸ below)
      exact fun same => different (leavesX.trans same.symm)
    rw [if_pos leavesX, if_neg other]
    exact fun _ => Ne.symm freeY
  · rw [if_neg leavesX]
    by_cases leavesY : y.1 = source
    · rw [if_pos leavesY]
      exact fun _ => freeX
    · rw [if_neg leavesY]
      exact differ

theorem entryIff (once : t.OnceBelow base) (below : Below base place) :
    (place, node) ∈ t.entries ↔ t.node? place = some node := by
  rw [nodeLookup (belowNotTop below)]
  unfold OnceBelow at once
  generalize t.entries = entries at once ⊢
  induction entries with
  | nil => simp
  | cons entry entries ih =>
    obtain ⟨first, rest⟩ := List.pairwise_cons.mp once
    rw [List.mem_cons, lookupCons]
    by_cases here : place = entry.1
    · rw [if_pos here]
      constructor
      · rintro (same | later)
        · rw [← same]
        · exact absurd here.symm (first _ later (here ▸ below))
      · intro found
        exact .inl (Prod.ext here (Option.some.inj found).symm)
    · rw [if_neg here, ← ih rest]
      constructor
      · rintro (same | later)
        · exact absurd (congrArg Prod.fst same) here
        · exact later
      · exact .inr

theorem nameBelowIff {name : Bytes} : nameBelow? base place = some name ↔ place = base ++ [name] := by
  unfold nameBelow?
  constructor
  · intro found
    split at found
    · split at found
      · cases found
        assumption
      · cases found
    · cases found
  · rintro rfl
    rw [List.getLast?_concat]
    exact if_pos rfl

theorem childIff {name : Bytes} :
    (name, node) ∈ t.children base ↔ (base ++ [name], node) ∈ t.entries := by
  simp only [children, List.mem_filterMap, Option.map_eq_some_iff, nameBelowIff]
  constructor
  · rintro ⟨entry, mem, found, place, same⟩
    obtain ⟨rfl, rfl⟩ := Prod.mk.inj same
    rw [← place]
    exact mem
  · intro mem
    exact ⟨_, mem, name, rfl, rfl⟩

theorem childrenNodup {directory : Place} (once : t.OnceBelow base) (within : base <+: directory) :
    ((t.children directory).map (·.1)).Nodup := by
  have names : (t.children directory).map (·.1) =
      t.entries.filterMap fun entry => nameBelow? directory entry.1 := by
    simp only [children, List.map_filterMap, Option.map_map]
    congr 1
    funext entry
    cases nameBelow? directory entry.1 <;> rfl
  rw [names]
  refine List.pairwise_filterMap.mpr (once.imp fun {x y} differ name first other second => ?_)
  rw [nameBelowIff] at first second
  rintro rfl
  refine differ ?_ (first.trans second.symm)
  rw [first]
  refine ⟨within.trans (List.prefix_append _ _), fun same => ?_⟩
  have shorter := within.length_le
  have lengths := congrArg List.length same
  simp only [List.length_append, List.length_cons, List.length_nil] at lengths
  omega

end ArtifactVault.FileTree
