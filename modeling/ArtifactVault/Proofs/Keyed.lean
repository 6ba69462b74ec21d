import Mathlib.Data.List.Nodup

/-! Lists of entries under keys. A lookup finds the first entry of its key. -/
namespace ArtifactVault.Keyed
variable {α β : Type} [BEq α] [LawfulBEq α] {key : α} {entries others : List (α × β)}

theorem noEntry (nothing : entries.lookup key = none) : ∀ entry ∈ entries, entry.1 ≠ key := by
  rw [List.lookup_eq_none_iff] at nothing
  intro entry mem same
  have differs := nothing entry mem
  rw [same, bne_self_eq_false] at differs
  exact Bool.noConfusion differs

variable [DecidableEq α]

theorem lookupCons {entry : α × β} : (entry :: entries).lookup key =
    if key = entry.1 then some entry.2 else entries.lookup key := by
  rw [List.lookup_cons]
  by_cases same : key = entry.1
  · rw [if_pos same, beq_iff_eq.mpr same]
  · rw [if_neg same, beq_eq_false_iff_ne.mpr same]

theorem lookupFilter (removed : α) : (entries.filter fun entry => entry.1 ≠ removed).lookup key =
    if key = removed then none else entries.lookup key := by
  induction entries with
  | nil => exact (ite_self _).symm
  | cons entry entries ih =>
    by_cases gone : entry.1 = removed
    · rw [List.filter_cons_of_neg (by simpa using gone), ih, lookupCons, gone]
      split
      · rfl
      · rfl
    · rw [List.filter_cons_of_pos (by simpa using gone), lookupCons, lookupCons, ih]
      by_cases same : key = removed
      · rw [if_pos same, if_pos same, if_neg (same ▸ Ne.symm gone)]
      · rw [if_neg same, if_neg same]

theorem foundIff : key ∈ entries.map (·.1) ↔ (entries.lookup key).isSome := by
  induction entries with
  | nil => simp
  | cons entry entries ih =>
    rw [List.map_cons, List.mem_cons, lookupCons, ih]
    by_cases same : key = entry.1
    · simp [same]
    · simp [same]

theorem lookupIff (once : (entries.map (·.1)).Nodup) {value : β} :
    entries.lookup key = some value ↔ (key, value) ∈ entries := by
  induction entries with
  | nil => exact ⟨nofun, nofun⟩
  | cons entry entries ih =>
    obtain ⟨fresh, once⟩ := List.nodup_cons.mp once
    rw [lookupCons, List.mem_cons]
    by_cases same : key = entry.1
    · subst same
      rw [if_pos rfl, Option.some.injEq]
      refine ⟨fun value => .inl (Prod.ext rfl value.symm), fun mem => ?_⟩
      rcases mem with here | later
      · exact (congrArg Prod.snd here).symm
      · exact absurd (List.mem_map.mpr ⟨_, later, rfl⟩) fresh
    · rw [if_neg same, ih once]
      exact ⟨.inr, fun mem => mem.resolve_left fun here => same (congrArg Prod.fst here)⟩

theorem lookupPerm (once : (entries.map (·.1)).Nodup) (perm : others.Perm entries) (key : α) :
    others.lookup key = entries.lookup key := by
  have onceOthers := (perm.map (·.1)).nodup_iff.mpr once
  ext value
  rw [lookupIff onceOthers, lookupIff once, perm.mem_iff]

theorem permOfLookups (once : (entries.map (·.1)).Nodup) (onceOthers : (others.map (·.1)).Nodup)
    (same : ∀ key, others.lookup key = entries.lookup key) : others.Perm entries := by
  refine (List.perm_ext_iff_of_nodup (.of_map _ onceOthers) (.of_map _ once)).mpr fun entry => ?_
  rw [← lookupIff onceOthers, same, lookupIff once]

end ArtifactVault.Keyed
