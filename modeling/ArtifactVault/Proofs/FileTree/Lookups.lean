import ArtifactVault.Proofs.FileTree.Paths

/-! What paths lead to in a tree that has changed at one place. A walk that comes upon that place on
its way follows a link there; any other walk ends where it did. How many links are allowed decides
only whether a walk ends, not where. -/
namespace ArtifactVault.FileTree

section
variable {t now : FileTree} {goal : Goal} {links : Nat} {start base place changed : Place}
  {step : Bytes} {path rest : List Bytes}

theorem walkInside (arrives : t.walk goal links place (step :: rest) = .ok base) :
    t.node? place = some .directory := by
  rw [walk] at arrives
  split at arrives
  · assumption
  · cases arrives
  · cases arrives

theorem walkExhausted {target : Bytes} (here : t.node? place = some .directory) (plain : Plain step)
    (enters : ¬ (goal = .output ∧ rest = [[]])) (link : t.node? (place ++ [step]) = some (.link target))
    (follows : ¬ (rest = [] ∧ goal = .itself)) :
    t.walk goal 0 place (step :: rest) = .error .tooManyLinks := by
  rw [walk]
  simp only [here, if_neg plain.goesOn, if_neg plain.notUp, if_neg enters, if_neg plain.short, link,
    if_neg follows]

theorem walkFront (goesOn : goal = .target ∨ rest ≠ [] ∧ rest ≠ [[]])
    (arrives : t.walk goal links start (path ++ rest) = .ok base) :
    ∃ middle left, t.walk .target links start path = .ok middle ∧
      t.walk goal left middle rest = .ok base := by
  have enters {more : List Bytes} : ¬ (goal = .output ∧ more ++ rest = [[]]) := by
    rintro ⟨rfl, last⟩
    obtain ⟨filled, named⟩ := goesOn.resolve_left (by decide)
    rcases List.append_eq_singleton_iff.mp last with ⟨-, same⟩ | ⟨-, same⟩
    · exact named same
    · exact filled same
  have follows {more : List Bytes} : ¬ (more ++ rest = [] ∧ goal = .itself) := by
    rintro ⟨last, rfl⟩
    exact (goesOn.resolve_left (by decide)).1 (List.append_eq_nil_iff.mp last).2
  fun_induction walk t .target links start path with
  | case1 links place => exact ⟨place, links, rfl, arrives⟩
  | case2 links place step more here stays ih =>
    rw [List.cons_append, walkStay here stays] at arrives
    exact ih arrives
  | case3 links place more here _ ih =>
    rw [List.cons_append, walkUp here] at arrives
    exact ih arrives
  | case4 _ _ _ _ _ _ _ output => exact absurd output.1 (by decide)
  | case5 links place step more here names notUp _ long =>
    rw [List.cons_append, walkLong here ⟨names, notUp⟩ enters long] at arrives
    cases arrives
  | case6 _ _ _ _ _ _ _ _ _ _ _ last => exact absurd last.2 (by decide)
  | case7 place step more here names notUp _ short target link =>
    rw [List.cons_append, walkExhausted here ⟨⟨names, notUp⟩, short⟩ enters link follows] at arrives
    cases arrives
  | case8 place step more here names notUp _ short target link _ links ih =>
    rw [List.cons_append, walkLink here ⟨⟨names, notUp⟩, short⟩ enters link follows,
      ← List.append_assoc] at arrives
    exact ih arrives
  | case9 links place step more here names notUp _ short node noLink there ih =>
    rw [List.cons_append, walkDown here ⟨⟨names, notUp⟩, short⟩ enters there fun target same =>
      noLink target same] at arrives
    exact ih arrives
  | case10 links place step here names notUp short missing =>
    have last : ¬ (goal = .output ∧ rest = [[]]) := @enters []
    rw [List.cons_append, List.nil_append, walkMissing here ⟨⟨names, notUp⟩, short⟩ last missing]
      at arrives
    split at arrives
    · rename_i last
      cases arrives
      exact ⟨_, links, rfl, by rw [last, walk]⟩
    · cases arrives
  | case11 links place step more here names notUp _ short missing last =>
    rw [List.cons_append, walkMissing here ⟨⟨names, notUp⟩, short⟩ enters missing, if_neg] at arrives
    · cases arrives
    · exact fun none => last (List.append_eq_nil_iff.mp none).1
  | case12 links place step more node noDirectory there =>
    rw [List.cons_append, walkBlocked there noDirectory] at arrives
    cases arrives
  | case13 links place step more there =>
    rw [List.cons_append, walk] at arrives
    simp only [there] at arrives
    cases arrives

theorem walkLinks (arrives : t.walk goal links start path = .ok base) (allowed : Nat) :
    t.walk goal allowed start path = .ok base ∨
      t.walk goal allowed start path = .error .tooManyLinks := by
  fun_induction walk t goal links start path generalizing allowed with
  | case1 =>
    rw [walk]
    exact .inl arrives
  | case2 links place step more here stays ih =>
    rw [walkStay here stays]
    exact ih arrives allowed
  | case3 links place more here _ ih =>
    rw [walkUp here]
    exact ih arrives allowed
  | case6 links place step more here names notUp enters short target link last =>
    obtain ⟨rfl, rfl⟩ := last
    rw [walkItself here ⟨⟨names, notUp⟩, short⟩ link]
    exact .inl arrives
  | case8 place step more here names notUp enters short target link follows links ih =>
    cases allowed with
    | zero => exact .inr (walkExhausted here ⟨⟨names, notUp⟩, short⟩ enters link follows)
    | succ allowed =>
      rw [walkLink here ⟨⟨names, notUp⟩, short⟩ enters link follows]
      exact ih arrives allowed
  | case9 links place step more here names notUp enters short node noLink there ih =>
    rw [walkDown here ⟨⟨names, notUp⟩, short⟩ enters there fun target same => noLink target same]
    exact ih arrives allowed
  | case10 links place step here names notUp short missing enters =>
    rw [walkMissing here ⟨⟨names, notUp⟩, short⟩ enters missing, if_pos rfl]
    exact .inl arrives
  | _ => cases arrives

theorem walkToLink (arrives : t.walk .target links start path = .ok base)
    (found : t.node? base ≠ none) :
    ∃ place, t.walk .itself links start path = .ok place ∧ t.node? place ≠ none := by
  have enters {more : List Bytes} : ¬ (Goal.itself = .output ∧ more = [[]]) := fun both =>
    absurd both.1 (by decide)
  fun_induction walk t .target links start path with
  | case1 =>
    cases arrives
    exact ⟨base, by rw [walk], found⟩
  | case2 links place step more here stays ih =>
    rw [walkStay here stays]
    exact ih arrives
  | case3 links place more here _ ih =>
    rw [walkUp here]
    exact ih arrives
  | case8 place step more here names notUp _ short target link _ links ih =>
    by_cases last : more = []
    · rw [last, walkItself here ⟨⟨names, notUp⟩, short⟩ link]
      exact ⟨_, rfl, link.trans_ne (Option.some_ne_none _)⟩
    · rw [walkLink here ⟨⟨names, notUp⟩, short⟩ enters link fun both => last both.1]
      exact ih arrives
  | case9 links place step more here names notUp _ short node noLink there ih =>
    rw [walkDown here ⟨⟨names, notUp⟩, short⟩ enters there fun target same => noLink target same]
    exact ih arrives
  | case10 links place step here names notUp short missing =>
    cases arrives
    exact absurd missing found
  | case6 _ _ _ _ _ _ _ _ _ _ _ last => exact absurd last.2 (by decide)
  | _ => cases arrives

def KeepsBeside (t now : FileTree) (changed : Place) : Prop :=
  ∀ place ≠ changed, ∀ node, t.node? place = some node → now.node? place = some node

theorem Keeps.beside (keeps : t.Keeps now) : t.KeepsBeside now changed :=
  fun place _ node found => keeps place node found

def linkStart (place : Place) (target : Bytes) : Place :=
  if isAbsolute target then [] else place.dropLast

def Followable (t : FileTree) (place : Place) : Prop :=
  ∃ target left middle, t.node? place = some (.link target) ∧
    t.walk .target left (linkStart place target) (steps target) = .ok middle ∧ t.node? middle ≠ none

theorem walkBeside (keeps : t.KeepsBeside now changed)
    (noDirectory : t.node? changed ≠ some .directory)
    (arrives : t.walk .target links start path = .ok base) (found : t.node? base ≠ none)
    (apart : base ≠ changed) :
    now.walk .target links start path = .ok base ∨ t.Followable changed := by
  have enters {more : List Bytes} : ¬ (Goal.target = .output ∧ more = [[]]) := fun both =>
    absurd both.1 (by decide)
  have follows {more : List Bytes} : ¬ (more = [] ∧ Goal.target = .itself) := fun both =>
    absurd both.2 (by decide)
  have still {place : Place} (here : t.node? place = some .directory) :
      now.node? place = some .directory :=
    keeps place (fun same => noDirectory (same ▸ here)) _ here
  fun_induction walk t .target links start path with
  | case1 links place =>
    rw [walk]
    exact .inl arrives
  | case2 links place step more here stays ih =>
    rw [walkStay (still here) stays]
    exact ih arrives
  | case3 links place more here _ ih =>
    rw [walkUp (still here)]
    exact ih arrives
  | case8 place step more here names notUp _ short target link _ links ih =>
    by_cases same : place ++ [step] = changed
    · obtain ⟨middle, left, onward, rest⟩ := walkFront (.inl rfl) arrives
      refine .inr ⟨target, links, middle, same ▸ link, ?_, ?_⟩
      · rw [linkStart, ← same, List.dropLast_concat]
        exact onward
      · cases more with
        | nil =>
          rw [walk] at rest
          cases rest
          exact found
        | cons next more =>
          rw [walkInside rest]
          exact Option.some_ne_none _
    · rw [walkLink (still here) ⟨⟨names, notUp⟩, short⟩ enters (keeps _ same _ link) follows]
      exact ih arrives
  | case9 links place step more here names notUp _ short node noLink there ih =>
    by_cases same : place ++ [step] = changed
    · cases more with
      | nil =>
        rw [walk] at arrives
        cases arrives
        exact absurd same apart
      | cons next more => exact absurd (walkInside arrives) (same ▸ noDirectory)
    · rw [walkDown (still here) ⟨⟨names, notUp⟩, short⟩ enters (keeps _ same _ there)
        fun target same => noLink target same]
      exact ih arrives
  | case10 links place step here names notUp short missing =>
    cases arrives
    exact absurd missing found
  | case6 _ _ _ _ _ _ _ _ _ _ _ last => exact absurd last.2 (by decide)
  | _ => cases arrives

end

section
variable {t now : FileTree} {goal : Goal} {path : Bytes} {place changed : Place} {node : Node}

theorem resolveIff : t.resolve goal path = .ok place ↔
    checkPath path = .ok () ∧ t.walk goal mostLinks [] (steps path) = .ok place := by
  rw [resolveEq]
  cases checkPath path with
  | ok _ => exact ⟨fun walks => ⟨rfl, walks⟩, fun both => both.2⟩
  | error e => exact ⟨(fun walks => by cases walks), fun both => by cases both.1⟩

theorem lookupIff : t.lookup goal path = .ok node ↔
    ∃ place, t.resolve goal path = .ok place ∧ t.node? place = some node := by
  refine ⟨lookupFound, fun ⟨place, resolved, found⟩ => ?_⟩
  simp only [lookup, resolved, bind, Except.bind, found]
  rfl

theorem pathExistsFound (found : t.lookup .target path = .ok node) : t.pathExists path = true := by
  rw [pathExists, found]
  rfl

theorem pathExistsFailed {e : SystemError} (failed : t.lookup .target path = .error e) :
    t.pathExists path = false := by
  rw [pathExists, failed]
  rfl

theorem lookupItself (found : t.lookup .target path = .ok node) :
    ∃ link, t.lookup .itself path = .ok link := by
  obtain ⟨place, resolved, there⟩ := lookupIff.mp found
  obtain ⟨checked, walks⟩ := resolveIff.mp resolved
  obtain ⟨link, arrives, standing⟩ := walkToLink walks (there.trans_ne (Option.some_ne_none _))
  obtain ⟨kind, here⟩ := Option.ne_none_iff_exists'.mp standing
  exact ⟨kind, lookupIff.mpr ⟨link, resolveIff.mpr ⟨checked, arrives⟩, here⟩⟩

theorem isDirectoryIff : t.isDirectory path = true ↔
    checkPath path = .ok () ∧ ∃ base, Leads t path base := by
  have looked : t.isDirectory path = true ↔ t.lookup .target path = .ok .directory := by
    unfold isDirectory
    split
    · simp only [*]
    · rename_i other
      exact ⟨(fun same => by cases same), fun found => absurd found other⟩
  rw [looked, lookupIff]
  constructor
  · rintro ⟨base, resolved, directory⟩
    obtain ⟨checked, walks⟩ := resolveIff.mp resolved
    exact ⟨checked, base, walks, directory⟩
  · rintro ⟨checked, base, leads⟩
    exact ⟨base, resolveIff.mpr ⟨checked, leads.walks⟩, leads.directory⟩

theorem lookupBeside (keeps : t.KeepsBeside now changed)
    (noDirectory : t.node? changed ≠ some .directory) (unfollowed : ¬ t.Followable changed)
    (apart : t.node? changed ≠ some node) (found : t.lookup .target path = .ok node) :
    now.lookup .target path = .ok node := by
  obtain ⟨place, resolved, there⟩ := lookupIff.mp found
  obtain ⟨checked, walks⟩ := resolveIff.mp resolved
  have elsewhere : place ≠ changed := fun same => apart (same ▸ there)
  have still :=
    walkBeside keeps noDirectory walks (there.trans_ne (Option.some_ne_none _)) elsewhere
  exact lookupIff.mpr ⟨place, resolveIff.mpr ⟨checked, still.resolve_right unfollowed⟩,
    keeps place elsewhere node there⟩

theorem missingPlace (t : FileTree) : ∃ place, t.node? place = none := by
  let longest : Place := [] :: (t.entries.map (·.1)).flatten
  refine ⟨longest, List.lookup_eq_none_iff.mpr fun entry mem => bne_iff_ne.mpr fun same => ?_⟩
  have within : entry.1 ∈ t.entries.map (·.1) := List.mem_map.mpr ⟨entry, mem, rfl⟩
  have shorter := (List.sublist_flatten_of_mem within).length_le
  rw [← same, List.length_cons] at shorter
  omega

theorem Keeps.lookup (keeps : t.Keeps now) (found : t.lookup .target path = .ok node) :
    now.lookup .target path = .ok node := by
  obtain ⟨place, missing⟩ := t.missingPlace
  have beside : t.KeepsBeside now place := keeps.beside
  refine lookupBeside beside ?_ ?_ ?_ found
  · rw [missing]
    exact (Option.some_ne_none _).symm
  · rintro ⟨target, left, middle, link, -⟩
    rw [missing] at link
    cases link
  · rw [missing]
    exact (Option.some_ne_none _).symm

end

end ArtifactVault.FileTree
