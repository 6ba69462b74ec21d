import ArtifactVault.Proofs.FileTree.Nodes
import ArtifactVault.FileTree.Path

/-! Paths below a directory that a path leads to. However that directory is reached, by links or by
steps up, a path that goes on by plain names goes on from there, also in a tree in which more
stands by now. -/
namespace ArtifactVault.FileTree

structure Descends (step : Bytes) : Prop where
  goesOn : ¬ (step = [] ∨ step = dot)
  notUp : step ≠ dotDot

structure Plain (step : Bytes) : Prop extends Descends step where
  short : ¬ longestName < step.length

structure Name (name : Bytes) : Prop extends Plain name where
  noSlash : slash ∉ name
  noZero : 0 ∉ name

theorem Descends.filled {step : Bytes} (descends : Descends step) : step ≠ [] :=
  fun nothing => descends.goesOn (.inl nothing)

theorem splitFilled (path : Bytes) : splitPath path ≠ [] := by
  cases path with
  | nil => exact List.cons_ne_nil _ _
  | cons byte path =>
    rw [splitPath, List.foldr_cons]
    split
    · exact List.cons_ne_nil _ _
    · split
      · exact List.cons_ne_nil _ _
      · exact List.cons_ne_nil _ _

theorem splitAtSlash (path rest : Bytes) :
    splitPath (path ++ slash :: rest) = splitPath path ++ splitPath rest := by
  induction path with
  | nil => rfl
  | cons byte path ih =>
    unfold splitPath at ih ⊢
    rw [List.cons_append, List.foldr_cons, List.foldr_cons, ih]
    by_cases cut : byte = slash
    · rw [if_pos cut, if_pos cut]
      rfl
    · rw [if_neg cut, if_neg cut]
      cases parts : path.foldr _ [[]] with
      | nil => exact absurd parts (splitFilled path)
      | cons part parts => rfl

theorem splitName {name : Bytes} (plain : slash ∉ name) : splitPath name = [name] := by
  induction name with
  | nil => rfl
  | cons byte name ih =>
    obtain ⟨other, plain⟩ := not_or.mp (fun mem => plain (List.mem_cons.mpr mem))
    have rest := ih plain
    unfold splitPath at rest ⊢
    rw [List.foldr_cons, rest, if_neg (Ne.symm other)]

def names (path : Bytes) : List Bytes := (splitPath path).filter (· ≠ [])

theorem stepsEq (path : Bytes) :
    steps path = names path ++ (if path.getLast? = some slash then [[]] else []) := rfl

section
variable {path name : Bytes}

theorem namesJoin (named : name ≠ []) (noSlash : slash ∉ name) :
    names (join path name) = names path ++ [name] := by
  have kept : [name].filter (· ≠ []) = [name] := by
    rw [List.filter_cons_of_pos (by simpa using named), List.filter_nil]
  have nothing : (splitPath []).filter (· ≠ []) = [] := rfl
  unfold names join
  by_cases ends : path = [] ∨ path.getLast? = some slash
  · rw [if_pos ends]
    rcases ends with rfl | ends
    · rw [List.nil_append, splitName noSlash, kept, nothing, List.nil_append]
    · obtain ⟨front, rfl⟩ := List.getLast?_eq_some_iff.mp ends
      rw [List.append_assoc, List.singleton_append, splitAtSlash, splitAtSlash, splitName noSlash,
        List.filter_append, List.filter_append, kept, nothing, List.append_nil]
  · rw [if_neg ends, splitAtSlash, splitName noSlash, List.filter_append, kept]

theorem joinBehind (path name : Bytes) : ∃ front, join path name = front ++ name ∧
    front.length ≤ path.length + 1 ∧ ∀ byte ∈ front, byte ∈ path ∨ byte = slash := by
  unfold join
  split
  · exact ⟨path, rfl, Nat.le_succ _, fun byte mem => .inl mem⟩
  · refine ⟨path ++ [slash], (List.append_cons path slash name), ?_, fun byte mem => ?_⟩
    · rw [List.length_append]
      exact Nat.le_refl _
    · rcases List.mem_append.mp mem with mem | mem
      · exact .inl mem
      · exact .inr (List.mem_singleton.mp mem)

theorem joinFilled (named : name ≠ []) : join path name ≠ [] := by
  obtain ⟨front, joined, -, -⟩ := joinBehind path name
  rw [joined]
  exact List.append_ne_nil_of_right_ne_nil _ named

theorem lastOfJoin (named : name ≠ []) (noSlash : slash ∉ name) :
    (join path name).getLast? ≠ some slash := by
  obtain ⟨front, joined, -, -⟩ := joinBehind path name
  rw [joined, List.getLast?_append_of_ne_nil _ named]
  exact fun last => noSlash (List.mem_of_getLast? last)

theorem stepsJoin (named : name ≠ []) (noSlash : slash ∉ name) :
    steps (join path name) = names path ++ [name] := by
  rw [stepsEq, namesJoin named noSlash, if_neg (lastOfJoin named noSlash), List.append_nil]

theorem checkPathIff : checkPath path = .ok () ↔
    0 ∉ path ∧ path ≠ [] ∧ path.length ≤ longestPath := by
  unfold checkPath
  by_cases zero : (0 : UInt8) ∈ path
  · simp [zero]
  · by_cases nothing : path = []
    · simp [nothing]
    · by_cases long : longestPath < path.length
      · simp [zero, nothing, long]
      · simp [zero, nothing, long]
        exact Nat.le_of_not_lt long

theorem checkPathFault {e : SystemError} (filled : path ≠ []) (fault : checkPath path = .error e) :
    e ≠ .notFound := by
  rintro rfl
  unfold checkPath at fault
  simp only [if_neg filled] at fault
  split at fault
  · cases fault
  · split at fault
    · cases fault
    · cases fault

theorem checkJoin (plain : Name name) (checked : checkPath path = .ok ())
    (room : path.length + 1 + name.length ≤ longestPath) : checkPath (join path name) = .ok () := by
  obtain ⟨noZero, -, -⟩ := checkPathIff.mp checked
  obtain ⟨front, joined, length, bytes⟩ := joinBehind path name
  refine checkPathIff.mpr ⟨?_, joinFilled plain.filled, ?_⟩
  · rw [joined, List.mem_append]
    rintro (mem | mem)
    · rcases bytes 0 mem with mem | same
      · exact noZero mem
      · exact absurd same (by decide)
    · exact plain.noZero mem
  · rw [joined, List.length_append]
    omega

theorem withoutSlashesJoin (plain : Name name) : withoutSlashes (join path name) = join path name := by
  have last := @lastOfJoin path name plain.filled plain.noSlash
  rw [← List.head?_reverse] at last
  unfold withoutSlashes
  cases backwards : (join path name).reverse with
  | nil => exact absurd (List.reverse_eq_nil_iff.mp backwards) (joinFilled plain.filled)
  | cons byte rest =>
    rw [backwards, List.head?_cons] at last
    have kept : ¬ (byte = slash) := fun same => last (congrArg some same)
    rw [List.dropWhile_cons_of_neg (by simpa using kept), ← backwards, List.reverse_reverse]

end

section
variable {t : FileTree} {goal : Goal} {links : Nat} {place : Place} {step : Bytes} {rest : List Bytes}

theorem walkStay (here : t.node? place = some .directory) (stays : step = [] ∨ step = dot) :
    t.walk goal links place (step :: rest) = t.walk goal links place rest := by
  rw [walk]
  simp only [here, if_pos stays]

theorem walkUp (here : t.node? place = some .directory) :
    t.walk goal links place (dotDot :: rest) = t.walk goal links place.dropLast rest := by
  have goesOn : ¬ (dotDot = [] ∨ dotDot = dot) := by decide
  rw [walk]
  simp only [here, if_neg goesOn, if_true]

theorem walkLink {target : Bytes} (here : t.node? place = some .directory) (plain : Plain step)
    (enters : ¬ (goal = .output ∧ rest = [[]])) (link : t.node? (place ++ [step]) = some (.link target))
    (follows : ¬ (rest = [] ∧ goal = .itself)) :
    t.walk goal (links + 1) place (step :: rest) =
      t.walk goal links (if isAbsolute target then [] else place) (steps target ++ rest) := by
  rw [walk]
  simp only [here, if_neg plain.goesOn, if_neg plain.notUp, if_neg enters, if_neg plain.short, link,
    if_neg follows]

theorem walkDown {node : Node} (here : t.node? place = some .directory) (plain : Plain step)
    (enters : ¬ (goal = .output ∧ rest = [[]])) (there : t.node? (place ++ [step]) = some node)
    (noLink : ∀ target, node ≠ .link target) :
    t.walk goal links place (step :: rest) = t.walk goal links (place ++ [step]) rest := by
  rw [walk]
  simp only [here, if_neg plain.goesOn, if_neg plain.notUp, if_neg enters, if_neg plain.short, there]

theorem walkBlocked {node : Node} (there : t.node? place = some node) (other : node ≠ .directory) :
    t.walk goal links place (step :: rest) = .error .notADirectory := by
  rw [walk]
  cases node with
  | directory => exact absurd rfl other
  | file content => simp only [there]
  | link target => simp only [there]

theorem walkLong (here : t.node? place = some .directory) (descends : Descends step)
    (enters : ¬ (goal = .output ∧ rest = [[]])) (long : longestName < step.length) :
    t.walk goal links place (step :: rest) = .error .nameTooLong := by
  rw [walk]
  simp only [here, if_neg descends.goesOn, if_neg descends.notUp, if_neg enters, if_pos long]

theorem walkMissing (here : t.node? place = some .directory) (plain : Plain step)
    (enters : ¬ (goal = .output ∧ rest = [[]])) (missing : t.node? (place ++ [step]) = none) :
    t.walk goal links place (step :: rest) =
      if rest = [] then .ok (place ++ [step]) else .error .notFound := by
  rw [walk]
  simp only [here, if_neg plain.goesOn, if_neg plain.notUp, if_neg enters, if_neg plain.short,
    missing]

theorem walkItself {target : Bytes} (here : t.node? place = some .directory) (plain : Plain step)
    (link : t.node? (place ++ [step]) = some (.link target)) :
    t.walk .itself links place [step] = .ok (place ++ [step]) := by
  have enters : ¬ (Goal.itself = .output ∧ ([] : List Bytes) = [[]]) := fun both => by cases both.1
  rw [walk]
  simp only [here, if_neg plain.goesOn, if_neg plain.notUp, if_neg enters, if_neg plain.short, link,
    and_self, if_true]

theorem walkToName (here : t.node? place = some .directory) (descends : Descends step)
    (direct : goal = .itself ∨ ∀ target, t.node? (place ++ [step]) ≠ some (.link target)) :
    t.walk goal links place [step] =
      if longestName < step.length then .error .nameTooLong else .ok (place ++ [step]) := by
  have enters : ¬ (goal = .output ∧ ([] : List Bytes) = [[]]) := fun both => by cases both.2
  split
  · exact walkLong here descends enters (by assumption)
  · have plain : Plain step := ⟨descends, by assumption⟩
    cases there : t.node? (place ++ [step]) with
    | none => rw [walkMissing here plain enters there, if_pos rfl]
    | some node =>
      cases node with
      | link target =>
        rcases direct with rfl | noLink
        · exact walkItself here plain there
        · exact absurd there (noLink target)
      | _ => rw [walkDown here plain enters there (fun _ same => by cases same), walk]

end

def Keeps (t now : FileTree) : Prop :=
  ∀ place node, t.node? place = some node → now.node? place = some node

theorem Keeps.trans {t now later : FileTree} (first : t.Keeps now) (second : now.Keeps later) :
    t.Keeps later := fun place node found => second place node (first place node found)

def Ways (t now : FileTree) : Prop :=
  ∀ place node, (∀ content, node ≠ .file content) → t.node? place = some node →
    now.node? place = some node

theorem Keeps.ways {t now : FileTree} (keeps : t.Keeps now) : t.Ways now :=
  fun place node _ found => keeps place node found

theorem Ways.refl (t : FileTree) : t.Ways t := fun _ _ _ found => found

theorem Ways.trans {t now later : FileTree} (first : t.Ways now) (second : now.Ways later) :
    t.Ways later := fun place node noFile found => second place node noFile (first place node noFile found)

theorem Ways.directory {t now : FileTree} {place : Place} (ways : t.Ways now)
    (found : t.node? place = some .directory) : now.node? place = some .directory :=
  ways place _ (fun _ => Node.noConfusion) found

theorem Ways.link {t now : FileTree} {place : Place} {target : Bytes} (ways : t.Ways now)
    (found : t.node? place = some (.link target)) : now.node? place = some (.link target) :=
  ways place _ (fun _ => Node.noConfusion) found

theorem keepsFresh {t now : FileTree} {place : Place} (fresh : t.node? place = none)
    (same : ∀ other ≠ place, now.node? other = t.node? other) : t.Keeps now := by
  intro other node found
  have elsewhere : other ≠ place := by
    rintro rfl
    rw [fresh] at found
    cases found
  rw [same other elsewhere]
  exact found

section
variable {t now : FileTree} {links : Nat} {start base : Place} {path rest : List Bytes} {goal : Goal}

theorem walkStart (directory : t.node? base = some .directory)
    (arrives : t.walk goal links start path = .ok base) : t.node? start = some .directory := by
  cases path with
  | nil =>
    rw [walk] at arrives
    cases arrives
    exact directory
  | cons step rest =>
    rw [walk] at arrives
    split at arrives
    · assumption
    · cases arrives
    · cases arrives

theorem walkOn (ways : t.Ways now) (directory : t.node? base = some .directory)
    (goesOn : goal = .target ∨ rest ≠ [] ∧ rest ≠ [[]])
    (arrives : t.walk .target links start path = .ok base) :
    ∃ left, now.walk goal links start (path ++ rest) = now.walk goal left base rest := by
  have enters {more : List Bytes} : ¬ (goal = .output ∧ more ++ rest = [[]]) := by
    rintro ⟨rfl, last⟩
    obtain ⟨filled, named⟩ := goesOn.resolve_left (by decide)
    rcases List.append_eq_singleton_iff.mp last with ⟨-, same⟩ | ⟨-, same⟩
    · exact named same
    · exact filled same
  have follows {more : List Bytes} : ¬ (more ++ rest = [] ∧ goal = .itself) := by
    rintro ⟨last, rfl⟩
    exact (goesOn.resolve_left (by decide)).1 (List.append_eq_nil_iff.mp last).2
  fun_induction walk t .target links start path with
  | case1 links place =>
    cases arrives
    exact ⟨links, rfl⟩
  | case2 links place step more here stays ih =>
    rw [List.cons_append, walkStay (ways.directory here) stays]
    exact ih arrives
  | case3 links place more here _ ih =>
    rw [List.cons_append, walkUp (ways.directory here)]
    exact ih arrives
  | case8 place step more here names notUp _ short target link _ links ih =>
    rw [List.cons_append, walkLink (ways.directory here) ⟨⟨names, notUp⟩, short⟩ enters
      (ways.link link) follows, ← List.append_assoc]
    exact ih arrives
  | case9 links place step more here names notUp _ short node noLink there ih =>
    rw [walkStart directory arrives] at there
    cases there
    rw [List.cons_append, walkDown (ways.directory here) ⟨⟨names, notUp⟩, short⟩ enters
      (ways.directory (walkStart directory arrives)) noLink]
    exact ih arrives
  | case10 links place step here _ _ _ missing =>
    cases arrives
    rw [missing] at directory
    cases directory
  | case6 _ _ _ _ _ _ _ _ _ _ _ last => exact absurd last.2 (by decide)
  | _ => cases arrives

def Unlinked (t : FileTree) : Prop := ∀ place target, t.node? place ≠ some (.link target)

theorem walkUnlinked (unlinked : t.Unlinked) :
    t.walk .itself links start path = t.walk .target links start path := by
  have enters {more : List Bytes} : ¬ (Goal.itself = .output ∧ more = [[]]) := fun both =>
    absurd both.1 (by decide)
  fun_induction walk t .target links start path with
  | case1 => rw [walk]
  | case2 links place step more here stays ih => rw [walkStay here stays, ih]
  | case3 links place more here _ ih => rw [walkUp here, ih]
  | case4 _ _ _ _ _ _ _ output => exact absurd output.1 (by decide)
  | case5 _ place step more here names notUp _ long => exact walkLong here ⟨names, notUp⟩ enters long
  | case6 _ place step _ _ _ _ _ _ target link => exact absurd link (unlinked _ _)
  | case7 place step _ _ _ _ _ _ target link => exact absurd link (unlinked _ _)
  | case8 place step _ _ _ _ _ _ target link => exact absurd link (unlinked _ _)
  | case9 links place step more here names notUp _ short node noLink there ih =>
    rw [walkDown here ⟨⟨names, notUp⟩, short⟩ enters there fun target same => noLink target same, ih]
  | case10 links place step here names notUp short missing =>
    rw [walkMissing here ⟨⟨names, notUp⟩, short⟩ enters missing, if_pos rfl]
  | case11 links place step more here names notUp _ short missing last =>
    rw [walkMissing here ⟨⟨names, notUp⟩, short⟩ enters missing, if_neg last]
  | case12 links place step more node noDirectory there =>
    exact walkBlocked there noDirectory
  | case13 links place step more there =>
    rw [walk]
    simp only [there]

theorem walkStaying (arrives : t.walk .target links start (path ++ [[]]) = .ok base) :
    t.walk .target links start path = .ok base := by
  generalize whole : path ++ [[]] = all at arrives
  have enters {more : List Bytes} : ¬ (Goal.target = .output ∧ more = [[]]) := fun both =>
    absurd both.1 (by decide)
  have follows {more : List Bytes} : ¬ (more = [] ∧ Goal.target = .itself) := fun both =>
    absurd both.2 (by decide)
  fun_induction walk t .target links start all generalizing path with
  | case1 => exact absurd whole (List.append_ne_nil_of_right_ne_nil _ (List.cons_ne_nil _ _))
  | case2 links place step more here stays ih =>
    rcases List.append_eq_cons_iff.mp whole with ⟨rfl, last⟩ | ⟨front, rfl, rfl⟩
    · cases last
      exact arrives
    · rw [walkStay here stays]
      exact ih rfl arrives
  | case3 links place more here goesOn ih =>
    rcases List.append_eq_cons_iff.mp whole with ⟨rfl, last⟩ | ⟨front, rfl, rfl⟩
    · cases last
    · rw [walkUp here]
      exact ih rfl arrives
  | case8 place step more here names notUp _ short target link _ links ih =>
    rcases List.append_eq_cons_iff.mp whole with ⟨rfl, last⟩ | ⟨front, rfl, rfl⟩
    · cases last
      exact absurd (.inl rfl) names
    · rw [walkLink here ⟨⟨names, notUp⟩, short⟩ enters link follows]
      exact ih (List.append_assoc _ _ _) arrives
  | case9 links place step more here names notUp _ short node noLink there ih =>
    rcases List.append_eq_cons_iff.mp whole with ⟨rfl, last⟩ | ⟨front, rfl, rfl⟩
    · cases last
      exact absurd (.inl rfl) names
    · rw [walkDown here ⟨⟨names, notUp⟩, short⟩ enters there fun target same => noLink target same]
      exact ih rfl arrives
  | case10 links place step here names =>
    obtain ⟨-, last⟩ := List.append_eq_singleton_iff.mp whole |>.resolve_right (by simp)
    cases last
    exact absurd (.inl rfl) names
  | case6 _ _ _ _ _ _ _ _ _ _ _ last => exact absurd last.2 (by decide)
  | _ => cases arrives

end

section
variable {t now : FileTree} {root : Bytes} {base : Place} {goal : Goal}

theorem resolveEq (path : Bytes) : t.resolve goal path =
    (do checkPath path; t.walk goal mostLinks [] (steps path)) := rfl

theorem checkOfResolve (leads : t.resolve .target root = .ok base) : checkPath root = .ok () := by
  rw [resolveEq] at leads
  cases checked : checkPath root with
  | ok _ => rfl
  | error e =>
    rw [checked] at leads
    cases leads

theorem lookupFound {path : Bytes} {node : Node} (found : t.lookup goal path = .ok node) :
    ∃ place, t.resolve goal path = .ok place ∧ t.node? place = some node := by
  rw [lookup] at found
  cases resolved : t.resolve goal path with
  | error e =>
    rw [resolved] at found
    cases found
  | ok place =>
    simp only [resolved, bind, Except.bind] at found
    split at found
    · cases found
      exact ⟨place, rfl, by assumption⟩
    · cases found

theorem lookupUnlinked (unlinked : t.Unlinked) (path : Bytes) :
    t.lookup .itself path = t.lookup .target path := by
  simp only [lookup, resolveEq, walkUnlinked unlinked]

structure Leads (t : FileTree) (root : Bytes) (base : Place) : Prop where
  walks : t.walk .target mostLinks [] (steps root) = .ok base
  directory : t.node? base = some .directory

theorem leadsOfResolve (resolved : t.resolve .target root = .ok base)
    (directory : t.node? base = some .directory) : Leads t root base := by
  refine ⟨?_, directory⟩
  rw [resolveEq, checkOfResolve resolved] at resolved
  exact resolved

theorem Leads.names (leads : Leads t root base) :
    t.walk .target mostLinks [] (names root) = .ok base := by
  have walks := leads.walks
  rw [stepsEq] at walks
  split at walks
  · exact walkStaying walks
  · rw [List.append_nil] at walks
    exact walks

theorem Leads.onward (leads : Leads t root base) (ways : t.Ways now) {path : Bytes}
    {rest : List Bytes} (goesOn : rest ≠ [] ∧ rest ≠ [[]])
    (further : steps path = FileTree.names root ++ rest) :
    ∃ left, now.resolve goal path = (do checkPath path; now.walk goal left base rest) := by
  obtain ⟨left, walked⟩ := walkOn ways leads.directory (.inr goesOn) leads.names
  refine ⟨left, ?_⟩
  rw [resolveEq, further, walked]

theorem Leads.still (leads : Leads t root base) (ways : t.Ways now) : Leads now root base := by
  have directory := ways.directory leads.directory
  refine ⟨?_, directory⟩
  obtain ⟨left, walked⟩ := @walkOn t now mostLinks [] base (FileTree.names root)
    (if root.getLast? = some slash then [[]] else []) .target ways leads.directory (.inl rfl)
    leads.names
  rw [stepsEq]
  refine walked.trans ?_
  split
  · rw [walkStay directory (.inl rfl), walk]
  · rw [walk]

end

end ArtifactVault.FileTree
