import Mathlib.Data.List.Induction
import Mathlib.Data.List.TakeWhile
import ArtifactVault.Proofs.FileTree.Changes
import ArtifactVault.Proofs.FileTree.Lookups
import ArtifactVault.Proofs.Outcome

/-! Directories along a path, also where links lead to them. Making one that is there changes
nothing, and one that was made is what the path leads to from then on. -/
namespace ArtifactVault.FileTree

def Closed (t : FileTree) : Prop :=
  ∀ place name, t.node? (place ++ [name]) ≠ none → t.node? place = some .directory

theorem closedEmpty : FileTree.empty.Closed := by
  intro place name found
  rw [nodeLookup (List.append_ne_nil_of_right_ne_nil _ (List.cons_ne_nil _ _))] at found
  exact absurd rfl found

section
variable {t now : FileTree} {place other : Place} {node : Node}

theorem Closed.nothingBelow (closed : t.Closed) (noDirectory : t.node? place ≠ some .directory)
    (name : Bytes) (names : Place) : t.node? (place ++ name :: names) = none := by
  by_contra found
  induction names using List.reverseRecOn with
  | nil => exact noDirectory (closed place name found)
  | append_singleton names last ih =>
    have split : place ++ name :: (names ++ [last]) = place ++ name :: names ++ [last] := by simp
    rw [split] at found
    refine ih ?_
    rw [closed _ _ found]
    exact Option.some_ne_none _

theorem Closed.above (closed : t.Closed) (there : t.node? place ≠ none) :
    t.node? place.dropLast = some .directory := by
  induction place using List.reverseRecOn with
  | nil => rfl
  | append_singleton names name =>
    rw [List.dropLast_concat]
    exact closed names name there

theorem Closed.insert (closed : t.Closed) {name : Bytes} (here : t.node? place = some .directory)
    (keepsDirectory : t.node? (place ++ [name]) = some .directory → node = .directory) :
    (t.insert (place ++ [name]) node).Closed := by
  have inserted := @nodeInsert t _ node (List.append_ne_nil_of_right_ne_nil place (List.cons_ne_nil name []))
  have still {above : Place} (directory : t.node? above = some .directory) :
      (t.insert (place ++ [name]) node).node? above = some .directory := by
    rw [inserted]
    split
    · rename_i same
      rw [keepsDirectory (same ▸ directory)]
    · exact directory
  intro above last found
  rw [inserted] at found
  split at found
  · rename_i same
    rw [(List.append_inj' same rfl).1]
    exact still here
  · exact still (closed above last found)

end

section
variable {t now : FileTree} {path : Bytes} {base : Place}

theorem namesSlashes (path : Bytes) (count : Nat) :
    names (path ++ List.replicate count slash) = names path := by
  induction count with
  | zero => rw [List.replicate_zero, List.append_nil]
  | succ count ih =>
    have single : splitPath [] = [[]] := rfl
    rw [List.replicate_succ', ← List.append_assoc, ← ih]
    unfold names
    rw [splitAtSlash, single, List.filter_append]
    exact List.append_nil _

theorem trimmedSlashes (path : Bytes) : ∃ count,
    path = withoutSlashes path ++ List.replicate count slash ∧
      (withoutSlashes path).getLast? ≠ some slash := by
  let cut := path.reverse.takeWhile (· = slash)
  have slashes : cut.reverse = List.replicate cut.length slash := by
    refine List.eq_replicate_iff.mpr ⟨List.length_reverse, fun byte mem => ?_⟩
    have inside : byte ∈ path.reverse.takeWhile (· = slash) := List.mem_reverse.mp mem
    have same := List.mem_takeWhile_imp inside
    exact of_decide_eq_true same
  refine ⟨cut.length, ?_, ?_⟩
  · rw [← slashes, withoutSlashes, ← List.reverse_append, List.takeWhile_append_dropWhile,
      List.reverse_reverse]
  · rw [withoutSlashes, List.getLast?_reverse]
    intro first
    have other := List.head?_dropWhile_not (· = slash) path.reverse
    rw [first] at other
    exact absurd other (by decide)

theorem checkTrimmed (checked : checkPath path = .ok ()) (named : withoutSlashes path ≠ []) :
    checkPath (withoutSlashes path) = .ok () := by
  obtain ⟨count, whole, -⟩ := trimmedSlashes path
  obtain ⟨noZero, -, short⟩ := checkPathIff.mp checked
  rw [whole] at noZero short
  rw [List.length_append] at short
  exact checkPathIff.mpr ⟨fun zero => noZero (List.mem_append_left _ zero), named, by omega⟩

theorem namesTrimmed (path : Bytes) : names (withoutSlashes path) = names path := by
  obtain ⟨count, whole, -⟩ := trimmedSlashes path
  exact ((congrArg names whole).trans (namesSlashes _ count)).symm

theorem stepsTrimmed (path : Bytes) : steps (withoutSlashes path) = names path := by
  obtain ⟨-, -, last⟩ := trimmedSlashes path
  rw [stepsEq, namesTrimmed, if_neg last, List.append_nil]

theorem leadsOfNames (arrives : t.walk .target mostLinks [] (names path) = .ok base)
    (directory : t.node? base = some .directory) : Leads t path base := by
  refine ⟨?_, directory⟩
  obtain ⟨left, walked⟩ := @walkOn t t mostLinks [] base (names path)
    (if path.getLast? = some slash then [[]] else []) .target (.refl t) directory (.inl rfl) arrives
  rw [stepsEq]
  refine walked.trans ?_
  split
  · rw [walkStay directory (.inl rfl), walk]
  · rw [walk]

end

section
variable {t now : FileTree} {path : Bytes} {base start place : Place} {links : Nat} {names : List Bytes}
  {outcome : Except SystemError Unit} {made : Except SystemError FileTree}

theorem walkMade (closed : t.Closed) (keeps : t.Keeps now)
    (made : now.node? place = some .directory)
    (arrives : t.walk .itself links start names = .ok place) (missing : t.node? place = none)
    (stood : t.node? start ≠ none) :
    now.walk .target links start names = .ok place ∧
      ∃ above name, place = above ++ [name] ∧ t.node? above = some .directory := by
  have enters {more : List Bytes} : ¬ (Goal.target = .output ∧ more = [[]]) := fun both =>
    absurd both.1 (by decide)
  have follows {more : List Bytes} : ¬ (more = [] ∧ Goal.target = .itself) := fun both =>
    absurd both.2 (by decide)
  fun_induction walk t .itself links start names with
  | case1 =>
    cases arrives
    exact absurd missing stood
  | case2 links place step more here stays ih =>
    rw [walkStay (keeps _ _ here) stays]
    exact ih arrives stood
  | case3 links place more here _ ih =>
    rw [walkUp (keeps _ _ here)]
    refine ih arrives ?_
    rw [closed.above stood]
    exact Option.some_ne_none _
  | case6 links place step more here names notUp enters short target link last =>
    cases arrives
    rw [missing] at link
    cases link
  | case8 place step more here names notUp _ short target link _ links ih =>
    rw [walkLink (keeps _ _ here) ⟨⟨names, notUp⟩, short⟩ enters (keeps _ _ link) follows]
    refine ih arrives ?_
    split
    · exact Option.some_ne_none _
    · rw [here]
      exact Option.some_ne_none _
  | case9 links place step more here names notUp _ short node noLink there ih =>
    rw [walkDown (keeps _ _ here) ⟨⟨names, notUp⟩, short⟩ enters (keeps _ _ there)
      fun target same => noLink target same]
    refine ih arrives ?_
    rw [there]
    exact Option.some_ne_none _
  | case10 links place step here names notUp short missing =>
    cases arrives
    rw [walkDown (keeps _ _ here) ⟨⟨names, notUp⟩, short⟩ enters made (fun _ same => by cases same),
      walk]
    exact ⟨rfl, place, step, rfl, here⟩
  | _ => cases arrives

theorem madeLeads (closed : t.Closed) (made : t.makeDirectory path = .ok now) :
    now.Closed ∧ now.isDirectory path = true := by
  have keeps := (makeDirectoryGains made).keeps
  obtain ⟨_, checked, made⟩ := okBind made
  simp only at made
  split at made
  · cases made
  · obtain ⟨place, resolved, made⟩ := okBind made
    obtain ⟨-, walks⟩ := resolveIff.mp resolved
    cases missing : t.node? place with
    | some node =>
      simp only [missing] at made
      cases made
    | none =>
      have below : place ≠ [] := by
        rintro rfl
        cases missing
      simp only [missing] at made
      cases made
      have here : (t.insert place .directory).node? place = some .directory := by
        rw [nodeInsert below, if_pos rfl]
      rw [stepsTrimmed] at walks
      obtain ⟨arrives, above, name, rfl, directory⟩ :=
        walkMade closed keeps here walks missing (Option.some_ne_none _)
      exact ⟨closed.insert directory fun _ => rfl,
        isDirectoryIff.mpr ⟨checked, _, leadsOfNames arrives here⟩⟩

theorem settleDone (closed : t.Closed)
    (done : t.settle path (t.makeDirectory path) = (outcome, now)) :
    now.Closed ∧ (outcome = .ok () → now.isDirectory path = true) := by
  cases made : t.makeDirectory path with
  | ok new =>
    rw [made] at done
    cases done
    obtain ⟨closed, there⟩ := madeLeads closed made
    exact ⟨closed, fun _ => there⟩
  | error e =>
    rw [made] at done
    simp only [settle, Prod.mk.injEq] at done
    obtain ⟨outcome, rfl⟩ := done
    refine ⟨closed, fun fine => ?_⟩
    rw [fine] at outcome
    split at outcome
    · assumption
    · cases outcome

theorem makeDirectoriesDone (closed : t.Closed) (done : t.makeDirectories path = (outcome, now)) :
    now.Closed ∧ (outcome = .ok () → path ≠ [] → now.isDirectory path = true) := by
  fun_induction makeDirectories t path generalizing outcome now with
  | case1 =>
    cases done
    exact ⟨closed, fun _ filled => absurd rfl filled⟩
  | case2 path _ missing top =>
    cases done
    exact ⟨closed, fun fine => by cases fine⟩
  | case3 path _ missing above found shorter e later failed ih =>
    cases done
    exact ⟨(ih failed).1, fun fine => by cases fine⟩
  | case4 path _ missing above found shorter _ later made ih =>
    obtain ⟨closed, there⟩ := settleDone (ih made).1 done
    exact ⟨closed, fun fine _ => there fine⟩
  | case5 path _ missing above found longer =>
    cases done
    exact ⟨closed, fun fine => by cases fine⟩
  | case6 path _ other =>
    obtain ⟨closed, there⟩ := settleDone closed done
    exact ⟨closed, fun fine _ => there fine⟩

theorem makeDirectoriesStanding (there : t.isDirectory path = true) :
    t.makeDirectories path = (.ok (), t) := by
  obtain ⟨checked, base, leads⟩ := isDirectoryIff.mp there
  obtain ⟨-, filled, -⟩ := checkPathIff.mp checked
  have taken : t.makeDirectory path = .error .alreadyExists := by
    rw [makeDirectory, checked]
    simp only [bind, Except.bind]
    split
    · rfl
    · rename_i trimmed
      have arrives := leads.names
      rw [← stepsTrimmed] at arrives
      obtain ⟨place, resolved, found⟩ :=
        walkToLink arrives (leads.directory.trans_ne (Option.some_ne_none _))
      obtain ⟨node, found⟩ := Option.ne_none_iff_exists'.mp found
      rw [resolveIff.mpr ⟨checkTrimmed checked trimmed, resolved⟩]
      simp only [found]
      rfl
  rw [makeDirectories, if_neg filled, taken]
  simp only [settle, there]
  rfl

end

section
variable {t now : FileTree} {directory name : Bytes} {base : Place} {goal : Goal} {links : Nat}

theorem Leads.resolveName (leads : Leads t directory base) (descends : Descends name)
    (noSlash : slash ∉ name)
    (direct : goal = .itself ∨ ∀ target, t.node? (base ++ [name]) ≠ some (.link target)) :
    t.resolve goal (join directory name) = (do
      checkPath (join directory name)
      if longestName < name.length then .error .nameTooLong else .ok (base ++ [name])) := by
  have named : [name] ≠ [] ∧ [name] ≠ [[]] :=
    ⟨List.cons_ne_nil _ _, fun same => descends.filled (List.cons.inj same).1⟩
  obtain ⟨left, resolved⟩ := leads.onward (.refl t) named (stepsJoin descends.filled noSlash)
  rw [resolved, walkToName leads.directory descends direct]

theorem Leads.resolvePlain (leads : Leads t directory base) (plain : Name name)
    (checked : checkPath (join directory name) = .ok ())
    (direct : goal = .itself ∨ ∀ target, t.node? (base ++ [name]) ≠ some (.link target)) :
    t.resolve goal (join directory name) = .ok (base ++ [name]) := by
  rw [leads.resolveName plain.toDescends plain.noSlash direct, checked]
  exact if_neg plain.short

theorem Leads.lookupPlain (leads : Leads t directory base) (plain : Name name)
    (checked : checkPath (join directory name) = .ok ()) {node : Node}
    (noLink : ∀ target, node ≠ .link target) (found : t.node? (base ++ [name]) = some node) :
    t.lookup .target (join directory name) = .ok node := by
  refine lookupIff.mpr ⟨_, leads.resolvePlain plain checked (.inr fun target link => ?_), found⟩
  rw [found] at link
  exact noLink target (Option.some.inj link)

theorem Leads.lookupFollowed (leads : Leads t directory base) (plain : Name name)
    (checked : checkPath (join directory name) = .ok ()) (followable : t.Followable (base ++ [name])) :
    (∃ node, t.lookup .target (join directory name) = .ok node) ∨
      t.lookup .target (join directory name) = .error .tooManyLinks := by
  obtain ⟨target, further, middle, link, arrives, found⟩ := followable
  obtain ⟨node, found⟩ := Option.ne_none_iff_exists'.mp found
  have named : [name] ≠ [] ∧ [name] ≠ [[]] :=
    ⟨List.cons_ne_nil _ _, fun same => plain.filled (List.cons.inj same).1⟩
  have enters : ¬ (Goal.target = .output ∧ ([] : List Bytes) = [[]]) := fun both => by cases both.2
  have follows : ¬ (([] : List Bytes) = [] ∧ Goal.target = .itself) := fun both => by cases both.2
  obtain ⟨left, resolved⟩ : ∃ left, t.resolve .target (join directory name) =
      (do checkPath (join directory name); t.walk .target left base [name]) :=
    leads.onward (.refl t) named (stepsJoin plain.filled plain.noSlash)
  rw [checked] at resolved
  simp only [FileTree.lookup, resolved, bind, Except.bind]
  cases left with
  | zero =>
    rw [walkExhausted leads.directory plain.toPlain enters link follows]
    exact .inr rfl
  | succ left =>
    rw [walkLink leads.directory plain.toPlain enters link follows, List.append_nil]
    rw [linkStart, List.dropLast_concat] at arrives
    rcases walkLinks arrives left with within | beyond
    · rw [within]
      simp only [found]
      exact .inl ⟨node, rfl⟩
    · rw [beyond]
      exact .inr rfl

theorem Leads.makeName (leads : Leads t directory base) (plain : Name name) :
    (∃ e, t.makeDirectories (join directory name) = (.error e, t)) ∨
      t.makeDirectories (join directory name) = (.ok (), t) ∧
        (∃ inner, Leads t (join directory name) inner) ∨
      t.makeDirectories (join directory name) = (.ok (), t.insert (base ++ [name]) .directory) ∧
        t.node? (base ++ [name]) = none ∧
        Leads (t.insert (base ++ [name]) .directory) (join directory name) (base ++ [name]) := by
  have filled : join directory name ≠ [] := joinFilled plain.filled
  cases standing : t.isDirectory (join directory name) with
  | true => exact .inr (.inl ⟨makeDirectoriesStanding standing, (isDirectoryIff.mp standing).2⟩)
  | false =>
    have refused {e : SystemError} (failed : t.makeDirectory (join directory name) = .error e)
        (other : e ≠ .notFound) : t.makeDirectories (join directory name) = (.error e, t) :=
      makeDirectoriesBlocked filled failed other standing
    cases checked : checkPath (join directory name) with
    | error e =>
      refine .inl ⟨e, refused ?_ (checkPathFault filled checked)⟩
      rw [makeDirectory, checked]
      rfl
    | ok _ =>
      have resolved := leads.resolvePlain plain checked (.inl rfl)
      cases there : t.node? (base ++ [name]) with
      | some node =>
        refine .inl ⟨.alreadyExists, refused ?_ fun same => by cases same⟩
        rw [makeDirectory, checked, withoutSlashesJoin plain]
        simp only [bind, Except.bind, if_neg filled, resolved, there]
        rfl
      | none =>
        have keeps : t.Keeps (t.insert (base ++ [name]) .directory) := keepsInserted there
        have here : (t.insert (base ++ [name]) .directory).node? (base ++ [name]) =
            some .directory := by
          rw [nodeInsert (List.append_ne_nil_of_right_ne_nil _ (List.cons_ne_nil _ _)), if_pos rfl]
        refine .inr (.inr ⟨?_, rfl, leadsOfResolve ?_ here⟩)
        · rw [makeDirectories, if_neg filled, makeDirectory, checked, withoutSlashesJoin plain]
          simp only [bind, Except.bind, if_neg filled, resolved, there]
          rfl
        · refine (leads.still keeps.ways).resolvePlain plain checked (.inr ?_)
          rw [here]
          exact fun _ same => by cases same

end

end ArtifactVault.FileTree
