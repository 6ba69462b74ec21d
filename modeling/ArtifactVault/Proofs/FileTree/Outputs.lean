import ArtifactVault.Transfer
import ArtifactVault.Proofs.FileTree.Directories
import ArtifactVault.Proofs.Output

/-! Files that are written at the end of a path. The path may lead there through links, and one at its
end is followed; the file is found by the same path afterwards, since the walk meets no link that it
had not met before. -/
namespace ArtifactVault.FileTree

section
variable {t now : FileTree} {links : Nat} {start place : Place} {names : List Bytes} {bytes : Bytes}

theorem inDirectory (closed : t.Closed) (there : t.node? place ≠ none)
    (noDirectory : t.node? place ≠ some .directory) :
    ∃ above name, place = above ++ [name] ∧ t.node? above = some .directory := by
  rcases List.eq_nil_or_concat place with rfl | ⟨above, name, rfl⟩
  · exact absurd rfl noDirectory
  · rw [List.concat_eq_append] at there ⊢
    exact ⟨above, name, rfl, closed above name there⟩

theorem walkOutput (closed : t.Closed)
    (written : ∀ other, now.node? other =
      if other = place then some (.file bytes) else t.node? other)
    (arrives : t.walk .output links start names = .ok place)
    (noDirectory : t.node? place ≠ some .directory)
    (stood : t.node? start ≠ none) (begins : ∀ target, t.node? start ≠ some (.link target)) :
    now.walk .target links start names = .ok place ∧
      (∀ target, t.node? place ≠ some (.link target)) ∧
        ∃ above name, place = above ++ [name] ∧ t.node? above = some .directory := by
  have enters {more : List Bytes} : ¬ (Goal.target = .output ∧ more = [[]]) := fun both =>
    absurd both.1 (by decide)
  have follows {more : List Bytes} : ¬ (more = [] ∧ Goal.target = .itself) := fun both =>
    absurd both.2 (by decide)
  have beside {other : Place} {node : Node} (found : t.node? other = some node)
      (apart : other ≠ place) : now.node? other = some node := by
    rw [written, if_neg apart, found]
  have still {other : Place} (here : t.node? other = some .directory) :
      now.node? other = some .directory :=
    beside here fun same => noDirectory (same ▸ here)
  have there : now.node? place = some (.file bytes) := by
    rw [written, if_pos rfl]
  have directories {other : Place} (here : t.node? other = some .directory) :
      t.node? other ≠ none ∧ ∀ target, t.node? other ≠ some (.link target) := by
    rw [here]
    exact ⟨Option.some_ne_none _, fun _ same => by cases same⟩
  fun_induction walk t .output links start names with
  | case1 =>
    cases arrives
    exact ⟨by rw [walk], begins, inDirectory closed stood noDirectory⟩
  | case2 links other step more here stays ih =>
    rw [walkStay (still here) stays]
    exact ih arrives stood begins
  | case3 links other more here _ ih =>
    obtain ⟨stands, plain⟩ := directories (closed.above stood)
    rw [walkUp (still here)]
    exact ih arrives stands plain
  | case8 other step more here names notUp _ short target link _ links ih =>
    have onward : t.node? (if isAbsolute target then [] else other) = some .directory := by
      split
      · rfl
      · exact here
    have arrived := ih arrives (directories onward).1 (directories onward).2
    have apart : other ++ [step] ≠ place := fun same => arrived.2.1 target (same ▸ link)
    rw [walkLink (still here) ⟨⟨names, notUp⟩, short⟩ enters (beside link apart) follows]
    exact arrived
  | case9 links other step more here names notUp _ short node noLink found ih =>
    have stands : t.node? (other ++ [step]) ≠ none := by
      rw [found]
      exact Option.some_ne_none _
    have plain : ∀ target, t.node? (other ++ [step]) ≠ some (.link target) := by
      rw [found]
      exact fun target same => noLink target (Option.some.inj same)
    obtain ⟨kind, below, file⟩ : ∃ kind, now.node? (other ++ [step]) = some kind ∧
        ∀ target, kind ≠ .link target := by
      by_cases same : other ++ [step] = place
      · exact ⟨.file bytes, same ▸ there, fun _ file => by cases file⟩
      · exact ⟨node, beside found same, fun target same => noLink target same⟩
    rw [walkDown (still here) ⟨⟨names, notUp⟩, short⟩ enters below file]
    exact ih arrives stands plain
  | case10 links other step here names notUp short missing =>
    cases arrives
    rw [walkDown (still here) ⟨⟨names, notUp⟩, short⟩ enters there (fun _ same => by cases same), walk]
    refine ⟨rfl, fun target link => ?_, other, step, rfl, here⟩
    rw [missing] at link
    cases link
  | case6 _ _ _ _ _ _ _ _ _ _ _ last => exact absurd last.2 (by decide)
  | _ => cases arrives

theorem createdFound {path : Bytes} (closed : t.Closed)
    (created : t.createFile path = .ok (place, now)) :
    now.appendAt place bytes = t.written place bytes ∧ place ≠ [] ∧
      (t.written place bytes).Closed ∧ (t.written place bytes).resolve .target path = .ok place := by
  obtain ⟨output, resolved, created⟩ := okBind created
  obtain ⟨checked, arrives⟩ := resolveIff.mp resolved
  have noDirectory : t.node? output ≠ some .directory := by
    intro directory
    simp only [directory] at created
    cases created
  have made : output = place ∧ t.insert output (.file []) = now := by
    revert created
    split
    · intro made
      cases made
    · exact fun made => Prod.mk.inj (Except.ok.inj made)
  obtain ⟨rfl, rfl⟩ := made
  have below : output ≠ [] := by
    rintro rfl
    exact noDirectory rfl
  have changed := @nodeWritten t output bytes below
  obtain ⟨walked, -, above, name, rfl, directory⟩ :=
    walkOutput closed changed arrives noDirectory (Option.some_ne_none _) fun _ same => by cases same
  have same := @insertInserted t (above ++ [name]) (.file bytes) (.file [])
  refine ⟨writeFresh below, below, ?_, resolveIff.mpr ⟨checked, walked⟩⟩
  rw [written, same]
  exact closed.insert directory fun same => absurd same noDirectory

end

end ArtifactVault.FileTree

namespace ArtifactVault.Transfer
open FileTree

theorem writeExactUnlimited (bytes path : Bytes) :
    writeExact .unlimited bytes path = (.ok (), ⟨[], none, bytes, 0⟩) := by
  rw [writeExact, Writer.unlimited, Writer.writeUnlimited, List.nil_append]

theorem prepareParentClosed {t now : FileTree} {path : Bytes} {outcome : Except SystemError Unit}
    (closed : t.Closed) (done : prepareParent t path = (outcome, now)) : now.Closed := by
  rw [prepareParent] at done
  split at done
  · exact (makeDirectoriesDone closed done).1
  · cases done
    exact closed

theorem prepareParentTop {t : FileTree} {path : Bytes} (alone : parent? path = some []) :
    prepareParent t path = (.ok (), t) := by
  simp only [prepareParent, alone]
  rw [makeDirectories, if_pos rfl]

theorem writePathPrepared {t : FileTree} {place : Place} {path bytes : Bytes}
    (prepared : prepareParent t path = (.ok (), t)) (resolved : t.resolve .output path = .ok place)
    (noDirectory : t.node? place ≠ some .directory) :
    writePath t bytes path = (.ok bytes.length, t.written place bytes) := by
  have below : place ≠ [] := by
    rintro rfl
    exact noDirectory rfl
  have created : t.createFile path = .ok (place, t.insert place (.file [])) := by
    simp only [createFile, resolved, bind, Except.bind]
    rfl
  simp only [writePath, prepared, created, writeExactUnlimited, writeFresh below]
  rfl

theorem prepareParentGains (t : FileTree) (path : Bytes) :
    t.GainsDirectories (prepareParent t path).2 := by
  unfold prepareParent
  split
  · exact t.makeDirectoriesGains _
  · exact .refl t

theorem writePathPlace {t now : FileTree} {bytes path : Bytes} {count : Nat} (closed : t.Closed)
    (done : writePath t bytes path = (.ok count, now)) :
    count = bytes.length ∧ now.Closed ∧ ∃ place, now.resolve .target path = .ok place ∧
      ∀ other, now.node? other =
        if other = place then some (.file bytes) else (prepareParent t path).2.node? other := by
  rw [writePath] at done
  cases prepared : prepareParent t path with
  | mk outcome made =>
    have madeClosed := prepareParentClosed closed prepared
    rw [prepared] at done
    cases outcome with
    | error e => cases done
    | ok _ =>
      cases created : made.createFile path with
      | error e =>
        simp only [created] at done
        cases done
      | ok file =>
        obtain ⟨place, later⟩ := file
        obtain ⟨same, below, laterClosed, resolved⟩ :=
          @createdFound made later place bytes path madeClosed created
        simp only [created, writeExactUnlimited, same] at done
        cases done
        exact ⟨rfl, laterClosed, place, resolved, nodeWritten below⟩

theorem writePathFound {t now : FileTree} {bytes path : Bytes} {count : Nat} (closed : t.Closed)
    (done : writePath t bytes path = (.ok count, now)) :
    now.Closed ∧ now.lookup .target path = .ok (.file bytes) := by
  obtain ⟨-, nowClosed, place, resolved, changed⟩ := writePathPlace closed done
  refine ⟨nowClosed, lookupIff.mpr ⟨place, resolved, ?_⟩⟩
  rw [changed, if_pos rfl]

end ArtifactVault.Transfer
