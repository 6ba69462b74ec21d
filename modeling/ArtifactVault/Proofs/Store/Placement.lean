import ArtifactVault.Proofs.FileTree.Directories
import ArtifactVault.Proofs.Store.Contents
import ArtifactVault.Proofs.Store.Shards

/-! What a put leaves in a tree in which there may be anything, links also. A new envelope stands at
the end of its path, and no path that led to something has lost it. -/
namespace ArtifactVault.DirectoryStore
open FileTree

theorem temporaryDigits (n : Nat) :
    ((temporaryName n).drop 4).map (fun byte => Char.ofNat byte.toNat) = Nat.toDigits 10 n := by
  have chars : (s!".tmp{n}").toList = ['.', 't', 'm', 'p'] ++ Nat.toDigits 10 n := by
    rw [String.toList_append, Nat.toString_eq_ofList_toDigits, String.toList_ofList]
    rfl
  have bytes : (temporaryName n).drop 4 = Utf8.encode (Nat.toDigits 10 n) := by
    rw [temporaryName, Utf8.ofString, chars, Utf8.encode, List.flatMap_append]
    rfl
  have digits : ∀ c ∈ Nat.toDigits 10 n, c.isDigit = true := fun c mem =>
    Nat.isDigit_of_mem_toDigits (by decide) (by decide) mem
  rw [bytes]
  generalize Nat.toDigits 10 n = cs at digits
  induction cs with
  | nil => rfl
  | cons c cs ih =>
    obtain ⟨single, range⟩ := digitBytes (digits c List.mem_cons_self)
    have rest := ih fun other mem => digits other (List.mem_cons_of_mem _ mem)
    rw [Utf8.encode, List.flatMap_cons, single, List.singleton_append, List.map_cons,
      UInt8.toNat_ofNat_of_lt' (by omega : c.toNat < 256), Char.ofNat_toNat]
    exact congrArg _ rest

theorem temporaryInjective {m n : Nat} (same : temporaryName m = temporaryName n) : m = n := by
  calc
    m = Nat.ofDigitChars 10 (Nat.toDigits 10 m) 0 := Nat.ofDigitChars_ten_toDigits.symm
    _ = Nat.ofDigitChars 10 (Nat.toDigits 10 n) 0 := by
      rw [← temporaryDigits m, same, temporaryDigits n]
    _ = n := Nat.ofDigitChars_ten_toDigits

theorem temporarySlash (n : Nat) : slash ∉ temporaryName n :=
  temporaryAbsent (by decide) (by decide)

section
variable {t now : FileTree} {directory : Bytes} {base place : Place}

theorem takenPlace (leads : Leads t directory base) {n : Nat}
    (taken : (t.lookup .itself (join directory (temporaryName n))).isOk = true) :
    t.node? (base ++ [temporaryName n]) ≠ none := by
  cases found : t.lookup .itself (join directory (temporaryName n)) with
  | error e =>
    rw [found] at taken
    cases taken
  | ok node =>
    obtain ⟨place, resolved, there⟩ := lookupIff.mp found
    rw [leads.resolveName (temporaryDescends n) (temporarySlash n) (.inl rfl)] at resolved
    obtain ⟨_, -, resolved⟩ := okBind resolved
    split at resolved
    · cases resolved
    · cases resolved
      rw [there]
      exact Option.some_ne_none _

theorem freshOrTaken (t : FileTree) (directory : Bytes) (tries n : Nat) :
    (∃ m, freshPath t directory tries n = join directory (temporaryName m) ∧
        (t.lookup .itself (join directory (temporaryName m))).isOk = false) ∨
      ∀ m < tries, (t.lookup .itself (join directory (temporaryName (n + m)))).isOk = true := by
  induction tries generalizing n with
  | zero => exact .inr fun m below => absurd below (Nat.not_lt_zero m)
  | succ tries ih =>
    rw [freshPath]
    cases here : (t.lookup .itself (join directory (temporaryName n))).isOk with
    | false => exact .inl ⟨n, if_neg Bool.false_ne_true, here⟩
    | true =>
      rw [if_pos rfl]
      refine (ih (n + 1)).imp_right fun others m below => ?_
      cases m with
      | zero => exact here
      | succ m =>
        rw [Nat.add_succ, ← Nat.succ_add]
        exact others m (Nat.lt_of_succ_lt_succ below)

theorem freshUntaken (leads : Leads t directory base) :
    ∃ m, freshPath t directory (t.entries.length + 1) 0 = join directory (temporaryName m) ∧
      (t.lookup .itself (join directory (temporaryName m))).isOk = false := by
  refine (freshOrTaken t directory _ 0).resolve_right fun taken => ?_
  -- There are more names to try than there are places in the tree.
  let places := (List.range (t.entries.length + 1)).map fun m => base ++ [temporaryName m]
  have apart : places.Nodup := List.nodup_range.map fun m n same =>
    temporaryInjective (List.cons.inj (List.append_cancel_left same)).1
  have standing : places ⊆ t.entries.map (·.1) := by
    intro place mem
    obtain ⟨m, below, rfl⟩ := List.mem_map.mp mem
    have found := takenPlace leads (taken m (List.mem_range.mp below))
    rw [Nat.zero_add, nodeLookup (List.append_ne_nil_of_right_ne_nil _ (List.cons_ne_nil _ _))] at found
    exact Keyed.foundIff.mpr (Option.isSome_iff_ne_none.mpr found)
  have room := (List.subperm_of_subset apart standing).length_le
  simp only [places, List.length_map, List.length_range] at room
  omega

theorem createdFresh (leads : Leads t directory base) {n : Nat}
    (untaken : (t.lookup .itself (join directory (temporaryName n))).isOk = false)
    (created : t.createFile (join directory (temporaryName n)) = .ok (place, now)) :
    place = base ++ [temporaryName n] ∧ t.node? place = none ∧ now = t.insert place (.file []) ∧
      checkPath (join directory (temporaryName n)) = .ok () ∧
      ¬ longestName < (temporaryName n).length := by
  have descends := temporaryDescends n
  obtain ⟨arrived, resolved, created⟩ := okBind created
  have checked := (resolveIff.mp resolved).1
  have short : ¬ longestName < (temporaryName n).length := by
    intro long
    have named : [temporaryName n] ≠ [] ∧ [temporaryName n] ≠ [[]] :=
      ⟨List.cons_ne_nil _ _, fun same => descends.filled (List.cons.inj same).1⟩
    obtain ⟨left, walked⟩ : ∃ left, t.resolve .output (join directory (temporaryName n)) =
        (do checkPath (join directory (temporaryName n)); t.walk .output left base [temporaryName n]) :=
      leads.onward (.refl t) named (stepsJoin descends.filled (temporarySlash n))
    rw [walked, checked] at resolved
    have refused := @walkLong t .output left base _ [] leads.directory descends (by simp) long
    cases refused.symm.trans resolved
  have itself := leads.resolveName descends (temporarySlash n) (.inl rfl)
  rw [checked] at itself
  replace itself := itself.trans (if_neg short)
  have free : t.node? (base ++ [temporaryName n]) = none := by
    by_contra found
    obtain ⟨node, found⟩ := Option.ne_none_iff_exists'.mp found
    rw [lookupIff.mpr ⟨_, itself, found⟩] at untaken
    cases untaken
  have output : t.resolve .output (join directory (temporaryName n)) = _ :=
    leads.resolveName descends (temporarySlash n)
      (.inr fun _ => free.trans_ne (Option.some_ne_none _).symm)
  rw [checked] at output
  cases resolved.symm.trans (output.trans (if_neg short))
  simp only [free] at created
  cases created
  exact ⟨rfl, free, rfl, checked, short⟩

end

structure Placed (t now : FileTree) (directory name content : Bytes) (base : Place) : Prop where
  leads : Leads t directory base
  checked : checkPath (join directory name) = .ok ()
  noDirectory : t.node? (base ++ [name]) ≠ some .directory
  changed : ∀ place, now.node? place =
    if place = base ++ [name] then some (.file content) else t.node? place

section
variable {t now : FileTree} {directory name content : Bytes} {base : Place}
  {outcome : Except StoreError Unit} {n : Nat}

theorem persisted (closed : t.Closed) (leads : Leads t directory base) (plain : Name name)
    (apart : temporaryName n ≠ name) (free : t.node? (base ++ [temporaryName n]) = none)
    (checked : checkPath (join directory (temporaryName n)) = .ok ())
    (short : ¬ longestName < (temporaryName n).length)
    (done : persist (t.written (base ++ [temporaryName n]) content)
      (join directory (temporaryName n)) (join directory name) = (outcome, now)) :
    (∃ e, outcome = .error e) ∧ (∀ place, now.node? place = t.node? place) ∨
      outcome = .ok () ∧ Placed t now directory name content base := by
  have below (name : Bytes) : base ++ [name] ≠ [] :=
    List.append_ne_nil_of_right_ne_nil _ (List.cons_ne_nil _ _)
  have elsewhere : base ++ [temporaryName n] ≠ base ++ [name] := fun same =>
    apart (List.cons.inj (List.append_cancel_left same)).1
  have keeps : t.Keeps (t.written (base ++ [temporaryName n]) content) := keepsWritten free
  have still := leads.still keeps.ways
  have node := @nodeWritten t _ content (below (temporaryName n))
  have there : (t.written (base ++ [temporaryName n]) content).node? (base ++ [temporaryName n]) =
      some (.file content) := by
    rw [node, if_pos rfl]
  have leaves : (t.written (base ++ [temporaryName n]) content).resolve .itself
      (join directory (temporaryName n)) = .ok (base ++ [temporaryName n]) := by
    rw [still.resolveName (temporaryDescends n) (temporarySlash n) (.inl rfl), checked]
    exact if_neg short
  unfold persist at done
  cases renamed : (t.written (base ++ [temporaryName n]) content).rename
      (join directory (temporaryName n)) (join directory name) with
  | error e =>
    have removed : (t.written (base ++ [temporaryName n]) content).removeFile
        (join directory (temporaryName n)) =
          .ok ((t.written (base ++ [temporaryName n]) content).erase (base ++ [temporaryName n])) := by
      rw [removeFile, leaves]
      simp only [bind, Except.bind, there]
      rfl
    rw [renamed, removed] at done
    cases done
    refine .inl ⟨⟨_, rfl⟩, fun place => ?_⟩
    rw [Except.toOption, Option.getD_some, nodeErase (below _), node]
    split
    · rename_i same
      rw [same, free]
    · rfl
  | ok moved =>
    rw [renamed] at done
    cases done
    refine .inr ⟨rfl, ?_⟩
    obtain ⟨_, allowed, -⟩ := okBind renamed
    have arrives := still.resolvePlain plain allowed (.inl rfl)
    rw [renameFile allowed leaves arrives elsewhere there] at renamed
    split at renamed
    · cases renamed
    · rename_i noDirectory
      cases renamed
      rw [node, if_neg elsewhere.symm] at noDirectory
      have unused (names : Place) : t.node? (base ++ [temporaryName n] ++ names) = none := by
        cases names with
        | nil => rw [List.append_nil, free]
        | cons first names =>
          exact closed.nothingBelow (free.trans_ne (Option.some_ne_none _).symm) first names
      exact ⟨leads, allowed, noDirectory, nodeReplacedFresh (below _) (below _) elsewhere unused⟩

end

def Finds (t now : FileTree) : Prop :=
  ∀ path node, (∀ target, node ≠ .link target) → t.lookup .target path = .ok node →
    now.lookup .target path = .ok node

section
variable {t made now : FileTree} {root directory name content : Bytes} {base : Place}
  {settings : StoreSettings} {id : ArtifactId} {outcome : Except StoreError Unit}

theorem keepsSame (same : ∀ place, now.node? place = t.node? place) : t.Keeps now :=
  fun place _ found => (same place).trans found

theorem closedSame (same : ∀ place, now.node? place = t.node? place) (closed : t.Closed) :
    now.Closed := by
  intro place name found
  rw [same] at found ⊢
  exact closed place name found

theorem finds (keeps : t.Keeps now) : Finds t now := fun _ _ _ found => keeps.lookup found

theorem Placed.closed (placed : Placed t now directory name content base) (closed : t.Closed) :
    now.Closed := by
  intro place last found
  have directory : t.node? place = some .directory := by
    rw [placed.changed] at found
    split at found
    · rename_i same
      rw [(List.append_inj' same rfl).1]
      exact placed.leads.directory
    · exact closed place last found
  rw [placed.changed, if_neg, directory]
  rintro rfl
  exact placed.noDirectory directory

theorem Placed.beside (placed : Placed t now directory name content base) :
    t.KeepsBeside now (base ++ [name]) := fun place apart node found => by
  rw [placed.changed, if_neg apart, found]

theorem Placed.lookup (placed : Placed t now directory name content base) (plain : Name name)
    (unfollowed : ¬ t.Followable (base ++ [name])) :
    now.lookup .target (join directory name) = .ok (.file content) := by
  have apart : base ≠ base ++ [name] := by simp
  have still := walkBeside placed.beside placed.noDirectory placed.leads.walks
    (placed.leads.directory.trans_ne (Option.some_ne_none _)) apart
  have there := placed.beside base apart _ placed.leads.directory
  exact Leads.lookupPlain ⟨still.resolve_right unfollowed, there⟩ plain placed.checked
    (fun _ same => by cases same) (by rw [placed.changed, if_pos rfl])

theorem Placed.finds (placed : Placed t now directory name content base)
    (unfollowed : ¬ t.Followable (base ++ [name]))
    (noFile : ∀ content, t.node? (base ++ [name]) ≠ some (.file content)) : Finds t now := by
  intro path node noLink found
  refine lookupBeside placed.beside placed.noDirectory unfollowed (fun there => ?_) found
  cases node with
  | file content => exact noFile content there
  | directory => exact placed.noDirectory there
  | link target => exact noLink target rfl

theorem vacantPlace {place : Place} (free : t.node? place = none) :
    ¬ t.Followable place ∧ ∀ content, t.node? place ≠ some (.file content) := by
  rw [Followable, free]
  refine ⟨?_, fun _ same => by cases same⟩
  rintro ⟨_, _, _, link, _⟩
  cases link

theorem vacantPath (leads : Leads t directory base) (plain : Name name)
    (checked : checkPath (join directory name) = .ok ()) {e : SystemError}
    (nothing : t.lookup .target (join directory name) = .error e) (limit : e ≠ .tooManyLinks) :
    ¬ t.Followable (base ++ [name]) ∧
      ∀ content, t.node? (base ++ [name]) ≠ some (.file content) := by
  refine ⟨fun followable => ?_, fun content found => ?_⟩
  · rcases leads.lookupFollowed plain checked followable with ⟨node, found⟩ | beyond
    · rw [nothing] at found
      cases found
    · rw [nothing] at beyond
      exact limit (Except.error.inj beyond)
  · have there : t.lookup .target (join directory name) = .ok (.file content) :=
      leads.lookupPlain plain checked (fun _ same => by cases same) found
    rw [nothing] at there
    cases there

theorem shardMade (closed : t.Closed) (leads : Leads t root base) (id : ArtifactId)
    {outcome : Except SystemError Unit}
    (done : t.makeDirectories (join root (shard id)) = (outcome, made)) :
    t.Keeps made ∧ made.Closed ∧ (outcome = .ok () → ∃ inner,
      Leads made (join root (shard id)) inner ∧
        (made = t ∨ ∀ name, made.node? (inner ++ [name]) = none)) := by
  have keeps := (t.makeDirectoriesGains (join root (shard id))).keeps
  rw [done] at keeps
  refine ⟨keeps, (makeDirectoriesDone closed done).1, fun fine => ?_⟩
  rcases leads.makeName (shardName id) with ⟨e, failed⟩ | ⟨there, inner, leads⟩ | ⟨new, free, leads⟩
  · rw [failed] at done
    cases done
    cases fine
  · rw [there] at done
    cases done
    exact ⟨inner, leads, .inl rfl⟩
  · rw [new] at done
    cases done
    refine ⟨_, leads, .inr fun name => ?_⟩
    rw [nodeInsert (List.append_ne_nil_of_right_ne_nil _ (List.cons_ne_nil _ _)), if_neg (by simp)]
    exact closed.nothingBelow (free.trans_ne (Option.some_ne_none _).symm) name []

theorem installed (closed : t.Closed) (leads : Leads t root base) {e : SystemError}
    (nothing : t.lookup .target ((⟨root, settings⟩ : DirectoryStore).path id) = .error e)
    (limit : e ≠ .tooManyLinks)
    (done : install t ((⟨root, settings⟩ : DirectoryStore).shardPath id)
      ((⟨root, settings⟩ : DirectoryStore).path id) content = (outcome, now)) :
    now.Closed ∧ Finds t now ∧ (outcome = .ok () →
      now.lookup .target ((⟨root, settings⟩ : DirectoryStore).path id) = .ok (.file content)) := by
  rw [shardPathEq, pathEq] at done
  rw [pathEq] at nothing ⊢
  unfold install at done
  cases shards : t.makeDirectories (join root (shard id)) with
  | mk sharded made =>
    obtain ⟨keeps, madeClosed, leadsOn⟩ := shardMade closed leads id shards
    rw [shards] at done
    cases sharded with
    | error e =>
      cases done
      exact ⟨madeClosed, finds keeps, fun fine => by cases fine⟩
    | ok _ =>
      obtain ⟨inner, inside, either⟩ := leadsOn rfl
      obtain ⟨m, fresh, untaken⟩ := freshUntaken inside
      simp only [fresh] at done
      cases created : made.createFile (join (join root (shard id)) (temporaryName m)) with
      | error e =>
        rw [created] at done
        cases done
        exact ⟨madeClosed, finds keeps, fun fine => by cases fine⟩
      | ok file =>
        obtain ⟨place, later⟩ := file
        obtain ⟨rfl, free, rfl, checked, short⟩ := createdFresh inside untaken created
        simp only [created] at done
        rw [writeFresh (List.append_ne_nil_of_right_ne_nil _ (List.cons_ne_nil _ _)), ← written]
          at done
        rcases persisted madeClosed inside (leafName id) (temporaryNoLeaf m id) free checked short done
          with ⟨⟨e, rfl⟩, same⟩ | ⟨rfl, placed⟩
        · exact ⟨closedSame same madeClosed, finds (keeps.trans (keepsSame same)),
            fun fine => by cases fine⟩
        · have vacant : ¬ made.Followable (inner ++ [leaf id]) ∧
              ∀ content, made.node? (inner ++ [leaf id]) ≠ some (.file content) := by
            rcases either with rfl | empty
            · exact vacantPath inside (leafName id) placed.checked nothing limit
            · exact vacantPlace (empty _)
          refine ⟨placed.closed madeClosed, fun path node noLink found => ?_, fun _ =>
            placed.lookup (leafName id) vacant.1⟩
          exact placed.finds vacant.1 vacant.2 path node noLink (finds keeps path node noLink found)

variable [Zlib.Encoder]

theorem packed {settings : StoreSettings} {content : Blob} {given : ArtifactId × Blob}
    (done : Store.pack settings content = .ok given) :
    given.1 = .compute settings.algorithm content.content ∧
      given.2.content = Envelope.envelopeOf [content.content] ∧
      (Envelope.envelopeOf [content.content]).length < sizeCeiling := by
  obtain ⟨envelope, wrapped, named⟩ := okBind done
  cases named
  exact ⟨rfl, Envelope.wrappedContent wrapped⟩

theorem putNamed {s : DirectoryStore} {content : Blob}
    (done : s.put t content = .ok (.ok id, now)) :
    id = .compute s.settings.algorithm content.content ∧
      (Envelope.envelopeOf [content.content]).length < sizeCeiling := by
  obtain ⟨⟨computed, envelope⟩, wrapped, done⟩ := okBind done
  obtain ⟨same, -, inside⟩ := packed wrapped
  simp only at same
  subst same
  simp only at done
  split at done
  · cases done
    exact ⟨rfl, inside⟩
  · cases filed : install t _ _ envelope.content with
    | mk outcome later =>
      rw [filed] at done
      cases outcome with
      | error e => cases done
      | ok _ =>
        cases done
        exact ⟨rfl, inside⟩

theorem putPlaces {s : DirectoryStore} {content : Blob} {outcome : Except StoreError ArtifactId}
    (closed : t.Closed) (leads : Leads t s.root base)
    (named : id = .compute s.settings.algorithm content.content)
    (limit : t.lookup .target (s.path id) ≠ .error .tooManyLinks)
    (done : s.put t content = .ok (outcome, now)) :
    now.Closed ∧ Finds t now ∧
      (∀ node, t.lookup .target (s.path id) = .ok node → now = t) ∧
      ∀ e given, t.lookup .target (s.path id) = .error e → outcome = .ok given →
        now.lookup .target (s.path id) = .ok (.file (Envelope.envelopeOf [content.content])) := by
  obtain ⟨⟨computed, envelope⟩, wrapped, done⟩ := okBind done
  obtain ⟨same, whole, -⟩ := packed wrapped
  simp only at same whole
  subst same named
  rw [← whole]
  cases found : t.lookup .target (s.path (.compute s.settings.algorithm content.content)) with
  | ok node =>
    simp only [pathExistsFound found, if_true] at done
    cases done
    exact ⟨closed, fun _ _ _ same => same, fun _ _ => rfl, fun _ _ same => by cases same⟩
  | error e =>
    cases filed : install t _ _ envelope.content with
    | mk outcome later =>
      obtain ⟨closed, finds, stands⟩ :=
        installed closed leads found (fun same => limit (same ▸ found)) filed
      simp only [pathExistsFailed found, filed] at done
      cases done
      refine ⟨closed, finds, (fun _ same => by cases same), fun _ given _ fine => ?_⟩
      cases outcome with
      | error e => cases fine
      | ok _ => exact stands rfl

end

end ArtifactVault.DirectoryStore
