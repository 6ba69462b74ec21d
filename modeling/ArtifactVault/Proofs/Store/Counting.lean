import Mathlib.Data.Finite.Sum
import Mathlib.Data.Set.Card
import Mathlib.Data.Set.Finite.List
import ArtifactVault.Proofs.Store.Acknowledged

/-! What the size of a store of files counts, whatever stands below its root. Every hash name that is
spelled by a directory and an entry in it is counted, also where no artifact is found, and artifacts
behind a linked directory are not. -/
namespace ArtifactVault.DirectoryStore
open FileTree Store

def listed (t : FileTree) (base : Place) : List (Bytes × Bytes) :=
  (shardEntries t base).flatMap fun entry =>
    ((t.children (base ++ [entry.1])).map fun child => (entry.1, child.1)).filter fun pair =>
      (hashNameAlgorithm? (pair.1 ++ pair.2)).isSome

structure Counted (t : FileTree) (base : Place) (pair : Bytes × Bytes) : Prop where
  directory : t.node? (base ++ [pair.1]) = some .directory
  entry : t.node? (base ++ [pair.1, pair.2]) ≠ none
  named : (hashNameAlgorithm? (pair.1 ++ pair.2)).isSome = true

section
variable {t : FileTree} {base : Place}

theorem namesListed : allNames t base = (listed t base).map fun pair => pair.1 ++ pair.2 := by
  have each (entry : Bytes × Node) : hashNames t base entry.1 =
      (((t.children (base ++ [entry.1])).map fun child => (entry.1, child.1)).filter fun pair =>
        (hashNameAlgorithm? (pair.1 ++ pair.2)).isSome).map fun pair => pair.1 ++ pair.2 := by
    rw [hashNames, List.filter_map, List.filter_map, List.map_map]
    rfl
  rw [allNames, listed, List.map_flatMap]
  exact congrArg (fun names => (shardEntries t base).flatMap names) (funext each)

theorem listedIff (once : t.OnceBelow base) {pair : Bytes × Bytes} :
    pair ∈ listed t base ↔ Counted t base pair := by
  obtain ⟨first, next⟩ := pair
  have below : Below base (base ++ [first] ++ [next]) := by
    rw [← List.append_cons]
    exact belowCons base _ _
  have inner (node : Node) : (next, node) ∈ t.children (base ++ [first]) ↔
      t.node? (base ++ [first, next]) = some node := by
    rw [childIff, entryIff once below, ← List.append_cons]
  simp only [listed, List.mem_flatMap, List.mem_filter, List.mem_map, Prod.mk.injEq]
  constructor
  · rintro ⟨entry, shard, ⟨⟨child, node⟩, mem, rfl, rfl⟩, named⟩
    have found := (inner node).mp mem
    obtain ⟨directory, there⟩ := (shardEntryIff once).mp shard
    exact ⟨directory ▸ there, by rw [found]; exact nofun, named⟩
  · rintro ⟨directory, entry, named⟩
    obtain ⟨node, found⟩ := Option.ne_none_iff_exists'.mp entry
    exact ⟨(first, .directory), (shardEntryIff once).mpr ⟨rfl, directory⟩,
      ⟨(next, node), (inner node).mpr found, rfl, rfl⟩, named⟩

theorem listedNodup (once : t.OnceBelow base) : (listed t base).Nodup := by
  have shards : (shardEntries t base).Pairwise fun x y => x.1 ≠ y.1 :=
    (List.pairwise_map.mp (childrenNodup once (List.prefix_refl base))).sublist List.filter_sublist
  refine List.nodup_flatMap.mpr ⟨fun entry _ => ?_, shards.imp fun {x y} differ pair inX inY => ?_⟩
  · have inner := childrenNodup once (List.prefix_append base [entry.1])
    have pairs := inner.map (Prod.mk_right_injective entry.1)
    rw [List.map_map] at pairs
    exact pairs.filter _
  · obtain ⟨_, _, first⟩ := List.mem_map.mp (List.mem_filter.mp inX).1
    obtain ⟨_, _, second⟩ := List.mem_map.mp (List.mem_filter.mp inY).1
    exact differ ((congrArg Prod.fst first).trans (congrArg Prod.fst second).symm)

theorem countListed (once : t.OnceBelow base) :
    (allNames t base).length = {pair | Counted t base pair}.ncard := by
  have same : {pair | Counted t base pair} = ↑(listed t base).toFinset := by
    ext pair
    rw [Set.mem_ofPred_eq, List.coe_toFinset, Set.mem_ofPred_eq, listedIff once]
  rw [same, Set.ncard_coe_finset, List.toFinset_card_of_nodup (listedNodup once), namesListed,
    List.length_map]

theorem countedFinite (once : t.OnceBelow base) : {pair | Counted t base pair}.Finite :=
  (listed t base).toFinset.finite_toSet.subset fun pair counted => by
    rw [List.coe_toFinset]
    exact (listedIff once).mpr counted

end

instance : Finite ArtifactId := by
  let names : Set Bytes := {name | name.length = Algorithm.sha1.hexLength} ∪
    {name | name.length = Algorithm.sha3.hexLength}
  have bytes : Finite UInt8 := Finite.of_injective UInt8.toFin fun _ _ => UInt8.toFin_inj.mp
  have finite : names.Finite := (List.finite_length_eq _ _).union (List.finite_length_eq _ _)
  have within (id : ArtifactId) : id.nameBytes ∈ names := by
    have length := id.lengthNameBytes
    cases named : id.algorithm with
    | sha1 => exact .inl (named ▸ length)
    | sha3 => exact .inr (named ▸ length)
  have : Finite names := finite
  exact Finite.of_injective (fun id => (⟨id.nameBytes, within id⟩ : names)) fun x y same =>
    ArtifactId.nameBytesInjective (congrArg Subtype.val same)

structure Stray (s : DirectoryStore) (t : FileTree) (base : Place) (pair : Bytes × Bytes) : Prop
    extends Counted t base pair where
  misplaced : pair.1.length ≠ shardDigits ∨
    (∃ byte ∈ pair.1 ++ pair.2, Byte.isLowerHexDigit byte = false) ∨
    t.isFile (join (join s.root pair.1) pair.2) = false

section
variable {s : DirectoryStore} {t : FileTree} {base : Place} {id : ArtifactId} {pair : Bytes × Bytes}

def spelling (id : ArtifactId) : Bytes × Bytes := (shard id, leaf id)

theorem spellingInjective : Function.Injective spelling := fun _ _ same =>
  sameId (congrArg Prod.fst same) (congrArg Prod.snd same)

theorem containedFile (contained : s.contains t id = true) :
    ∃ content, t.lookup .target (s.path id) = .ok (.file content) := by
  unfold DirectoryStore.contains isFile at contained
  split at contained
  · exact ⟨_, by assumption⟩
  · cases contained

theorem artifactCounted (leads : Leads t s.root base) (contained : s.contains t id = true)
    (directory : t.node? (base ++ [shard id]) = some .directory) :
    Counted t base (spelling id) := by
  obtain ⟨content, found⟩ := containedFile contained
  obtain ⟨place, resolved, there⟩ := lookupIff.mp found
  refine ⟨directory, fun missing => ?_, ?_⟩
  · replace missing : t.node? (base ++ [shard id, leaf id]) = none := missing
    have arrives : t.resolve .target (join (join s.root (shard id)) (leaf id)) =
        .ok (base ++ [shard id, leaf id]) :=
      resolvePath leads (.refl t) (leafName id) (resolveIff.mp resolved).1 directory
        (by rw [missing]; exact fun _ => nofun)
    cases resolved.symm.trans arrives
    rw [missing] at there
    cases there
  · rw [spelling, wholeName, id.hashNameOfId]
    rfl

theorem countedCases (counted : Counted t base pair) :
    Stray s t base pair ∨ ∃ id, s.contains t id = true ∧
      t.node? (base ++ [shard id]) = some .directory ∧ spelling id = pair := by
  by_cases misplaced : pair.1.length ≠ shardDigits ∨
      (∃ byte ∈ pair.1 ++ pair.2, Byte.isLowerHexDigit byte = false) ∨
      t.isFile (join (join s.root pair.1) pair.2) = false
  · exact .inl ⟨counted, misplaced⟩
  · simp only [not_or, not_exists, not_and, Bool.not_eq_false, not_not] at misplaced
    obtain ⟨split, lower, file⟩ := misplaced
    obtain ⟨a, named⟩ := Option.isSome_iff_exists.mp counted.named
    obtain ⟨id, same⟩ := ArtifactId.idOfHashName named lower
    have first : shard id = pair.1 := by rw [shard, same, ← split, List.take_left]
    have next : leaf id = pair.2 := by rw [leaf, same, ← split, List.drop_left]
    refine .inr ⟨id, ?_, first ▸ counted.directory, Prod.ext first next⟩
    rw [← first, ← next] at file
    exact file

theorem strayNoArtifact (stray : Stray s t base (spelling id)) : s.contains t id = false := by
  rcases stray.misplaced with split | ⟨byte, mem, upper⟩ | noFile
  · exact absurd (lengthShard id) split
  · rw [spelling, wholeName] at mem
    rw [Hex.encodeDigits mem] at upper
    cases upper
  · exact noFile

def Shelved (s : DirectoryStore) (t : FileTree) (base : Place) : Set ArtifactId :=
  {id | s.contains t id = true ∧ t.node? (base ++ [shard id]) = some .directory}

def Hidden (s : DirectoryStore) (t : FileTree) (base : Place) : Set ArtifactId :=
  {id | s.contains t id = true ∧ t.node? (base ++ [shard id]) ≠ some .directory}

theorem containedSplit : {id | s.contains t id = true}.ncard =
    (Shelved s t base).ncard + (Hidden s t base).ncard := by
  have both : {id | s.contains t id = true} = Shelved s t base ∪ Hidden s t base := by
    ext id
    simp only [Shelved, Hidden, Set.mem_union, Set.mem_ofPred_eq, ← and_or_left]
    exact (and_iff_left (Decidable.em _)).symm
  rw [both]
  refine Set.ncard_union_eq (Set.disjoint_left.mpr fun id shelved hidden => ?_)
  exact hidden.2 shelved.2

theorem countedSplit (once : t.OnceBelow base) (leads : Leads t s.root base) :
    {pair | Counted t base pair}.ncard =
      (Shelved s t base).ncard + {pair | Stray s t base pair}.ncard := by
  have both : {pair | Counted t base pair} =
      spelling '' Shelved s t base ∪ {pair | Stray s t base pair} := by
    ext pair
    constructor
    · intro counted
      rcases countedCases counted with stray | ⟨id, contained, directory, same⟩
      · exact .inr stray
      · exact .inl ⟨id, ⟨contained, directory⟩, same⟩
    · rintro (⟨id, ⟨contained, directory⟩, rfl⟩ | stray)
      · exact artifactCounted leads contained directory
      · exact stray.toCounted
  have strays : {pair | Stray s t base pair}.Finite :=
    (countedFinite once).subset fun pair stray => stray.toCounted
  rw [both, Set.ncard_union_eq _ (Set.toFinite _) strays,
    Set.ncard_image_of_injective _ spellingInjective]
  rw [Set.disjoint_left]
  rintro _ ⟨id, shelved, rfl⟩ stray
  have absent := strayNoArtifact stray
  rw [shelved.1] at absent
  cases absent

/-- The number is that of the artifacts, less those behind linked directories, and more by what is
astray. Where neither is there it is right. -/
theorem sizeAccounts [Zlib.Encoder] (once : t.OnceBelow base)
    (resolved : t.resolve .target s.root = .ok base) (directory : t.node? base = some .directory)
    (passes : ∀ name, t.node? (base ++ [name]) = some .directory →
      checkPath (join s.root name) = .ok ()) :
    ∃ n, s.size t = .ok n ∧
      n + (Hidden s t base).ncard =
        {id | s.contains t id = true}.ncard + {pair | Stray s t base pair}.ncard ∧
      ((∀ pair, ¬ Stray s t base pair) → (∀ id, id ∉ Hidden s t base) →
        n = {id | s.contains t id = true}.ncard ∧
          (callDirectory s t .isEmpty = .ok (.flag true, t) ↔ ∀ id, s.contains t id = false)) := by
  have counted := countedSplit once (leadsOfResolve resolved directory)
  have contained := @containedSplit s t base
  have size := sizeListed once resolved directory passes
  refine ⟨_, size, ?_, fun noStray noHidden => ?_⟩
  · rw [countListed once]
    omega
  · have strays : {pair | Stray s t base pair} = ∅ := Set.eq_empty_of_forall_notMem noStray
    have hidden : Hidden s t base = ∅ := Set.eq_empty_of_forall_notMem noHidden
    rw [strays, Set.ncard_empty] at counted
    rw [hidden, Set.ncard_empty] at contained
    have whole : (allNames t base).length = {id | s.contains t id = true}.ncard := by
      rw [countListed once]
      omega
    have empty : callDirectory s t .isEmpty = .ok (.flag true, t) ↔
        (allNames t base).length = 0 := by
      simp only [callDirectory, size, Except.map, Answer.of, Except.ok.injEq, Prod.mk.injEq,
        Answer.flag.injEq, decide_eq_true_iff, and_true]
    refine ⟨whole, ?_⟩
    rw [empty, whole, Set.ncard_eq_zero (Set.toFinite _), Set.eq_empty_iff_forall_notMem]
    exact forall_congr' fun id => (Bool.not_eq_true _).to_iff

end

def misfiled : FileTree := holding [0x61, 0x62, 0x63] (List.replicate 37 0x30) []

theorem misfiledOnce : misfiled.OnceBelow [[0x72]] :=
  onceInsert (onceInsert (standsAtFirst letterRootVacant).once)

theorem misfiledShards {name : Bytes} {node : Node}
    (found : misfiled.node? ([[0x72]] ++ [name]) = some node) : name = [0x61, 0x62, 0x63] := by
  rw [misfiled, holdingNode, if_neg (by simp)] at found
  split at found
  · rename_i same
    exact (List.cons.inj (List.append_cancel_left same)).1
  · rw [letterRootVacant.nothing _ (belowCons _ _ _)] at found
    cases found

theorem misfiledLeads : Leads misfiled [0x72] [[0x72]] := (holdingStands _ _ _).2

theorem misfiledPasses {name : Bytes}
    (found : misfiled.node? ([[0x72]] ++ [name]) = some .directory) :
    checkPath (join [0x72] name) = .ok () := by
  rw [misfiledShards found]
  decide

theorem misfiledAccounts :
    let s : DirectoryStore := ⟨[0x72], .standard⟩
    ∃ n, s.size misfiled = .ok n ∧
      n + (Hidden s misfiled [[0x72]]).ncard =
        {id | s.contains misfiled id = true}.ncard + {pair | Stray s misfiled [[0x72]] pair}.ncard := by
  intro s
  obtain ⟨n, size, accounts, -⟩ := @sizeAccounts s misfiled [[0x72]] _ misfiledOnce
    (resolveIff.mpr ⟨by decide, misfiledLeads.walks⟩) misfiledLeads.directory
    fun name found => misfiledPasses found
  exact ⟨n, size, accounts⟩

theorem misfiledCounted :
    let s : DirectoryStore := ⟨[0x72], .standard⟩
    s.size misfiled = .ok 1 ∧ ∀ id, s.contains misfiled id = false := by
  intro s
  refine ⟨?_, fun id => ?_⟩
  · have names : (allNames misfiled [[0x72]]).length = 1 := by decide +kernel
    rw [← names]
    exact sizeListed misfiledOnce (resolveIff.mpr ⟨by decide, misfiledLeads.walks⟩)
      misfiledLeads.directory fun name found => misfiledPasses found
  · have missing : misfiled.node? ([[0x72]] ++ [shard id]) = none := by
      by_contra found
      obtain ⟨node, found⟩ := Option.ne_none_iff_exists'.mp found
      have length := lengthShard id
      rw [misfiledShards found] at length
      cases length
    have closed : misfiled.Closed := (holdingStands _ _ _).1
    have empty : misfiled.node? ([[0x72]] ++ [shard id] ++ leaf id :: []) = none :=
      closed.nothingBelow (by rw [missing]; exact nofun) _ _
    rw [← List.append_cons] at empty
    rw [Bool.eq_false_iff]
    intro contained
    obtain ⟨content, found⟩ := containedFile contained
    obtain ⟨place, resolved, -⟩ := lookupIff.mp found
    have failed : misfiled.resolve .target (join (join [0x72] (shard id)) (leaf id)) =
        .error .notFound :=
      resolveMissing misfiledLeads (.refl misfiled) (leafName id) (resolveIff.mp resolved).1 missing
        (by rw [empty]; exact fun _ => nofun)
    cases resolved.symm.trans failed

end ArtifactVault.DirectoryStore
