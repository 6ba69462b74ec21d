import ArtifactVault.Proofs.ArtifactId
import ArtifactVault.Proofs.FileTree.Paths
import ArtifactVault.Store.Directory

/-! Where a directory store looks for an artifact. Its paths go on from the root by two plain names,
so each of them leads to the place of its id or to nothing, whatever else changed below the root. -/
namespace ArtifactVault.DirectoryStore
open FileTree

def shard (id : ArtifactId) : Bytes := id.nameBytes.take shardDigits

def leaf (id : ArtifactId) : Bytes := id.nameBytes.drop shardDigits

def placeOf (base : Place) (id : ArtifactId) : Place := base ++ [shard id, leaf id]

theorem nameOfDigits {name : Bytes} (filled : name ≠ []) (short : name.length ≤ longestName)
    (digits : ∀ byte ∈ name, Byte.isLowerHexDigit byte = true) : Name name := by
  have others : Byte.isLowerHexDigit 0x2e = false ∧ Byte.isLowerHexDigit slash = false ∧
      Byte.isLowerHexDigit 0 = false := by decide
  have absent {byte : UInt8} (other : Byte.isLowerHexDigit byte = false) : byte ∉ name := by
    intro mem
    rw [digits byte mem] at other
    cases other
  refine ⟨⟨⟨?_, ?_⟩, Nat.not_lt_of_le short⟩, absent others.2.1, absent others.2.2⟩
  · rintro (nothing | same)
    · exact filled nothing
    · exact absent others.1 (same ▸ List.mem_singleton_self _)
  · exact fun same => absent others.1 (same ▸ List.mem_cons_self)

theorem lengthShard (id : ArtifactId) : (shard id).length = shardDigits := by
  rw [shard, List.length_take, id.lengthNameBytes]
  cases id.algorithm <;> rfl

theorem lengthLeaf (id : ArtifactId) : (leaf id).length = id.algorithm.hexLength - shardDigits := by
  rw [leaf, List.length_drop, id.lengthNameBytes]

theorem lengthLeafBounds (id : ArtifactId) : 38 ≤ (leaf id).length ∧ (leaf id).length ≤ 62 := by
  rw [lengthLeaf]
  cases id.algorithm <;> decide

theorem shardName (id : ArtifactId) : Name (shard id) := by
  have length : (shard id).length = 2 := lengthShard id
  refine nameOfDigits ?_ ?_ fun byte mem => Hex.encodeDigits (List.mem_of_mem_take mem)
  · exact List.ne_nil_of_length_pos (by omega)
  · exact Nat.le_of_lt (by rw [length]; decide)

theorem leafName (id : ArtifactId) : Name (leaf id) := by
  obtain ⟨long, short⟩ := lengthLeafBounds id
  refine nameOfDigits ?_ ?_ fun byte mem => Hex.encodeDigits (List.mem_of_mem_drop mem)
  · exact List.ne_nil_of_length_pos (by omega)
  · exact Nat.le_trans short (by decide)

theorem wholeName (id : ArtifactId) : shard id ++ leaf id = id.nameBytes := List.take_append_drop _ _

theorem sameId {x y : ArtifactId} (shards : shard x = shard y) (leaves : leaf x = leaf y) : x = y := by
  apply ArtifactId.nameBytesInjective
  rw [← wholeName x, ← wholeName y, shards, leaves]

theorem placeInjective {base : Place} {x y : ArtifactId} (same : placeOf base x = placeOf base y) :
    x = y := by
  have names := List.append_cancel_left same
  obtain ⟨shards, names⟩ := List.cons.inj names
  exact sameId shards (List.cons.inj names).1

theorem placeBelow (base : Place) (id : ArtifactId) : Below base (placeOf base id) :=
  belowCons base _ _

theorem shardNotPlace (base : Place) (name : Bytes) (id : ArtifactId) :
    base ++ [name] ≠ placeOf base id := fun same =>
  nomatch (List.cons.inj (List.append_cancel_left same)).2

theorem digitBytes {c : Char} (digit : c.isDigit = true) :
    Utf8.encodeChar c = [UInt8.ofNat c.toNat] ∧ 0x30 ≤ c.toNat ∧ c.toNat ≤ 0x39 := by
  have range : 0x30 ≤ c.toNat ∧ c.toNat ≤ 0x39 := by
    simpa [Char.isDigit, UInt32.le_iff_toNat_le] using digit
  refine ⟨?_, range⟩
  simp only [Utf8.encodeChar]
  rw [if_pos (by omega)]

theorem temporaryBytes (n : Nat) : ∃ digits, temporaryName n = [0x2e, 0x74, 0x6d, 0x70] ++ digits ∧
    ∀ byte ∈ digits, 0x30 ≤ byte.toNat ∧ byte.toNat ≤ 0x39 := by
  refine ⟨Utf8.encode (Nat.toDigits 10 n), ?_, fun byte mem => ?_⟩
  · have chars : (s!".tmp{n}").toList = ['.', 't', 'm', 'p'] ++ Nat.toDigits 10 n := by
      rw [String.toList_append, Nat.toString_eq_ofList_toDigits, String.toList_ofList]
      rfl
    rw [temporaryName, Utf8.ofString, chars, Utf8.encode, List.flatMap_append]
    rfl
  · obtain ⟨c, digit, mem⟩ := List.mem_flatMap.mp mem
    obtain ⟨single, range⟩ := digitBytes (Nat.isDigit_of_mem_toDigits (by decide) (by decide) digit)
    rw [single, List.mem_singleton] at mem
    rwa [mem, UInt8.toNat_ofNat_of_lt' (by omega : c.toNat < 256)]

theorem temporaryDescends (n : Nat) : Descends (temporaryName n) := by
  obtain ⟨digits, bytes, -⟩ := temporaryBytes n
  rw [bytes]
  exact ⟨by simp [dot], by simp [dotDot]⟩

theorem temporaryAbsent {n : Nat} {byte : UInt8} (other : byte ∉ [0x2e, 0x74, 0x6d, 0x70])
    (noDigit : ¬ (0x30 ≤ byte.toNat ∧ byte.toNat ≤ 0x39)) : byte ∉ temporaryName n := by
  obtain ⟨digits, bytes, range⟩ := temporaryBytes n
  rw [bytes, List.mem_append]
  rintro (mem | mem)
  · exact other mem
  · exact noDigit (range byte mem)

theorem temporaryNoLeaf (n : Nat) (id : ArtifactId) : temporaryName n ≠ leaf id := by
  intro same
  obtain ⟨digits, bytes, -⟩ := temporaryBytes n
  have first : (0x2e : UInt8) ∈ leaf id := by
    rw [← same, bytes]
    exact List.mem_cons_self
  have digit := Hex.encodeDigits (List.mem_of_mem_drop first)
  exact absurd digit (by decide)

def sourceOf (base : Place) (other : ArtifactId) (n : Nat) : Place :=
  base ++ [shard other, temporaryName n]

theorem sourceBelow (base : Place) (other : ArtifactId) (n : Nat) :
    Below base (sourceOf base other n) :=
  belowCons base _ _

theorem shardNoSource (base : Place) (name : Bytes) (other : ArtifactId) (n : Nat) :
    base ++ [name] ≠ sourceOf base other n := fun same =>
  nomatch (List.cons.inj (List.append_cancel_left same)).2

theorem sourceNoPlace (base : Place) (other : ArtifactId) (n : Nat) (id : ArtifactId) :
    sourceOf base other n ≠ placeOf base id := fun same =>
  temporaryNoLeaf n id (List.cons.inj (List.cons.inj (List.append_cancel_left same)).2).1

theorem temporaryEq : temporaryName 0 = [0x2e, 0x74, 0x6d, 0x70, 0x30] := by decide

theorem temporaryPlain : Name (temporaryName 0) :=
  ⟨⟨temporaryDescends 0, by rw [temporaryEq]; decide⟩, temporaryAbsent (by decide) (by decide),
    temporaryAbsent (by decide) (by decide)⟩

def temporaryPlace (base : Place) (id : ArtifactId) : Place := base ++ [shard id, temporaryName 0]

theorem temporaryBelow (base : Place) (id : ArtifactId) : Below base (temporaryPlace base id) :=
  belowCons base _ _

theorem temporaryApart (base : Place) (id : ArtifactId) :
    temporaryPlace base id ≠ placeOf base id := sourceNoPlace base id 0 id

/-- A root that leads to a directory, below which there is nothing yet; paths of artifacts are not
too long. -/
structure Vacant (t : FileTree) (root : Bytes) (base : Place) : Prop where
  leads : t.resolve .target root = .ok base
  directory : t.node? base = some .directory
  nothing : ∀ place, Below base place → t.node? place = none
  room : root.length + 66 ≤ longestPath

section
variable {origin t : FileTree} {root : Bytes} {base : Place} {settings : StoreSettings}
  {goal : Goal} {id : ArtifactId} {name : Bytes}

theorem shardPathEq :
    (⟨root, settings⟩ : DirectoryStore).shardPath id = join root (shard id) := rfl

theorem pathEq :
    (⟨root, settings⟩ : DirectoryStore).path id = join (join root (shard id)) (leaf id) := rfl

theorem Vacant.way (vacant : Vacant origin root base) : Leads origin root base :=
  leadsOfResolve vacant.leads vacant.directory

theorem Vacant.checkShard (vacant : Vacant origin root base) (id : ArtifactId) :
    checkPath (join root (shard id)) = .ok () := by
  have length : (shard id).length = 2 := lengthShard id
  have room := vacant.room
  exact checkJoin (shardName id) (checkOfResolve vacant.leads) (by omega)

theorem Vacant.checkIn (vacant : Vacant origin root base) (plain : Name name)
    (short : name.length ≤ 62) :
    checkPath (join (join root (shard id)) name) = .ok () := by
  have length : (shard id).length = 2 := lengthShard id
  have room := vacant.room
  obtain ⟨front, joined, within, -⟩ := joinBehind root (shard id)
  refine checkJoin plain (vacant.checkShard id) ?_
  rw [joined, List.length_append]
  omega

theorem stepsShard : steps (join root (shard id)) = names root ++ [shard id] :=
  stepsJoin (shardName id).filled (shardName id).noSlash

theorem stepsIn (named : name ≠ []) (noSlash : slash ∉ name) :
    steps (join (join root (shard id)) name) = names root ++ [shard id, name] := by
  have through : names (join root (shard id)) = names root ++ [shard id] :=
    namesJoin (shardName id).filled (shardName id).noSlash
  rw [stepsJoin named noSlash, through, List.append_assoc]
  rfl

theorem resolveShard (leads : Leads origin root base) (ways : origin.Ways t)
    (noLink : ∀ target, t.node? (base ++ [shard id]) ≠ some (.link target)) :
    t.resolve goal (join root (shard id)) = (do
      checkPath (join root (shard id))
      return base ++ [shard id]) := by
  have named : [shard id] ≠ [] ∧ [shard id] ≠ [[]] :=
    ⟨List.cons_ne_nil _ _, fun same => (shardName id).filled (List.cons.inj same).1⟩
  obtain ⟨left, resolved⟩ := leads.onward ways named stepsShard
  rw [resolved, walkToName (ways.directory leads.directory) (shardName id).toDescends (.inr noLink),
    if_neg (shardName id).short]
  rfl

theorem resolveIn (leads : Leads origin root base) (ways : origin.Ways t)
    (descends : Descends name) (noSlash : slash ∉ name)
    (noLinkAbove : ∀ target, t.node? (base ++ [shard id]) ≠ some (.link target))
    (noLink : ∀ target, t.node? (base ++ [shard id, name]) ≠ some (.link target)) :
    t.resolve goal (join (join root (shard id)) name) = (do
      checkPath (join (join root (shard id)) name)
      match t.node? (base ++ [shard id]) with
      | some .directory =>
        if longestName < name.length then .error .nameTooLong else .ok (base ++ [shard id, name])
      | some _ => .error .notADirectory
      | none => .error .notFound) := by
  have named : [shard id, name] ≠ [] ∧ [shard id, name] ≠ [[]] :=
    ⟨List.cons_ne_nil _ _, fun same => by cases (List.cons.inj same).2⟩
  have enters : ¬ (goal = .output ∧ [name] = [[]]) := fun both =>
    descends.filled (List.cons.inj both.2).1
  have split : base ++ [shard id, name] = base ++ [shard id] ++ [name] := List.append_cons _ _ _
  have here := ways.directory leads.directory
  obtain ⟨left, resolved⟩ := leads.onward ways named (stepsIn descends.filled noSlash)
  rw [resolved]
  congr 1
  funext _
  cases there : t.node? (base ++ [shard id]) with
  | none =>
    rw [walkMissing here (shardName id).toPlain enters there, if_neg (List.cons_ne_nil _ _)]
  | some node =>
    cases node with
    | link target => exact absurd there (noLinkAbove target)
    | file content =>
      rw [walkDown here (shardName id).toPlain enters there (fun _ => Node.noConfusion)]
      exact walkBlocked there Node.noConfusion
    | directory =>
      rw [walkDown here (shardName id).toPlain enters there (fun _ => Node.noConfusion), split]
      rw [split] at noLink
      exact walkToName there descends (.inr noLink)

theorem resolvePath (leads : Leads origin root base) (ways : origin.Ways t) (plain : Name name)
    (checked : checkPath (join (join root (shard id)) name) = .ok ())
    (there : t.node? (base ++ [shard id]) = some .directory)
    (noLink : ∀ target, t.node? (base ++ [shard id, name]) ≠ some (.link target)) :
    t.resolve goal (join (join root (shard id)) name) = .ok (base ++ [shard id, name]) := by
  rw [resolveIn leads ways plain.toDescends plain.noSlash (by rw [there]; exact fun _ => nofun) noLink,
    checked, there]
  exact if_neg plain.short

theorem resolveMissing (leads : Leads origin root base) (ways : origin.Ways t) (plain : Name name)
    (checked : checkPath (join (join root (shard id)) name) = .ok ())
    (missing : t.node? (base ++ [shard id]) = none)
    (noLink : ∀ target, t.node? (base ++ [shard id, name]) ≠ some (.link target)) :
    t.resolve goal (join (join root (shard id)) name) = .error .notFound := by
  rw [resolveIn leads ways plain.toDescends plain.noSlash (by rw [missing]; exact fun _ => nofun)
    noLink, checked, missing]
  rfl

theorem resolveTemporary (vacant : Vacant origin root base) (ways : origin.Ways t)
    (there : t.node? (base ++ [shard id]) = some .directory)
    (noLink : ∀ target, t.node? (temporaryPlace base id) ≠ some (.link target)) (goal : Goal) :
    t.resolve goal (join (join root (shard id)) (temporaryName 0)) = .ok (temporaryPlace base id) := by
  have short : (temporaryName 0).length ≤ 62 := by
    rw [temporaryEq]
    decide
  exact resolvePath vacant.way ways temporaryPlain (vacant.checkIn temporaryPlain short) there noLink

theorem freshPathNamed (t : FileTree) (directory : Bytes) (tries n : Nat) :
    ∃ m, freshPath t directory tries n = join directory (temporaryName m) := by
  induction tries generalizing n with
  | zero => exact ⟨n, rfl⟩
  | succ tries ih =>
    rw [freshPath]
    split
    · exact ih (n + 1)
    · exact ⟨n, rfl⟩

theorem freshFirst {directory : Bytes} {tries : Nat}
    (free : t.lookup .itself (join directory (temporaryName 0)) = .error .notFound) :
    freshPath t directory (tries + 1) 0 = join directory (temporaryName 0) := by
  rw [freshPath, free]
  rfl

end

end ArtifactVault.DirectoryStore
