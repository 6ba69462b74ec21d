import ArtifactVault.Proofs.Store.Integrity
import ArtifactVault.Proofs.Store.Memory
import ArtifactVault.Proofs.Store.Sparing

/-! Verified reads are truthful, and calls about other artifacts leave them alone. Either store keeps
what it holds of an artifact through such a call, and so through every run of them. -/
namespace ArtifactVault.MemoryStore
open Keyed

variable {s : MemoryStore} {id other : ArtifactId}

theorem insertNewSpares (apart : id ≠ other) (envelope : Bytes) :
    (s.insertNew other envelope).envelope? id = s.envelope? id := by
  unfold insertNew
  split
  · rfl
  · rw [envelope?, lookupCons, if_neg apart]
    rfl

theorem deleteSpares (apart : id ≠ other) : (s.delete other).2.envelope? id = s.envelope? id := by
  rw [delete, envelope?, lookupFilter, if_neg apart]
  rfl

theorem getSame {now : MemoryStore} (same : now.envelope? id = s.envelope? id)
    (settings : now.settings = s.settings) : now.get id = s.get id := by
  simp only [MemoryStore.get, same, settings]

end ArtifactVault.MemoryStore

namespace ArtifactVault.Store
open DirectoryStore (Sturdy)

def State.Sturdy (state : State) : Prop :=
  match state.store with
  | .memory _ => True
  | .directory s => ∃ base, DirectoryStore.Sturdy state.files s.root base

def Avoids (algorithm : Algorithm) (id : ArtifactId) : Call → Prop
  | .put content => ArtifactId.compute algorithm content.content ≠ id
  | .delete other => other ≠ id
  | _ => True

section
variable [Zlib.Encoder]

structure Undisturbed (state after : State) (id : ArtifactId) : Prop where
  sturdy : after.Sturdy
  settings : after.store.settings = state.store.settings
  reads : ∀ answer, state.call (.get id) = .ok (answer, state) →
    after.call (.get id) = .ok (answer, after)

theorem undisturbedMemory {s now : MemoryStore} {files : FileTree} {id : ArtifactId}
    (same : now.envelope? id = s.envelope? id) (settings : now.settings = s.settings) :
    Undisturbed ⟨.memory s, files⟩ ⟨.memory now, files⟩ id := by
  refine ⟨trivial, settings, fun answer read => ?_⟩
  obtain ⟨⟨given, kept⟩, read, same⟩ := okBind read
  cases same
  obtain ⟨outcome, got, read⟩ := okBind read
  cases read
  simp only [State.call, callMemory, MemoryStore.getSame same settings, got]
  rfl

theorem undisturbedDirectory {s : DirectoryStore} {t now : FileTree} {base : Place}
    {id other : ArtifactId} (spares : DirectoryStore.Spares t now s.root base other)
    (sturdy : DirectoryStore.Sturdy t s.root base) (apart : id ≠ other) :
    Undisturbed ⟨.directory s, t⟩ ⟨.directory s, now⟩ id := by
  have same : s.get now id = s.get t id := spares.get sturdy apart
  refine ⟨⟨base, spares.sturdy⟩, rfl, fun answer read => ?_⟩
  obtain ⟨⟨given, kept⟩, read, same⟩ := okBind read
  cases same
  obtain ⟨outcome, got, read⟩ := okBind read
  cases read
  simp only [State.call, callDirectory, same, got]
  rfl

theorem callMemoryUndisturbed {s now : MemoryStore} {files : FileTree} {id : ArtifactId}
    {call : Call} {given : Answer} (avoids : Avoids s.settings.algorithm id call)
    (called : callMemory s call = .ok (given, now)) :
    Undisturbed ⟨.memory s, files⟩ ⟨.memory now, files⟩ id := by
  cases call with
  | put content =>
    obtain ⟨⟨named, kept⟩, stored, called⟩ := okBind called
    obtain ⟨⟨computed, envelope⟩, packed, stored⟩ := okBind stored
    obtain ⟨_, -, packed⟩ := okBind packed
    cases packed
    cases stored
    cases called
    exact undisturbedMemory (MemoryStore.insertNewSpares (Ne.symm avoids) _)
      (MemoryStore.settingsInsertNew _ _ _)
  | delete other =>
    cases called
    exact undisturbedMemory (MemoryStore.deleteSpares (Ne.symm avoids)) rfl
  | get other =>
    obtain ⟨_, -, called⟩ := okBind called
    cases called
    exact undisturbedMemory rfl rfl
  | getRequired other =>
    obtain ⟨_, -, called⟩ := okBind called
    cases called
    exact undisturbedMemory rfl rfl
  | _ =>
    cases called
    exact undisturbedMemory rfl rfl

theorem callDirectoryUndisturbed {s : DirectoryStore} {t now : FileTree} {base : Place}
    {id : ArtifactId} {call : Call} {given : Answer}
    (sturdy : DirectoryStore.Sturdy t s.root base) (avoids : Avoids s.settings.algorithm id call)
    (called : callDirectory s t call = .ok (given, now)) :
    Undisturbed ⟨.directory s, t⟩ ⟨.directory s, now⟩ id := by
  have still : Undisturbed ⟨.directory s, t⟩ ⟨.directory s, t⟩ id :=
    ⟨⟨base, sturdy⟩, rfl, fun _ read => read⟩
  cases call with
  | put content =>
    obtain ⟨⟨outcome, files⟩, done, called⟩ := okBind called
    cases called
    exact undisturbedDirectory (sturdy.put done) sturdy (Ne.symm avoids)
  | delete other =>
    cases called
    exact undisturbedDirectory (sturdy.delete other) sturdy (Ne.symm avoids)
  | get other =>
    obtain ⟨_, -, called⟩ := okBind called
    cases called
    exact still
  | getRequired other =>
    obtain ⟨_, -, called⟩ := okBind called
    cases called
    exact still
  | _ =>
    cases called
    exact still

theorem callUndisturbed {state after : State} {id : ArtifactId} {call : Call} {given : Answer}
    (sturdy : state.Sturdy) (avoids : Avoids state.store.settings.algorithm id call)
    (called : state.call call = .ok (given, after)) : Undisturbed state after id := by
  obtain ⟨store, files⟩ := state
  cases store with
  | memory s =>
    obtain ⟨⟨answer, now⟩, inside, same⟩ := okBind called
    cases same
    exact callMemoryUndisturbed avoids inside
  | directory s =>
    obtain ⟨base, sturdy⟩ := sturdy
    obtain ⟨⟨answer, now⟩, inside, same⟩ := okBind called
    cases same
    exact callDirectoryUndisturbed sturdy avoids inside

theorem runUndisturbed {id : ArtifactId} {calls : List Call} :
    ∀ {state after : State} {given : List Answer}, state.Sturdy →
      (∀ call ∈ calls, Avoids state.store.settings.algorithm id call) →
      state.run calls = .ok (given, after) → Undisturbed state after id := by
  induction calls with
  | nil =>
    intro state after given sturdy _ ran
    cases ran
    exact ⟨sturdy, rfl, fun _ read => read⟩
  | cons call calls ih =>
    intro state after given sturdy avoid ran
    obtain ⟨⟨answer, next⟩, called, ran⟩ := okBind ran
    obtain ⟨⟨answers, last⟩, ran, same⟩ := okBind ran
    cases same
    have first := callUndisturbed sturdy (avoid call (by simp)) called
    have rest := ih first.sturdy (fun call mem => by
      rw [first.settings]
      exact avoid call (by simp [mem])) ran
    exact ⟨rest.sturdy, rest.settings.trans first.settings,
      fun answer read => rest.reads answer (first.reads answer read)⟩

/-- A verified read never ends the run, changes nothing and tells the truth about the bytes that are
stored, whatever they are. Calls about other artifacts, in any number, do not change its answer. -/
theorem readsTruthfulAndUndisturbed {state : State} {id : ArtifactId}
    (verifies : state.store.settings.verifyReads = true) (unlinked : state.Unlinked)
    (fits : ∀ envelope, state.stored? id = some envelope → envelope.length + 1 < sizeCeiling) :
    ∃ answer, state.call (.get id) = .ok (answer, state) ∧ Truthful id (state.stored? id) answer ∧
      (state.Sturdy → ∀ calls given after,
        (∀ call ∈ calls, Avoids state.store.settings.algorithm id call) →
          state.run calls = .ok (given, after) → after.call (.get id) = .ok (answer, after)) := by
  obtain ⟨answer, read, truthful⟩ := readTruthful verifies unlinked fits
  exact ⟨answer, read, truthful, fun sturdy calls given after avoid ran =>
    (runUndisturbed sturdy avoid ran).reads answer read⟩

end

def zeroId : ArtifactId := .ofRaw .sha1 (List.replicate 20 0) rfl

def emptied : FileTree := ⟨[([[0x72]], .directory), ([[0x72], [0x30, 0x30]], .directory),
  ([[0x72], [0x30, 0x30], List.replicate 38 0x30], .file [])]⟩

theorem emptiedNodes {place : Place} {node : Node} (found : emptied.node? place = some node) :
    place = [] ∧ node = .directory ∨ place = [[0x72]] ∧ node = .directory ∨
      place = [[0x72], [0x30, 0x30]] ∧ node = .directory ∨
      place = [[0x72], [0x30, 0x30], List.replicate 38 0x30] ∧ node = .file [] := by
  cases place with
  | nil => exact .inl ⟨rfl, (Option.some.inj found).symm⟩
  | cons name names =>
    rw [FileTree.nodeLookup (List.cons_ne_nil _ _)] at found
    simp only [emptied, Keyed.lookupCons, List.lookup_nil] at found
    split at found
    · exact .inr (.inl ⟨by assumption, (Option.some.inj found).symm⟩)
    · split at found
      · exact .inr (.inr (.inl ⟨by assumption, (Option.some.inj found).symm⟩))
      · split at found
        · exact .inr (.inr (.inr ⟨by assumption, (Option.some.inj found).symm⟩))
        · cases found

theorem emptiedUnlinked : emptied.Unlinked := by
  intro place target found
  rcases emptiedNodes found with ⟨-, same⟩ | ⟨-, same⟩ | ⟨-, same⟩ | ⟨-, same⟩ <;> cases same

theorem emptiedSturdy : DirectoryStore.Sturdy emptied [0x72] [[0x72]] := by
  refine ⟨⟨?_, rfl⟩, emptiedUnlinked, fun place name found => ?_⟩
  · exact FileTree.walkToName rfl ⟨by decide, by decide⟩ (.inr (emptiedUnlinked _))
  · obtain ⟨node, found⟩ := Option.ne_none_iff_exists'.mp found
    rcases emptiedNodes found with ⟨same, -⟩ | ⟨same, -⟩ | ⟨same, -⟩ | ⟨same, -⟩
    · exact absurd same (by simp)
    · obtain ⟨rfl, -⟩ := List.append_inj' (show place ++ [name] = [] ++ [[0x72]] from same) rfl
      rfl
    · obtain ⟨rfl, -⟩ :=
        List.append_inj' (show place ++ [name] = [[0x72]] ++ [[0x30, 0x30]] from same) rfl
      rfl
    · obtain ⟨rfl, -⟩ :=
        List.append_inj' (show place ++ [name] = [[0x72], [0x30, 0x30]] ++
          [List.replicate 38 0x30] from same) rfl
      rfl

theorem emptiedLookup :
    emptied.lookup .target ((⟨[0x72], .standard⟩ : DirectoryStore).path zeroId) = .ok (.file []) := by
  have checked : FileTree.checkPath ((⟨[0x72], .standard⟩ : DirectoryStore).path zeroId) = .ok () := by
    decide
  have shard : emptied.node? ([[0x72]] ++ [DirectoryStore.shard zeroId]) = some .directory := by
    decide
  have leaf : emptied.node? (DirectoryStore.placeOf [[0x72]] zeroId) = some (.file []) := by
    decide
  rw [FileTree.lookup, emptiedSturdy.resolveArtifact, checked, shard]
  simp only [bind, Except.bind, leaf]
  rfl

theorem readOfEmptied :
    let state : State := ⟨.directory ⟨[0x72], .standard⟩, emptied⟩
    state.call (.get zeroId) = .ok (.failed (.mismatch zeroId (.compute .sha1 [])), state) ∧
      ∀ other ≠ zeroId, ∀ given after, state.run [.delete other] = .ok (given, after) →
        after.call (.get zeroId) = .ok (.failed (.mismatch zeroId (.compute .sha1 [])), after) := by
  intro state
  have stored : state.stored? zeroId = some [] := by
    simp only [state, State.stored?, emptiedLookup]
  obtain ⟨answer, read, truthful, undisturbed⟩ :=
    @readsTruthfulAndUndisturbed _ state zeroId rfl emptiedUnlinked fun envelope found => by
      rw [stored] at found
      cases found
      decide
  have other : ArtifactId.compute .sha1 [] ≠ zeroId := by decide +kernel
  have answered : answer = .failed (.mismatch zeroId (.compute .sha1 [])) := by
    rw [stored] at truthful
    cases truthful with
    | absent nothing => cases nothing
    | unreadable e nothing => cases nothing
    | content found unwraps named =>
      cases found
      have empty := Except.ok.inj unwraps
      rw [← empty] at named
      exact absurd named other
    | mismatch found unwraps other =>
      cases found
      cases Except.ok.inj unwraps
      rfl
    | corrupt found fails =>
      cases found
      cases fails
  subst answered
  refine ⟨read, fun other apart given after ran => ?_⟩
  exact undisturbed ⟨_, emptiedSturdy⟩ [.delete other] given after
    (fun call mem => by cases List.mem_singleton.mp mem; exact apart) ran

end ArtifactVault.Store
