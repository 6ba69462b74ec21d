import ArtifactVault.Proofs.Store.Steps

/-! What one turn can come to when calls on one store of files run at the same time: a call begins,
or the next step of one is taken and every other stays where it is. From this, what a turn keeps of an
artifact that nobody deletes. -/
namespace ArtifactVault.DirectoryStore
open FileTree Store

def Activity.call : Activity → Activity
  | .aborted cause => .aborted cause
  | .putting id envelope _ => .putting id envelope .looking
  | .getting id _ => .getting id .looking
  | .deleting id _ => .deleting id .removing

theorem actCall (s : DirectoryStore) (d : Disk) (activity : Activity) (event : Event) :
    (s.act d activity event).1.call = activity.call := by
  cases activity <;> cases event <;> rfl

theorem actEnded (s : DirectoryStore) (d : Disk) (id : ArtifactId) (envelope : Bytes)
    (outcome : Except StoreError ArtifactId) (event : Event) :
    (s.act d (.putting id envelope (.ended outcome)) event).1 =
      .putting id envelope (.ended outcome) := by
  cases event <;> rfl

theorem begunCall [Zlib.Encoder] (s : DirectoryStore) (job : Job) :
    (s.begun job).call = s.begun job := by
  cases job with
  | put content =>
    simp only [begun]
    split
    · rfl
    · rfl
  | get id => rfl
  | delete id => rfl

theorem begunDelete [Zlib.Encoder] {s : DirectoryStore} {job : Job} {id : ArtifactId}
    (begins : s.begun job = .deleting id .removing) : job = .delete id := by
  cases job with
  | put content =>
    simp only [begun] at begins
    split at begins
    · cases begins
    · cases begins
  | get other => cases begins
  | delete other =>
    cases begins
    rfl

theorem foundAfterStart {calls : List Activity} {fresh activity : Activity} {k : Nat}
    (found : (calls ++ [fresh])[k]? = some activity) :
    calls[k]? = some activity ∨ k = calls.length ∧ activity = fresh := by
  rw [List.getElem?_append] at found
  split at found
  · exact .inl found
  · rw [List.getElem?_singleton] at found
    split at found
    · exact .inr ⟨by omega, (Option.some.inj found).symm⟩
    · cases found

section
variable [Zlib.Encoder]

inductive Deed (g : Ground) (d now : Disk) (event : Event) : Activity → Activity → Prop where
  | put {id envelope stage after} (effect : Effect g d now id stage after) :
      Deed g d now event (.putting id envelope stage) (.putting id envelope after)
  | get {id stage after} (same : now = d) (calm : patience after ≤ patience stage)
      (nearer : ∀ choice, event = .proceeds choice → patience after ≤ patience stage - 1)
      (found : Present g d id → stage ≠ .ended (.ok (.ok none)) → after ≠ .ended (.ok (.ok none))) :
      Deed g d now event (.getting id stage) (.getting id after)
  | delete {id stage after} (others : ∀ other ≠ id, Untouched g d now other) :
      Deed g d now event (.deleting id stage) (.deleting id after)

structure Taken (g : Ground) (d now : Disk) (role later : Roles) (k : Nat) (event : Event)
    (activity after : Activity) : Prop where
  settled : Settled g now later
  leaves : Leaves g k d now role later
  sound : SoundCall g now later k after
  deed : Deed g d now event activity after

theorem actTaken [Zlib.LawfulEncoder] {g : Ground} {d : Disk} {role : Roles} {k : Nat}
    {activity : Activity} (settled : Settled g d role) (sound : SoundCall g d role k activity)
    (event : Event) :
    ∃ later, Taken g d (g.store.act d activity event).2 role later k event activity
      (g.store.act d activity event).1 := by
  cases activity with
  | aborted cause => exact sound.elim
  | putting id envelope stage =>
    obtain ⟨content, known, named, rfl, sound⟩ := sound
    obtain ⟨later, taken⟩ := putTaken settled known named sound event
    exact ⟨later, taken.settled, taken.leaves, ⟨content, known, named, rfl, taken.sound⟩,
      .put taken.effect⟩
  | getting id stage =>
    cases event with
    | proceeds choice =>
      have taken := getTaken settled sound choice
      exact ⟨role, settled, .refl, taken.sound, .get rfl
        (Nat.le_trans taken.nearer (Nat.sub_le _ _)) (fun _ _ => taken.nearer) taken.found⟩
    | fails e =>
      exact ⟨role, settled, .refl, sound, .get rfl (Nat.le_refl _) nofun fun _ other => other⟩
  | deleting id stage =>
    cases event with
    | proceeds choice =>
      have taken := deleteTaken settled k id stage
      exact ⟨role, taken.settled, taken.leaves, trivial, .delete taken.others⟩
    | fails e => exact ⟨role, settled, .refl, trivial, .delete fun _ _ => rfl⟩

structure SoundScene (g : Ground) (scene : Scene) (role : Roles) : Prop where
  settled : Settled g scene.disk role
  calls : ∀ k activity, scene.activities[k]? = some activity →
    SoundCall g scene.disk role k activity

structure Moves (g : Ground) (scene now : Scene) (role later : Roles) (k : Nat) (event : Event)
    (activity after : Activity) : Prop where
  there : scene.activities[k]? = some activity
  here : now.activities[k]? = some after
  others : ∀ j ≠ k, now.activities[j]? = scene.activities[j]?
  taken : Taken g scene.disk now.disk role later k event activity after
  call : after.call = activity.call
  ended : ∀ id envelope outcome, activity = .putting id envelope (.ended outcome) → after = activity

inductive Turned (g : Ground) (scene now : Scene) (role : Roles) : Turn → Prop where
  | start {job} (disk : now.disk = scene.disk)
      (calls : now.activities = scene.activities ++ [g.store.begun job])
      (sound : ∀ k, SoundCall g scene.disk role k (g.store.begun job)) :
      Turned g scene now role (.start job)
  | act {k event later activity after}
      (moves : Moves g scene now role later k event activity after) :
      Turned g scene now role (.act k event)
  | nobody {k event} (missing : scene.activities[k]? = none) (same : now = scene) :
      Turned g scene now role (.act k event)

def Admits (g : Ground) (t : Turn) : Prop :=
  ∀ content, t = .start (.put content) → g.known content.content

theorem begunSound {g : Ground} {d : Disk} {role : Roles} {job : Job}
    (admits : Admits g (.start job)) (k : Nat) : SoundCall g d role k (g.store.begun job) := by
  cases job with
  | put content =>
    have known := admits content rfl
    have packed : pack g.store.settings content = _ := packEq (g.fits _ known) g.store.settings
    rw [begun, packed]
    exact ⟨content.content, known, rfl, Blob.heldContent _, trivial⟩
  | get id => trivial
  | delete id => trivial

theorem turned [Zlib.LawfulEncoder] {g : Ground} {scene : Scene} {role : Roles} {t : Turn}
    (sound : SoundScene g scene role) (admits : Admits g t) :
    Turned g scene (g.store.turn scene t) role t := by
  cases t with
  | start job => exact .start rfl rfl (begunSound admits)
  | act k event =>
    cases there : scene.activities[k]? with
    | none =>
      refine .nobody there ?_
      simp only [turn, there]
    | some activity =>
      obtain ⟨later, taken⟩ := actTaken sound.settled (sound.calls k activity there) event
      have turned : g.store.turn scene (.act k event) =
          ⟨(g.store.act scene.disk activity event).2,
            scene.activities.set k (g.store.act scene.disk activity event).1⟩ := by
        simp only [turn, there]
      have inside := (List.getElem?_eq_some_iff.mp there).1
      rw [turned]
      refine .act
        ⟨there, List.getElem?_set_self inside, fun j apart => ?_, taken, actCall _ _ _ _, ?_⟩
      · exact List.getElem?_set_ne apart.symm
      · rintro id envelope outcome rfl
        exact actEnded _ _ _ _ _ _

section
variable {g : Ground} {scene now : Scene} {role : Roles} {t : Turn} {id : ArtifactId} {k : Nat}
  {activity : Activity}

theorem Turned.sound (turned : Turned g scene now role t) (sound : SoundScene g scene role) :
    ∃ later, SoundScene g now later := by
  cases turned with
  | start disk calls fresh =>
    refine ⟨role, disk ▸ sound.settled, fun k activity found => ?_⟩
    rw [calls] at found
    rw [disk]
    rcases foundAfterStart found with old | ⟨-, rfl⟩
    · exact sound.calls k activity old
    · exact fresh k
  | @act k event later activity after moves =>
    refine ⟨later, moves.taken.settled, fun j other found => ?_⟩
    by_cases same : j = k
    · subst same
      rw [moves.here] at found
      cases found
      exact moves.taken.sound
    · rw [moves.others j same] at found
      exact (sound.calls j other found).left moves.taken.leaves same
  | nobody missing same => exact ⟨role, same ▸ sound⟩

theorem Turned.stays (turned : Turned g scene now role t)
    (there : scene.activities[k]? = some activity) :
    ∃ after, now.activities[k]? = some after ∧ after.call = activity.call := by
  cases turned with
  | start disk calls fresh =>
    refine ⟨activity, ?_, rfl⟩
    rw [calls, List.getElem?_append_left (List.getElem?_eq_some_iff.mp there).1, there]
  | @act j event later other after moves =>
    by_cases same : k = j
    · subst same
      have which := Option.some.inj (there.symm.trans moves.there)
      exact ⟨after, moves.here, which ▸ moves.call⟩
    · exact ⟨activity, (moves.others k same).trans there, rfl⟩
  | nobody missing same => exact ⟨activity, same ▸ there, rfl⟩

theorem Turned.ended (turned : Turned g scene now role t) {envelope : Bytes}
    {outcome : Except StoreError ArtifactId}
    (there : scene.activities[k]? = some (.putting id envelope (.ended outcome))) :
    now.activities[k]? = some (.putting id envelope (.ended outcome)) := by
  cases turned with
  | start disk calls fresh =>
    rw [calls, List.getElem?_append_left (List.getElem?_eq_some_iff.mp there).1, there]
  | @act j event later other after moves =>
    by_cases same : k = j
    · subst same
      have which := Option.some.inj (there.symm.trans moves.there)
      rw [moves.here, moves.ended _ _ _ which.symm, which]
    · exact (moves.others k same).trans there
  | nobody missing same => exact same ▸ there

def Undeleted (id : ArtifactId) (scene : Scene) : Prop :=
  ∀ (k : Nat) activity, scene.activities[k]? = some activity →
    activity.call ≠ .deleting id .removing

theorem Turned.undeleted (turned : Turned g scene now role t) (other : t ≠ .start (.delete id))
    (undeleted : Undeleted id scene) : Undeleted id now := by
  intro k activity found call
  cases turned with
  | @start job disk calls fresh =>
    rw [calls] at found
    rcases foundAfterStart found with old | ⟨-, rfl⟩
    · exact undeleted k activity old call
    · rw [begunCall] at call
      exact other (congrArg Turn.start (begunDelete call))
  | @act j event later was after moves =>
    by_cases same : k = j
    · subst same
      rw [moves.here] at found
      cases found
      exact undeleted k was moves.there (moves.call.symm.trans call)
    · exact undeleted k activity ((moves.others k same).symm.trans found) call
  | nobody missing same => exact undeleted k activity (same ▸ found) call

theorem Turned.present (turned : Turned g scene now role t) (undeleted : Undeleted id scene)
    (present : Present g scene.disk id) : Present g now.disk id := by
  have stays (keeps : Untouched g scene.disk now.disk id) : Present g now.disk id := by
    rw [Present, keeps]
    exact present
  cases turned with
  | start disk calls fresh => exact disk ▸ present
  | nobody missing same => exact same ▸ present
  | act moves =>
    cases moves.taken.deed with
    | @put other envelope stage after effect =>
      cases effect with
      | nothing same ends => exact stays (same id)
      | installed ended there others =>
        by_cases here : id = other
        · exact here ▸ there
        · exact stays (others id here)
    | get same => exact same ▸ present
    | @delete other stage after others =>
      refine stays (others id ?_)
      rintro rfl
      exact undeleted _ _ moves.there rfl

end

end

end ArtifactVault.DirectoryStore
