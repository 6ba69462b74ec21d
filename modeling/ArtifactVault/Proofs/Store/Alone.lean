import ArtifactVault.Proofs.Envelope
import ArtifactVault.Proofs.FileTree.Disk
import ArtifactVault.Proofs.Store.Shards
import ArtifactVault.Proofs.Transfer
import ArtifactVault.Store.Interleaving

/-! A call whose steps no other call comes between. On what one sees of the disk it does what the
call does as a whole, with the same answer. -/
namespace ArtifactVault.DirectoryStore
open FileTree

def alone (s : DirectoryStore) (d : Disk) (activity : Activity) (events : List Event) :
    Activity × Disk :=
  events.foldl (fun state event => s.act state.2 state.1 event) (activity, d)

def Reaches (s : DirectoryStore) (d : Disk) (activity : Activity) (now : Disk) (after : Activity) :
    Prop := ∃ events, s.alone d activity events = (after, now)

section
variable {s : DirectoryStore} {d now : Disk} {activity after : Activity} {id : ArtifactId}

theorem Reaches.here : Reaches s d activity d activity := ⟨[], rfl⟩

theorem Reaches.step (event : Event)
    (reaches : Reaches s (s.act d activity event).2 (s.act d activity event).1 now after) :
    Reaches s d activity now after := by
  obtain ⟨events, reached⟩ := reaches
  exact ⟨event :: events, reached⟩

theorem Reaches.trans {middle : Disk} {between : Activity}
    (first : Reaches s d activity middle between) (second : Reaches s middle between now after) :
    Reaches s d activity now after := by
  obtain ⟨events, reached⟩ := first
  obtain ⟨others, ended⟩ := second
  have split : s.alone d activity (events ++ others) =
      s.alone (s.alone d activity events).2 (s.alone d activity events).1 others :=
    List.foldl_append
  refine ⟨events ++ others, ?_⟩
  rw [split, reached]
  exact ended

theorem turnsAlone [Zlib.Encoder] (calls : List Activity) (events : List Event) :
    (events.map (.act calls.length)).foldl s.turn ⟨d, calls ++ [activity]⟩ =
      ⟨(s.alone d activity events).2, calls ++ [(s.alone d activity events).1]⟩ := by
  induction events generalizing d activity with
  | nil => rfl
  | cons event events ih =>
    have turned : s.turn ⟨d, calls ++ [activity]⟩ (.act calls.length event) =
        ⟨(s.act d activity event).2, calls ++ [(s.act d activity event).1]⟩ := by
      simp only [turn, List.getElem?_concat_length, List.set_append_right _ _ (Nat.le_refl _),
        Nat.sub_self, List.set_cons_zero]
    rw [List.map_cons, List.foldl_cons, turned, ih]
    rfl

theorem Reaches.run [Zlib.Encoder] {job : Job} (reaches : Reaches s d (s.begun job) now after)
    (calls : List Activity) :
    ∃ events : List Event, (.start job :: events.map (.act calls.length)).foldl s.turn ⟨d, calls⟩ =
      ⟨now, calls ++ [after]⟩ := by
  obtain ⟨events, reached⟩ := reaches
  refine ⟨events, ?_⟩
  rw [List.foldl_cons, turn, turnsAlone, reached]

def collected (read : Except Abort (Except SystemError Nat × Blob × Source)) :
    Except Abort (Except TransferError Nat × Blob) := do
  let (outcome, b, _) ← read
  return (Transfer.liftError outcome, b)

end

end ArtifactVault.DirectoryStore
