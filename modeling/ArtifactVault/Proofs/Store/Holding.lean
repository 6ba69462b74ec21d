import ArtifactVault.Proofs.Store.Acknowledged

/-! An artifact that a store has. It is read under any settings, and no put takes it away. -/
namespace ArtifactVault.DirectoryStore
open FileTree Store

def Envelops (content envelope : Bytes) : Prop :=
  envelope.length + 1 < sizeCeiling ∧ Envelope.unwrapBytes envelope = .ok content

def Keeping (t : FileTree) (root : Bytes) (id : ArtifactId) (content : Bytes) : Prop :=
  ∃ envelope, t.lookup .target (path ⟨root, .standard⟩ id) = .ok (.file envelope) ∧
    Envelops content envelope

structure Holds (t : FileTree) (root : Bytes) (id : ArtifactId) (content : Bytes) : Prop where
  closed : t.Closed
  directory : t.isDirectory root = true
  named : ArtifactId.compute id.algorithm content = id
  keeping : Keeping t root id content

section
variable {t now : FileTree} {root content : Bytes} {id : ArtifactId} {settings : StoreSettings}

theorem Holds.prepare (holds : Holds t root id content) : prepare t root = (.ok (), t) := by
  rw [DirectoryStore.prepare, makeDirectoriesStanding holds.directory]

theorem Holds.get (holds : Holds t root id content) (settings : StoreSettings) :
    (⟨root, settings⟩ : DirectoryStore).get t id = .ok (.ok (some (Blob.held content))) := by
  obtain ⟨envelope, found, room, unwraps⟩ := holds.keeping
  have there : t.lookup .target (path ⟨root, settings⟩ id) = .ok (.file envelope) := found
  rw [getFile there room, openedNamed unwraps holds.named]
  rfl

theorem preparedDone (closed : t.Closed) (filled : root ≠ [])
    (prepared : prepare t root = (.ok (), now)) : now.Closed ∧ now.isDirectory root = true := by
  rw [prepare] at prepared
  cases made : t.makeDirectories root with
  | mk outcome later =>
    rw [made] at prepared
    cases outcome with
    | error e => cases prepared
    | ok _ =>
      cases prepared
      obtain ⟨closed, there⟩ := makeDirectoriesDone closed made
      exact ⟨closed, there rfl filled⟩

theorem Finds.isDirectory {path : Bytes} (finds : Finds t now) (there : t.isDirectory path = true) :
    now.isDirectory path = true := by
  obtain ⟨checked, base, leads⟩ := isDirectoryIff.mp there
  have found : t.lookup .target path = .ok .directory :=
    lookupIff.mpr ⟨base, resolveIff.mpr ⟨checked, leads.walks⟩, leads.directory⟩
  rw [FileTree.isDirectory, finds path .directory (fun _ same => by cases same) found]

variable [Zlib.Encoder]

theorem Holds.put (holds : Holds t root id content) {other : Blob}
    {outcome : Except StoreError ArtifactId}
    (reaches : ∀ id, t.lookup .target (path ⟨root, .standard⟩ id) ≠ .error .tooManyLinks)
    (done : (⟨root, settings⟩ : DirectoryStore).put t other = .ok (outcome, now)) :
    Holds now root id content := by
  obtain ⟨-, base, leads⟩ := isDirectoryIff.mp holds.directory
  obtain ⟨envelope, found, envelops⟩ := holds.keeping
  obtain ⟨closed, finds, -⟩ := @putPlaces t now base _ _ ⟨root, settings⟩ other outcome
    holds.closed leads rfl (reaches _) done
  exact ⟨closed, finds.isDirectory holds.directory, holds.named, envelope,
    finds _ _ (fun _ same => by cases same) found, envelops⟩

theorem putHolds [Zlib.LawfulEncoder] {content : Blob} (closed : t.Closed)
    (directory : t.isDirectory root = true) (fits : Fits content.content)
    (named : id = .compute settings.algorithm content.content)
    (intact : ∀ node, t.lookup .target (path ⟨root, settings⟩ id) = .ok node →
      Keeping t root id content.content)
    (reaches : t.lookup .target (path ⟨root, settings⟩ id) ≠ .error .tooManyLinks)
    (installs : ∀ e, t.lookup .target (path ⟨root, settings⟩ id) = .error e →
      (install t (shardPath ⟨root, settings⟩ id) (path ⟨root, settings⟩ id)
        (Envelope.envelopeOf [content.content])).1 = .ok ()) :
    ∃ now, (⟨root, settings⟩ : DirectoryStore).put t content = .ok (.ok id, now) ∧
      Holds now root id content.content := by
  subst named
  obtain ⟨-, base, leads⟩ := isDirectoryIff.mp directory
  cases found : t.lookup .target (path ⟨root, settings⟩
      (.compute settings.algorithm content.content)) with
  | ok node => exact ⟨t, putStanding fits found, closed, directory, rfl, intact node found⟩
  | error e =>
    cases filed : install t _ _ (Envelope.envelopeOf [content.content]) with
    | mk outcome now =>
      have fine := installs e found
      rw [filed] at fine
      simp only at fine
      subst fine
      have done : (⟨root, settings⟩ : DirectoryStore).put t content =
          .ok (.ok (.compute settings.algorithm content.content), now) := by
        simp only [DirectoryStore.put, packEq fits, bind, Except.bind, pathExistsFailed found,
          Blob.heldContent, filed]
        rfl
      obtain ⟨closed, finds, -, stands⟩ := putPlaces closed leads rfl reaches done
      exact ⟨now, done, closed, finds.isDirectory directory, rfl, _, stands e _ found rfl,
        fits.wrapped, Envelope.unwrapBytesOfSingle fits.inside⟩

end

end ArtifactVault.DirectoryStore
