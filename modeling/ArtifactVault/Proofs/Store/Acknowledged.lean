import ArtifactVault.Proofs.Store.Agreement
import ArtifactVault.Proofs.Store.Integrity
import ArtifactVault.Proofs.Store.Placement

/-! What a put that was acknowledged leaves to those who read. Where nothing was found before, it is
the content; where a file was found, it is what that file holds, and the put has not looked at it. -/
namespace ArtifactVault.DirectoryStore
open FileTree Store

section
variable {s : DirectoryStore} {t now : FileTree} {base : Place} {id : ArtifactId} {envelope : Bytes}

theorem containsFile (found : t.lookup .target (s.path id) = .ok (.file envelope)) :
    s.contains t id = true := by
  rw [DirectoryStore.contains, isFile, found]

theorem getFile (found : t.lookup .target (s.path id) = .ok (.file envelope))
    (fits : envelope.length + 1 < sizeCeiling) :
    s.get t id = .ok ((opened s.settings id envelope).map some) := by
  obtain ⟨b, opened, whole⟩ := @Transfer.readOpenedFile .empty envelope fits
  have read := @Transfer.readPathFollowed t .empty _ _ .follow .standard rfl found
  rw [opened] at read
  simp only [DirectoryStore.get, read, bind, Except.bind, unpackOpened, whole]
  rfl

theorem getCeiling (found : t.lookup .target (s.path id) = .ok (.file envelope))
    (filled : envelope ≠ []) (inside : envelope.length < sizeCeiling)
    (reaches : sizeCeiling ≤ envelope.length + 1) :
    s.get t id = .error (.ceiling .reserve (envelope.length + 1)) := by
  have read := @Transfer.readPathFollowed t .empty _ _ .follow .standard rfl found
  rw [Transfer.readOpenedCeiling filled inside reaches] at read
  simp only [DirectoryStore.get, read]
  rfl

theorem openedNamed {settings : StoreSettings} {content : Bytes}
    (unwraps : Envelope.unwrapBytes envelope = .ok content)
    (named : ArtifactId.compute id.algorithm content = id) :
    opened settings id envelope = .ok (Blob.held content) := by
  have verified : id.verifies content = true := decide_eq_true named
  simp only [opened, unwraps, verify, Blob.heldContent, verified, Bool.not_true, Bool.and_false]
  rfl

def readOf [Zlib.Encoder] (content : Bytes) : Except Abort (Except StoreError (Option Blob)) :=
  let length := (Envelope.envelopeOf [content]).length
  if length + 1 < sizeCeiling then .ok (.ok (some (Blob.held content)))
  else .error (.ceiling .reserve (length + 1))

theorem putStanding [Zlib.Encoder] {content : Blob} {node : Node} (fits : Fits content.content)
    (found : t.lookup .target (s.path (.compute s.settings.algorithm content.content)) = .ok node) :
    s.put t content = .ok (.ok (.compute s.settings.algorithm content.content), t) := by
  simp only [put, packEq fits, bind, Except.bind, if_pos (pathExistsFound found)]
  rfl

theorem getEnvelope [Zlib.Encoder] [Zlib.LawfulEncoder] {content : Bytes}
    (found : t.lookup .target (s.path id) = .ok (.file (Envelope.envelopeOf [content])))
    (named : ArtifactId.compute id.algorithm content = id) (fits : content.length + 1 < sizeCeiling)
    (inside : (Envelope.envelopeOf [content]).length < sizeCeiling) : s.get t id = readOf content := by
  have filled : Envelope.envelopeOf [content] ≠ [] := by
    rw [← List.length_pos_iff, Envelope.lengthEnvelopeOf]
    exact Nat.add_pos_left (by decide) _
  rw [readOf]
  by_cases room : (Envelope.envelopeOf [content]).length + 1 < sizeCeiling
  · simp only [if_pos room, getFile found room,
      openedNamed (Envelope.unwrapBytesOfSingle fits) named]
    rfl
  · simp only [if_neg room, getCeiling found filled inside (Nat.le_of_not_lt room)]

structure Acknowledged [Zlib.Encoder] (s : DirectoryStore) (t now : FileTree) (content : Bytes)
    (id : ArtifactId) : Prop where
  named : id = .compute s.settings.algorithm content
  stored : ∀ e, t.lookup .target (s.path id) = .error e → e ≠ .tooManyLinks →
    s.contains now id = true ∧ s.get now id = readOf content
  kept : ∀ envelope, t.lookup .target (s.path id) = .ok (.file envelope) →
    now = t ∧ s.contains now id = true ∧ (envelope.length + 1 < sizeCeiling →
      s.get now id = .ok ((opened s.settings id envelope).map some) ∧
      (Envelope.unwrapBytes envelope = .ok content →
        s.get now id = .ok (.ok (some (Blob.held content)))))

theorem putAcknowledged [Zlib.Encoder] [Zlib.LawfulEncoder] {content : Blob} (closed : t.Closed)
    (leads : Leads t s.root base) (fits : content.content.length + 1 < sizeCeiling)
    (done : s.put t content = .ok (.ok id, now)) : Acknowledged s t now content.content id := by
  obtain ⟨rfl, inside⟩ := putNamed done
  refine ⟨rfl, fun e nothing limit => ?_, fun envelope found => ?_⟩
  · have within := fun same => limit (Except.error.inj (nothing.symm.trans same))
    have stands := (putPlaces closed leads rfl within done).2.2.2 e _ nothing rfl
    exact ⟨containsFile stands, getEnvelope stands rfl fits inside⟩
  · have within : t.lookup .target (s.path (.compute s.settings.algorithm content.content)) ≠
        .error .tooManyLinks := by
      rw [found]
      intro same
      cases same
    have same := (putPlaces closed leads rfl within done).2.2.1 _ found
    subst same
    refine ⟨rfl, containsFile found, fun room => ⟨getFile found room, fun unwraps => ?_⟩⟩
    rw [getFile found room, openedNamed unwraps rfl]
    rfl

end

theorem letterRootClosed : letterRoot.Closed :=
  @Closed.insert _ [] .directory closedEmpty [0x72] rfl fun _ => rfl

theorem letterAcknowledged :
    let s : DirectoryStore := ⟨[0x72], .standard⟩
    ∃ id now, s.put letterRoot (Blob.held [0x61]) = .ok (.ok id, now) ∧
      Acknowledged s letterRoot now [0x61] id := by
  intro s
  have fits : Fits (Blob.held [0x61]).content := letterFits
  obtain ⟨now, done, -⟩ := (standsAtFirst letterRootVacant).put .standard letterRootVacant fits
  exact ⟨_, now, done, putAcknowledged letterRootClosed letterRootVacant.way (by decide) done⟩

def holding (first next envelope : Bytes) : FileTree :=
  (letterRoot.insert ([[0x72]] ++ [first]) .directory).insert ([[0x72]] ++ [first] ++ [next])
    (.file envelope)

section
variable (first next envelope : Bytes)

theorem holdingNode (place : Place) : (holding first next envelope).node? place =
    if place = [[0x72]] ++ [first] ++ [next] then some (.file envelope)
    else if place = [[0x72]] ++ [first] then some .directory
    else letterRoot.node? place := by
  have below : [[0x72]] ++ [first] ++ [next] ≠ [] ∧ [[0x72]] ++ [first] ≠ [] :=
    ⟨List.cons_ne_nil _ _, List.cons_ne_nil _ _⟩
  rw [holding, nodeInsert below.1, nodeInsert below.2]

theorem holdingStands : (holding first next envelope).Closed ∧
    Leads (holding first next envelope) [0x72] [[0x72]] := by
  have root : letterRoot.node? [[0x72]] = some .directory := rfl
  have fresh (names : Place) : letterRoot.node? ([[0x72]] ++ first :: names) = none :=
    letterRootVacant.nothing _ (belowCons _ _ _)
  have keeps : letterRoot.Keeps (letterRoot.insert ([[0x72]] ++ [first]) .directory) :=
    keepsInserted (fresh [])
  have inserted := @nodeInsert letterRoot ([[0x72]] ++ [first]) .directory (List.cons_ne_nil _ _)
  have free : (letterRoot.insert ([[0x72]] ++ [first]) .directory).node?
      ([[0x72]] ++ [first] ++ [next]) = none := by
    rw [inserted, if_neg (by simp)]
    exact fresh [next]
  have here : (letterRoot.insert ([[0x72]] ++ [first]) .directory).node? ([[0x72]] ++ [first]) =
      some .directory := by
    rw [inserted, if_pos rfl]
  refine ⟨(letterRootClosed.insert root fun _ => rfl).insert here fun directory => ?_, ?_⟩
  · rw [free] at directory
    cases directory
  · exact letterRootVacant.way.still (keeps.trans (keepsInserted free)).ways

end

theorem holdingFound (id : ArtifactId) (envelope : Bytes) (settings : StoreSettings) :
    (holding (shard id) (leaf id) envelope).lookup .target
      ((⟨[0x72], settings⟩ : DirectoryStore).path id) = .ok (.file envelope) := by
  have node := holdingNode (shard id) (leaf id) envelope
  have there : (holding (shard id) (leaf id) envelope).node? ([[0x72]] ++ [shard id]) =
      some .directory := by
    rw [node, if_neg (by simp), if_pos rfl]
  have leads := (holdingStands (shard id) (leaf id) envelope).2
  have inside : Leads (holding (shard id) (leaf id) envelope) (join [0x72] (shard id))
      ([[0x72]] ++ [shard id]) := by
    refine leadsOfResolve (leads.resolvePlain (shardName id) ?_ (.inr ?_)) there
    · exact letterRootVacant.checkShard id
    · rw [there]
      exact fun _ same => by cases same
  refine inside.lookupPlain (leafName id) ?_ (fun _ same => by cases same) ?_
  · exact letterRootVacant.checkIn (leafName id) (lengthLeafBounds id).2
  · rw [node, if_pos rfl]

theorem truncatedAcknowledged :
    let s : DirectoryStore := ⟨[0x72], ⟨.sha1, true⟩⟩
    let id := ArtifactId.compute .sha1 [0x61]
    let t := holding (shard id) (leaf id) [0, 0, 0, 1, 0x78]
    t.Closed ∧ Leads t s.root [[0x72]] ∧ [0x61].length + 1 < sizeCeiling ∧
      s.put t (Blob.held [0x61]) = .ok (.ok id, t) ∧
      s.get t id = .ok (.error (.corrupt id (.corrupt .truncated))) := by
  intro s id t
  obtain ⟨closed, leads⟩ := holdingStands (shard id) (leaf id) [0, 0, 0, 1, 0x78]
  have found : t.lookup .target (s.path id) = .ok (.file [0, 0, 0, 1, 0x78]) :=
    holdingFound id _ _
  have fits : Fits (Blob.held [0x61]).content := letterFits
  have cut : Envelope.unwrapBytes [0, 0, 0, 1, 0x78] = .error (.corrupt .truncated) := by decide
  refine ⟨closed, leads, by decide, putStanding fits found, ?_⟩
  rw [getFile found (by decide), opened, cut]
  rfl

end ArtifactVault.DirectoryStore
