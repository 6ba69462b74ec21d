import ArtifactVault.Proofs.Store.Roles

/-! What one step of a call does. A step keeps the inodes in order, leaves the others what they work
with, and is sound where its call now stands; artifacts come by the last step of a put that succeeds,
and go by a delete. -/
namespace ArtifactVault.DirectoryStore
open FileTree Store

section
variable [Zlib.Encoder]

def Untouched (g : Ground) (d now : Disk) (id : ArtifactId) : Prop :=
  now.names.node? (placeOf g.base id) = d.names.node? (placeOf g.base id)

def Present (g : Ground) (d : Disk) (id : ArtifactId) : Prop :=
  d.names.node? (placeOf g.base id) ≠ none

inductive Effect (g : Ground) (d now : Disk) (id : ArtifactId) (stage after : PutStage) : Prop where
  | nothing (same : ∀ other, Untouched g d now other)
      (ends : ∀ named, after = .ended (.ok named) → stage = after ∨ Present g d id)
  | installed (ended : after = .ended (.ok id)) (there : Present g now id)
      (others : ∀ other ≠ id, Untouched g d now other)

structure PutTaken (g : Ground) (d now : Disk) (role later : Roles) (k : Nat) (id : ArtifactId)
    (content : Bytes) (stage after : PutStage) : Prop where
  settled : Settled g now later
  leaves : Leaves g k d now role later
  sound : SoundPut g now later k id content after
  effect : Effect g d now id stage after

section
variable {g : Ground} {d : Disk} {role : Roles} {k n : Nat} {id : ArtifactId} {content : Bytes}
  {stage after : PutStage} {temporary : Bytes} {inode : Inode} {left : Bytes} {e : SystemError}
  (settled : Settled g d role)

include settled

theorem putWaits (sound : SoundPut g d role k id content after)
    (ends : ∀ named, after = .ended (.ok named) → stage = after ∨ Present g d id) :
    ∃ later, PutTaken g d d role later k id content stage after :=
  ⟨role, settled, .refl, sound, .nothing (fun _ => rfl) ends⟩

theorem putFails (e : SystemError) :
    ∃ later, PutTaken g d d role later k id content stage (.failed e) :=
  putWaits settled nofun nofun

theorem putLooks (settings : StoreSettings) : ∃ later, PutTaken g d d role later k id content stage
    (if d.names.pathExists ((⟨g.root, settings⟩ : DirectoryStore).path id) then .ended (.ok id)
      else .making) := by
  rw [settled.housed.pathExists g.vacant]
  cases there : d.names.node? (placeOf g.base id) with
  | none => exact putWaits settled trivial nofun
  | some node =>
    refine putWaits settled (fun other same => (Except.ok.inj same).symm) fun _ _ => .inr ?_
    rw [Present, there]
    exact nofun

theorem putMakes : ∃ later now, d.makeDirectories (g.store.shardPath id) = (.ok (), now) ∧
    PutTaken g d now role later k id content stage .creating := by
  obtain ⟨names, made, changed⟩ := settled.housed.shardMade g.vacant id
  have shardAt (first second : Bytes) : g.base ++ [first, second] ≠ g.base ++ [shard id] :=
    fun same => nomatch (List.cons.inj (List.append_cancel_left same)).2
  have kept (first second : Bytes) :
      names.node? (g.base ++ [first, second]) = d.names.node? (g.base ++ [first, second]) := by
    rw [changed, if_neg (shardAt first second)]
  have same (other : ArtifactId) : Untouched g d { d with names } other := kept _ _
  refine ⟨role, { d with names }, ?_, ?_, ⟨fun name there => ?_, fun _ _ kept => kept,
    fun _ _ _ own => ⟨own, rfl⟩, fun _ _ _ _ _ _ file => ?_⟩, ?_, .nothing same nofun⟩
  · rw [Disk.makeDirectories, Ground.store, shardPathEq, made]
  · exact settled.named rfl (settled.housed.addShard changed) fun id => .inl (same id)
  · rw [changed, there]
    exact ite_self _
  · exact (kept _ _).trans file
  · exact (changed _).trans (if_pos rfl)

theorem putCreates (there : d.names.node? (g.base ++ [shard id]) = some .directory) (n : Nat) :
    (∃ e, d.createNew (temporaryPath g id n) = .error e) ∨
      ∃ later now inode, d.createNew (temporaryPath g id n) = .ok (inode, now) ∧
        PutTaken g d now role later k id content .creating
          (.writing (temporaryPath g id n) inode (Envelope.envelopeOf [content])) := by
  rcases settled.housed.createNew g.vacant there n with ⟨e, failed⟩ | ⟨usable, free, created⟩
  · exact .inl ⟨e, failed⟩
  · have below := belowNotTop (sourceBelow g.base id n)
    have node := @Disk.nodeMade d _ below
    have apart {inode : Inode} {own : Role} (owned : role inode = some own) : inode ≠ d.unused := by
      rintro rfl
      rw [settled.unusedFree] at owned
      cases owned
    have kept {place : Place} {was : Node} (found : d.names.node? place = some was) :
        (d.made (sourceOf g.base id n)).names.node? place = some was := by
      rw [node, if_neg, found]
      rintro rfl
      rw [free] at found
      cases found
    refine .inr ⟨role.assign d.unused (.written k), _, _, created, settled.created there,
      ⟨fun name there => kept there, fun inode _ own => (if_neg (apart own)).trans own,
        fun j _ inode own => ⟨(if_neg (apart own)).trans own, ?_⟩,
        fun j _ inode other m own file => kept file⟩, ?_, .nothing (fun other => ?_) nofun⟩
    · rw [Disk.bytesMade, if_neg (apart own)]
    · refine ⟨⟨n, rfl, usable, (node _).trans (if_pos rfl), if_pos rfl⟩, ?_⟩
      rw [Disk.bytesMade, if_pos rfl, List.nil_append]
    · exact (node _).trans (if_neg (sourceNoPlace g.base id n other).symm)

theorem putWrites (sound : SoundPut g d role k id content (.writing temporary inode left))
    (n : Nat) :
    PutTaken g d (d.append inode (left.take n)) role role k id content
      (.writing temporary inode left) (.writing temporary inode (left.drop n)) := by
  obtain ⟨⟨m, rfl, own⟩, whole⟩ := sound
  refine ⟨settled.appended own.own _, ⟨fun _ there => there, fun _ _ kept => kept,
    fun j apart other owned => ⟨owned, ?_⟩, fun _ _ _ _ _ _ file => file⟩, ?_,
    .nothing (fun _ => rfl) nofun⟩
  · rw [Disk.bytesAppend, if_neg]
    rintro rfl
    rw [own.own] at owned
    cases owned
    exact apart rfl
  · refine ⟨⟨m, rfl, own.usable, own.file, own.own⟩, ?_⟩
    rw [Disk.bytesAppend, if_pos rfl, List.append_assoc, List.take_append_drop, whole]

theorem putMoves (known : g.known content) (named : id = g.name content)
    (sound : SoundPut g d role k id content (.writing temporary inode [])) :
    ∃ later now, d.rename temporary (g.store.path id) = .ok now ∧
      PutTaken g d now role later k id content (.writing temporary inode []) (.ended (.ok id)) := by
  obtain ⟨⟨n, rfl, own⟩, whole⟩ := sound
  rw [List.append_nil] at whole
  obtain ⟨names, moved, changed⟩ :=
    @Housed.moveIn _ _ _ _ g.settings _ _ settled.housed g.vacant own.usable _ own.file
  have others {place : Place} (elsewhere : place ≠ placeOf g.base id)
      (away : place ≠ sourceOf g.base id n) : names.node? place = d.names.node? place := by
    rw [changed, if_neg elsewhere, if_neg away]
  have apart {other : Inode} {was : Role} (owned : role other = some was)
      (differs : was ≠ .written k) : other ≠ inode := by
    rintro rfl
    rw [own.own] at owned
    exact differs (Option.some.inj owned).symm
  refine ⟨role.assign inode (.kept content), { d with names }, ?_,
    settled.installed own known named whole changed,
    ⟨fun name there => ?_, fun other _ owned => (if_neg (apart owned nofun)).trans owned,
      fun j other i owned => ⟨(if_neg (apart owned ?_)).trans owned, rfl⟩, ?_⟩, ?_,
    .installed rfl ?_ fun other differs => ?_⟩
  · rw [Disk.rename, temporaryPath, Ground.store, shardPathEq, moved]
    rfl
  · exact (others (shardNotPlace _ _ _) (shardNoSource _ _ _ _)).trans there
  · rintro ⟨⟩
    exact other rfl
  · intro j differs i other m owned file
    refine (others (sourceNoPlace _ _ _ _) fun same => ?_).trans file
    rw [same, own.file] at file
    cases file
    exact apart owned (fun same => differs (by cases same; rfl)) rfl
  · exact fun other same => (Except.ok.inj same).symm
  · rw [Present, changed, if_pos rfl]
    exact Option.some_ne_none _
  · exact others (fun same => differs (placeInjective same)) (sourceNoPlace _ _ _ _).symm

theorem putDrops (sound : SoundPut g d role k id content (.dropping temporary e)) :
    ∃ later now, d.removeFile temporary = .ok now ∧
      PutTaken g d now role later k id content (.dropping temporary e) (.failed e) := by
  obtain ⟨n, inode, rfl, own⟩ := sound
  have below := belowNotTop (sourceBelow g.base id n)
  have dropped := settled.housed.dropTemporary g.vacant own.usable own.file
  have there := (settled.housed.files _ _ _ own.file).1
  have others {place : Place} (away : place ≠ sourceOf g.base id n) :
      (d.names.erase (sourceOf g.base id n)).node? place = d.names.node? place := by
    rw [nodeErase below, if_neg away]
  have same (other : ArtifactId) := others (sourceNoPlace g.base id n other).symm
  refine ⟨role, { d with names := d.names.erase (sourceOf g.base id n) }, ?_,
    settled.named rfl ?_ fun id => .inl (same id),
    ⟨fun name there => ?_, fun _ _ kept => kept, fun _ _ _ owned => ⟨owned, rfl⟩, ?_⟩, nofun,
    .nothing same nofun⟩
  · rw [Disk.removeFile, temporaryPath, Ground.store, shardPathEq, dropped]
    rfl
  · refine settled.housed.refile fun place => ?_
    by_cases away : place = sourceOf g.base id n
    · refine .inr ⟨_, _, away, there, fun node found => ?_⟩
      rw [nodeErase below, if_pos away] at found
      cases found
    · exact .inl (others away)
  · exact (others (shardNoSource _ _ _ _)).trans there
  · intro j differs i other m owned file
    refine (others fun same => ?_).trans file
    rw [same, own.file] at file
    cases file
    rw [own.own] at owned
    cases owned
    exact differs rfl

theorem putTaken (known : g.known content) (named : id = g.name content)
    (sound : SoundPut g d role k id content stage) (event : Event) :
    ∃ later, PutTaken g d
      (g.store.putStep d id (Envelope.envelopeOf [content]) stage event).2 role later k id content
      stage (g.store.putStep d id (Envelope.envelopeOf [content]) stage event).1 := by
  cases stage with
  | looking =>
    cases event with
    | proceeds n => exact putLooks settled g.settings
    | fails e => exact putWaits settled trivial nofun
  | making =>
    cases event with
    | proceeds n =>
      obtain ⟨later, now, made, taken⟩ := @putMakes _ g d role k id content .making settled
      simp only [putStep, made]
      exact ⟨later, taken⟩
    | fails e => exact putFails settled e
  | creating =>
    have again := @putWaits _ g d role k id content .creating .creating settled sound nofun
    cases event with
    | proceeds n =>
      simp only [putStep]
      rcases @putCreates _ g d role k id content settled sound n with
        ⟨e, failed⟩ | ⟨later, now, inode, created, taken⟩
      · rw [temporaryPath] at failed
        simp only [failed]
        split
        · exact again
        · exact putFails settled e
      · rw [temporaryPath] at created
        simp only [created]
        exact ⟨later, taken⟩
    | fails e =>
      simp only [putStep]
      split
      · exact again
      · exact putFails settled e
  | writing temporary inode left =>
    have dropping (e : SystemError) : ∃ later, PutTaken g d d role later k id content
        (.writing temporary inode left) (.dropping temporary e) := by
      obtain ⟨⟨n, same, own⟩, -⟩ := sound
      exact putWaits settled ⟨n, inode, same, own⟩ nofun
    cases event with
    | proceeds n =>
      cases left with
      | nil =>
        obtain ⟨later, now, moved, taken⟩ := putMoves settled known named sound
        simp only [putStep, moved]
        exact ⟨later, taken⟩
      | cons byte left =>
        simp only [putStep]
        split
        · exact dropping .writeZero
        · exact ⟨role, putWrites settled sound n⟩
    | fails e =>
      have stays : (g.store.putStep d id (Envelope.envelopeOf [content])
          (.writing temporary inode left) (.fails e)) =
            (if e = .interrupted ∧ left ≠ [] then .writing temporary inode left
              else .dropping temporary e, d) := by
        cases left <;> rfl
      rw [stays]
      split
      · exact putWaits settled sound nofun
      · exact dropping e
  | dropping temporary e =>
    cases event with
    | proceeds n =>
      obtain ⟨later, now, dropped, taken⟩ := putDrops settled sound
      simp only [putStep, dropped]
      exact ⟨later, taken⟩
    | fails other => exact putFails settled e
  | ended outcome =>
    have stays : g.store.putStep d id (Envelope.envelopeOf [content]) (.ended outcome) event =
        (.ended outcome, d) := by
      cases event <;> rfl
    rw [stays]
    exact putWaits settled sound fun _ _ => .inl rfl

end

def patience : GetStage → Nat
  | .looking => sizeCeiling + 2
  | .opening => sizeCeiling + 1
  | .sizing _ => sizeCeiling
  | .reading _ offset _ => sizeCeiling - 1 - offset
  | .ended _ => 0

structure GetTaken (g : Ground) (d : Disk) (role : Roles) (id : ArtifactId)
    (stage after : GetStage) :
    Prop where
  sound : SoundGet g role id after
  nearer : patience after ≤ patience stage - 1
  found : Present g d id → stage ≠ .ended (.ok (.ok none)) → after ≠ .ended (.ok (.ok none))

section
variable {g : Ground} {d : Disk} {role : Roles} {id : ArtifactId} {content : Bytes}

theorem getLooks (settled : Settled g d role) (choice : Nat) :
    GetTaken g d role id .looking (g.store.getStep d id choice .looking) := by
  have looked : d.names.lookup .itself (g.store.path id) = _ :=
    settled.housed.lookup g.vacant id .itself
  simp only [getStep, looked]
  cases there : d.names.node? (placeOf g.base id) with
  | none => exact ⟨.nothing, Nat.zero_le _, fun present => absurd there present⟩
  | some node => exact ⟨trivial, Nat.le_refl _, fun _ _ => nofun⟩

theorem getOpens (settled : Settled g d role) (choice : Nat) :
    GetTaken g d role id .opening (g.store.getStep d id choice .opening) := by
  have looked : d.names.lookup .target (g.store.path id) = _ :=
    settled.housed.lookup g.vacant id .target
  simp only [getStep, looked]
  cases there : d.names.node? (placeOf g.base id) with
  | none => exact ⟨.nothing, Nat.zero_le _, fun present => absurd there present⟩
  | some node =>
    obtain ⟨-, inode, rfl⟩ := settled.housed.files _ _ _ there
    obtain ⟨content, kept, named⟩ := settled.artifacts id inode there
    exact ⟨⟨content, ⟨inode, rfl, kept⟩, named⟩, Nat.le_refl _, fun _ _ => nofun⟩

theorem getSizes (settled : Settled g d role) {handle : Node}
    (opened : Opened g role id handle content) (choice : Nat) :
    GetTaken g d role id (.sizing handle) (g.store.getStep d id choice (.sizing handle)) := by
  obtain ⟨⟨inode, rfl, kept⟩, named⟩ := opened
  obtain ⟨known, bytes⟩ := settled.kept inode content kept
  have fits := (g.fits content known).wrapped
  have word := Blob.ceilingBelowWord
  have size : Transfer.sizeOf (d.filled (.file inode)) = (Envelope.envelopeOf [content]).length :=
    congrArg List.length bytes
  have some : 0 < (Envelope.envelopeOf [content]).length := by
    rw [Envelope.lengthEnvelopeOf, Envelope.headerLength]
    omega
  have asked : Blob.saturate ((Envelope.envelopeOf [content]).length + 1) =
      (Envelope.envelopeOf [content]).length + 1 := by
    unfold Blob.saturate
    omega
  have small : Blob.empty.reset.capacity < (Envelope.envelopeOf [content]).length + 1 :=
    Nat.lt_succ_of_le some
  obtain ⟨b, reserved, same, capacity, owned⟩ :=
    Blob.reserveMore Blob.resetWellFormed small fits
  simp only [getStep, size, if_neg (Nat.ne_of_gt some), asked, reserved]
  refine ⟨⟨content, ⟨⟨inode, rfl, kept⟩, named⟩, same.wellFormed, owned, Nat.zero_le _, ?_,
    capacity⟩,
    ?_, fun _ _ => nofun⟩
  · rw [same.content, Blob.resetContent, List.take_zero]
  · exact Nat.le_refl _

variable [Zlib.LawfulEncoder]

theorem finishedWhole {b : Blob} (known : g.known content) (named : id = g.name content)
    (whole : b.content = Envelope.envelopeOf [content]) :
    GetStage.finished g.store.settings id b = .ended (.ok (.ok (some (Blob.held content)))) := by
  subst named
  have opened : unpack g.store.settings (g.name content) b = _ :=
    unpackEq rfl (g.fits content known) whole g.store.settings
  rw [GetStage.finished, opened]
  rfl

theorem getReads (settled : Settled g d role) {handle : Node} {offset : Nat} {b : Blob}
    (opened : Opened g role id handle content)
    (filling : Filling (Envelope.envelopeOf [content]) offset b) (choice : Nat) :
    GetTaken g d role id (.reading handle offset b)
      (g.store.getStep d id choice (.reading handle offset b)) := by
  obtain ⟨⟨inode, rfl, kept⟩, named⟩ := opened
  obtain ⟨known, bytes⟩ := settled.kept inode content kept
  have fits := (g.fits content known).wrapped
  have read : d.read (.file inode) offset (choice % Blob.chunk + 1) =
      .ok (((Envelope.envelopeOf [content]).drop offset).take (choice % Blob.chunk + 1)) := by
    rw [Disk.read, bytes]
  have front :=
    List.take_prefix (choice % Blob.chunk + 1) ((Envelope.envelopeOf [content]).drop offset)
  simp only [getStep, read]
  cases part : ((Envelope.envelopeOf [content]).drop offset).take (choice % Blob.chunk + 1) with
  | nil =>
    have behind : (Envelope.envelopeOf [content]).length ≤ offset :=
      List.drop_eq_nil_iff.mp ((List.take_eq_nil_iff.mp part).resolve_left (Nat.succ_ne_zero _))
    have whole : b.content = Envelope.envelopeOf [content] := by
      rw [filling.content, List.take_of_length_le behind]
    simp only [finishedWhole known named whole]
    refine ⟨.content known named, Nat.zero_le _, fun _ _ missed => ?_⟩
    cases missed
  | cons byte more =>
    rw [part] at front
    have within : offset + (byte :: more).length ≤ (Envelope.envelopeOf [content]).length := by
      have shorter := front.length_le
      have within := filling.within
      rw [List.length_drop] at shorter
      omega
    have used : b.used = offset := by
      rw [← Blob.lengthContent filling.wellFormed, filling.content, List.length_take]
      exact Nat.min_eq_left filling.within
    have room := filling.room
    obtain ⟨e, appended, extended, capacity⟩ :=
      @Blob.appendWithin b (byte :: more) filling.wellFormed filling.owned (by omega)
    simp only [appended]
    refine ⟨⟨content, ⟨⟨inode, rfl, kept⟩, named⟩, extended.wellFormed, extended.owned, within, ?_,
      capacity ▸ room⟩, ?_, fun _ _ missed => ?_⟩
    · rw [extended.content, filling.content, List.take_add, ← List.prefix_iff_eq_take.mp front]
    · simp only [patience, List.length_cons]
      omega
    · cases missed

theorem getTaken (settled : Settled g d role) {stage : GetStage} (sound : SoundGet g role id stage)
    (choice : Nat) : GetTaken g d role id stage (g.store.getStep d id choice stage) := by
  cases stage with
  | looking => exact getLooks settled choice
  | opening => exact getOpens settled choice
  | sizing handle =>
    obtain ⟨content, opened⟩ := sound
    exact getSizes settled opened choice
  | reading handle offset envelope =>
    obtain ⟨content, opened, filling⟩ := sound
    exact getReads settled opened filling choice
  | ended outcome => exact ⟨sound, Nat.zero_le _, fun _ other => other⟩

end

structure DeleteTaken (g : Ground) (d now : Disk) (role : Roles) (k : Nat) (id : ArtifactId) :
    Prop where
  settled : Settled g now role
  leaves : Leaves g k d now role role
  others : ∀ other ≠ id, Untouched g d now other

theorem deleteTaken {g : Ground} {d : Disk} {role : Roles} (settled : Settled g d role) (k : Nat)
    (id : ArtifactId) (stage : DeleteStage) :
    DeleteTaken g d (g.store.deleteStep d id stage).2 role k id := by
  have stays : DeleteTaken g d d role k id := ⟨settled, .refl, fun _ _ => rfl⟩
  cases stage with
  | ended outcome => exact stays
  | removing =>
    have removed : d.names.removeFile (g.store.path id) = _ :=
      settled.housed.removeArtifact g.vacant id
    simp only [deleteStep, Disk.removeFile, removed]
    cases found : d.names.node? (placeOf g.base id) with
    | none => exact stays
    | some node =>
      have there := (settled.housed.files _ _ node found).1
      have node := @nodeErase d.names _ (belowNotTop (placeBelow g.base id))
      have others {place : Place} (away : place ≠ placeOf g.base id) :
          (d.names.erase (placeOf g.base id)).node? place = d.names.node? place := by
        rw [node, if_neg away]
      have gone {place : Place} (here : place = placeOf g.base id) :
          (d.names.erase (placeOf g.base id)).node? place = none := by
        rw [node, if_pos here]
      refine ⟨settled.named rfl (settled.housed.refile fun place => ?_) fun other => ?_,
        ⟨fun name there => (others (shardNotPlace _ _ _)).trans there, fun _ _ kept => kept,
          fun _ _ _ owned => ⟨owned, rfl⟩,
          fun _ _ _ _ _ _ file => (others (sourceNoPlace _ _ _ _)).trans file⟩,
        fun other differs => others fun same => differs (placeInjective same)⟩
      · by_cases here : place = placeOf g.base id
        · refine .inr ⟨_, _, here, there, fun node found => ?_⟩
          cases (gone here).symm.trans found
        · exact .inl (others here)
      · by_cases here : placeOf g.base other = placeOf g.base id
        · exact .inr (gone here)
        · exact .inl (others here)

end

end ArtifactVault.DirectoryStore
