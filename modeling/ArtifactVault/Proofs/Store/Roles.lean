import ArtifactVault.Proofs.Store.Contents
import ArtifactVault.Proofs.Store.Housing
import ArtifactVault.Proofs.Transfer
import ArtifactVault.Store.Interleaving

/-! What the inodes are for while calls run at the same time. One that a put has made is written by
that put alone, until it is whole and moved to its place; from then on it is kept as it is, also when
its name is gone. An open file is always one that is kept. -/
namespace ArtifactVault.DirectoryStore
open FileTree Store

inductive Role
  | written (k : Nat)
  | kept (content : Bytes)

abbrev Roles := Inode → Option Role

def Roles.assign (role : Roles) (inode : Inode) (now : Role) : Roles :=
  fun other => if other = inode then some now else role other

section
variable [Zlib.Encoder]

/-- A root below which there was nothing, and the contents that may be put there. -/
structure Ground where
  origin : FileTree
  root : Bytes
  base : Place
  settings : StoreSettings
  known : Bytes → Prop
  vacant : Vacant origin root base
  fits : ∀ content, known content → Fits content

namespace Ground

def store (g : Ground) : DirectoryStore := ⟨g.root, g.settings⟩

def name (g : Ground) (content : Bytes) : ArtifactId := .compute g.settings.algorithm content

end Ground

structure Settled (g : Ground) (d : Disk) (role : Roles) : Prop where
  housed : Housed g.origin d.names g.base
  used : ∀ inode, role inode ≠ none → inode ∈ d.inodes.map (·.1)
  kept : ∀ inode content, role inode = some (.kept content) →
    g.known content ∧ d.bytes inode = Envelope.envelopeOf [content]
  artifacts : ∀ id inode, d.names.node? (placeOf g.base id) = some (.file inode) →
    ∃ content, role inode = some (.kept content) ∧ id = g.name content

structure Temporary (g : Ground) (d : Disk) (role : Roles) (k : Nat) (id : ArtifactId) (n : Nat)
    (inode : Inode) : Prop where
  usable : Usable g.root id n
  file : d.names.node? (sourceOf g.base id n) = some (.file inode)
  own : role inode = some (.written k)

def temporaryPath (g : Ground) (id : ArtifactId) (n : Nat) : Bytes :=
  join (g.store.shardPath id) (temporaryName n)

def SoundPut (g : Ground) (d : Disk) (role : Roles) (k : Nat) (id : ArtifactId) (content : Bytes) :
    PutStage → Prop
  | .creating => d.names.node? (g.base ++ [shard id]) = some .directory
  | .writing temporary inode left =>
    (∃ n, temporary = temporaryPath g id n ∧ Temporary g d role k id n inode) ∧
      d.bytes inode ++ left = Envelope.envelopeOf [content]
  | .dropping temporary _ =>
    ∃ n inode, temporary = temporaryPath g id n ∧ Temporary g d role k id n inode
  | .ended outcome => ∀ other, outcome = .ok other → other = id
  | _ => True

structure Opened (g : Ground) (role : Roles) (id : ArtifactId) (handle : Node) (content : Bytes) :
    Prop where
  kept : ∃ inode, handle = .file inode ∧ role inode = some (.kept content)
  named : id = g.name content

structure Filling (envelope : Bytes) (offset : Nat) (b : Blob) : Prop where
  wellFormed : b.WellFormed
  owned : b.ownership = .owned
  within : offset ≤ envelope.length
  content : b.content = envelope.take offset
  room : envelope.length < b.capacity

inductive Fetched (g : Ground) (id : ArtifactId) :
    Except Abort (Except StoreError (Option Blob)) → Prop where
  | nothing : Fetched g id (.ok (.ok none))
  | content {content : Bytes} (known : g.known content) (named : id = g.name content) :
      Fetched g id (.ok (.ok (some (Blob.held content))))

def SoundGet (g : Ground) (role : Roles) (id : ArtifactId) : GetStage → Prop
  | .sizing handle => ∃ content, Opened g role id handle content
  | .reading handle offset envelope => ∃ content, Opened g role id handle content ∧
      Filling (Envelope.envelopeOf [content]) offset envelope
  | .ended outcome => Fetched g id outcome
  | _ => True

def SoundCall (g : Ground) (d : Disk) (role : Roles) (k : Nat) : Activity → Prop
  | .aborted _ => False
  | .putting id envelope stage => ∃ content, g.known content ∧ id = g.name content ∧
      envelope = Envelope.envelopeOf [content] ∧ SoundPut g d role k id content stage
  | .getting id stage => SoundGet g role id stage
  | .deleting _ _ => True

structure Leaves (g : Ground) (k : Nat) (d now : Disk) (role later : Roles) : Prop where
  shards : ∀ name, d.names.node? (g.base ++ [name]) = some .directory →
    now.names.node? (g.base ++ [name]) = some .directory
  kept : ∀ inode content, role inode = some (.kept content) → later inode = some (.kept content)
  written : ∀ j ≠ k, ∀ inode, role inode = some (.written j) →
    later inode = some (.written j) ∧ now.bytes inode = d.bytes inode
  files : ∀ j ≠ k, ∀ inode id n, role inode = some (.written j) →
    d.names.node? (sourceOf g.base id n) = some (.file inode) →
    now.names.node? (sourceOf g.base id n) = some (.file inode)

section
variable {g : Ground} {d now : Disk} {role later : Roles} {j k : Nat} {id : ArtifactId}

theorem Leaves.refl : Leaves g k d d role role :=
  ⟨fun _ there => there, fun _ _ kept => kept, fun _ _ _ own => ⟨own, rfl⟩,
    fun _ _ _ _ _ _ file => file⟩

theorem Temporary.left (leaves : Leaves g k d now role later) (apart : j ≠ k) {n : Nat}
    {inode : Inode} (temporary : Temporary g d role j id n inode) :
    Temporary g now later j id n inode :=
  ⟨temporary.usable, leaves.files j apart _ _ _ temporary.own temporary.file,
    (leaves.written j apart _ temporary.own).1⟩

theorem SoundPut.left (leaves : Leaves g k d now role later) (apart : j ≠ k) {content : Bytes}
    {stage : PutStage} (sound : SoundPut g d role j id content stage) :
    SoundPut g now later j id content stage := by
  cases stage with
  | looking => trivial
  | making => trivial
  | creating => exact leaves.shards _ sound
  | writing path inode left =>
    obtain ⟨⟨n, same, temporary⟩, whole⟩ := sound
    refine ⟨⟨n, same, temporary.left leaves apart⟩, ?_⟩
    rw [(leaves.written j apart _ temporary.own).2]
    exact whole
  | dropping path e =>
    obtain ⟨n, inode, same, temporary⟩ := sound
    exact ⟨n, inode, same, temporary.left leaves apart⟩
  | ended outcome => exact sound

theorem Opened.left (leaves : Leaves g k d now role later) {handle : Node} {content : Bytes}
    (opened : Opened g role id handle content) : Opened g later id handle content := by
  obtain ⟨inode, same, kept⟩ := opened.kept
  exact ⟨⟨inode, same, leaves.kept _ _ kept⟩, opened.named⟩

theorem SoundCall.left (leaves : Leaves g k d now role later) (apart : j ≠ k) {activity : Activity}
    (sound : SoundCall g d role j activity) : SoundCall g now later j activity := by
  cases activity with
  | aborted cause => exact sound
  | putting id envelope stage =>
    obtain ⟨content, known, named, whole, sound⟩ := sound
    exact ⟨content, known, named, whole, sound.left leaves apart⟩
  | getting id stage =>
    cases stage with
    | sizing handle =>
      obtain ⟨content, opened⟩ := sound
      exact ⟨content, opened.left leaves⟩
    | reading handle offset envelope =>
      obtain ⟨content, opened, filling⟩ := sound
      exact ⟨content, opened.left leaves, filling⟩
    | _ => exact sound
  | deleting id stage => trivial

end

section
variable {g : Ground} {d now : Disk} {role : Roles} {k n : Nat} {id : ArtifactId}
  (settled : Settled g d role)

include settled

theorem Settled.named (same : now.inodes = d.inodes) (housed : Housed g.origin now.names g.base)
    (artifacts : ∀ id, now.names.node? (placeOf g.base id) = d.names.node? (placeOf g.base id) ∨
      now.names.node? (placeOf g.base id) = none) : Settled g now role := by
  refine ⟨housed, ?_, fun inode content kept => ?_, fun id inode found => ?_⟩
  · rw [same]
    exact settled.used
  · have bytes : now.bytes inode = d.bytes inode := by rw [Disk.bytes, Disk.bytes, same]
    rw [bytes]
    exact settled.kept inode content kept
  · rcases artifacts id with same | gone
    · exact settled.artifacts id inode (same ▸ found)
    · rw [gone] at found
      cases found

theorem Settled.unusedFree : role d.unused = none := by
  by_contra used
  exact Disk.unusedUnknown (settled.used _ used) rfl

theorem Settled.created (there : d.names.node? (g.base ++ [shard id]) = some .directory) :
    Settled g (d.made (sourceOf g.base id n)) (role.assign d.unused (.written k)) := by
  have below := belowNotTop (sourceBelow g.base id n)
  have kept {inode : Inode} {content : Bytes}
      (kept : role.assign d.unused (.written k) inode = some (.kept content)) :
      inode ≠ d.unused ∧ role inode = some (.kept content) := by
    unfold Roles.assign at kept
    split at kept
    · cases kept
    · exact ⟨by assumption, kept⟩
  refine ⟨?_, fun inode used => ?_, fun inode content own => ?_, fun other inode found => ?_⟩
  · refine settled.housed.refile fun place => ?_
    rw [Disk.nodeMade below]
    split
    · rename_i same
      exact .inr ⟨shard id, temporaryName n, same, there,
        fun node found => ⟨_, (Option.some.inj found).symm⟩⟩
    · exact .inl rfl
  · refine List.mem_cons.mpr ?_
    by_cases fresh : inode = d.unused
    · exact .inl fresh
    · rw [Roles.assign, if_neg fresh] at used
      exact .inr (settled.used inode used)
  · obtain ⟨apart, own⟩ := kept own
    rw [Disk.bytesMade, if_neg apart]
    exact settled.kept inode content own
  · rw [Disk.nodeMade below, if_neg (sourceNoPlace g.base id n other).symm] at found
    obtain ⟨content, own, named⟩ := settled.artifacts other inode found
    have apart : inode ≠ d.unused := by
      rintro rfl
      rw [settled.unusedFree] at own
      cases own
    exact ⟨content, (if_neg apart).trans own, named⟩

theorem Settled.appended {inode : Inode} (own : role inode = some (.written k)) (more : Bytes) :
    Settled g (d.append inode more) role := by
  refine ⟨settled.housed, fun other used => ?_, fun other content kept => ?_, settled.artifacts⟩
  · exact List.mem_cons_of_mem _ (settled.used other used)
  · rw [Disk.bytesAppend, if_neg]
    · exact settled.kept other content kept
    · rintro rfl
      rw [own] at kept
      cases kept

theorem Settled.installed {inode : Inode} {content : Bytes} {names : FileTree}
    (temporary : Temporary g d role k id n inode) (known : g.known content)
    (named : id = g.name content) (whole : d.bytes inode = Envelope.envelopeOf [content])
    (changed : ∀ place, names.node? place =
      if place = placeOf g.base id then some (.file inode)
      else if place = sourceOf g.base id n then none else d.names.node? place) :
    Settled g { d with names } (role.assign inode (.kept content)) := by
  have there := (settled.housed.files _ _ _ temporary.file).1
  refine ⟨?_, fun other used => ?_, fun other envelope own => ?_, fun other inner found => ?_⟩
  · refine settled.housed.refile fun place => ?_
    rw [changed]
    split
    · rename_i same
      exact .inr ⟨shard id, leaf id, same, there,
        fun node found => ⟨_, (Option.some.inj found).symm⟩⟩
    · split
      · rename_i same
        exact .inr ⟨shard id, temporaryName n, same, there, nofun⟩
      · exact .inl rfl
  · refine settled.used other fun free => used ?_
    have apart : other ≠ inode := by
      rintro rfl
      rw [temporary.own] at free
      cases free
    exact (if_neg apart).trans free
  · unfold Roles.assign at own
    split at own
    · rename_i same
      cases own
      exact ⟨known, same ▸ whole⟩
    · exact settled.kept other envelope own
  · change names.node? _ = _ at found
    rw [changed] at found
    split at found
    · rename_i same
      cases found
      exact ⟨content, if_pos rfl, placeInjective same ▸ named⟩
    · rw [if_neg (sourceNoPlace g.base id n other).symm] at found
      obtain ⟨envelope, own, named⟩ := settled.artifacts other inner found
      have apart : inner ≠ inode := by
        rintro rfl
        rw [temporary.own] at own
        cases own
      exact ⟨envelope, (if_neg apart).trans own, named⟩

end

end

end ArtifactVault.DirectoryStore
