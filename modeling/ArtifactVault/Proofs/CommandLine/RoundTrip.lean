import ArtifactVault.Proofs.CommandLine.Runs
import ArtifactVault.Proofs.FileTree.Outputs

/-! What one command writes another reads: a file that was compressed comes back when it is
uncompressed, and one that was put comes back under its name, whatever is put after it. -/
namespace ArtifactVault.CommandLine
open DirectoryStore Job Store

structure Packs [Zlib.Encoder] (first second : Console) (packing unpacking : Invocation)
    (source middle target content : Bytes) (packed unpacked : FileTree) : Prop where
  closed : first.host.files.Closed
  sourceNamed : Transfer.isStandardStream source = false
  middleNamed : Transfer.isStandardStream middle = false
  targetNamed : Transfer.isStandardStream target = false
  found : first.host.files.lookup .target source = .ok (.file content)
  asks : ∃ settings, Asks packing first settings (.compress source middle)
  wrote : ∃ count, Transfer.writePath first.host.files (Envelope.envelopeOf [content]) middle =
    (.ok count, packed)
  next : second.host.files = packed
  asksBack : ∃ settings, Asks unpacking second settings (.uncompress middle target)
  wroteBack : ∃ count, Transfer.writePath packed content target = (.ok count, unpacked)

/-- A file is to be put. The system does what it is asked: the store is there or is made, and an
artifact that is not there yet can be installed. One that is there is intact. -/
structure Puts [Zlib.Encoder] (console : Console) (invocation : Invocation) (settings : Settings)
    (source root : Bytes) (id : ArtifactId) (content : Bytes) (made : FileTree) : Prop where
  closed : console.host.files.Closed
  sourceNamed : Transfer.isStandardStream source = false
  rootNamed : root ≠ []
  asks : Asks invocation console settings (.put source root)
  found : console.host.files.lookup .target source = .ok (.file content)
  named : id = .compute settings.store.algorithm content
  prepared : prepare console.host.files root = (.ok (), made)
  reaches : made.lookup .target (DirectoryStore.path ⟨root, settings.store⟩ id) ≠
    .error .tooManyLinks
  intact : ∀ node, made.lookup .target (DirectoryStore.path ⟨root, settings.store⟩ id) = .ok node →
    Keeping made root id content
  installs : ∀ e, made.lookup .target (DirectoryStore.path ⟨root, settings.store⟩ id) = .error e →
    (install made (shardPath ⟨root, settings.store⟩ id)
      (DirectoryStore.path ⟨root, settings.store⟩ id) (Envelope.envelopeOf [content])).1 = .ok ()

def ComesBack [Zlib.Encoder] (t : FileTree) (root : Bytes) (id : ArtifactId) (content : Bytes) :
    Prop :=
  ∀ {reader : Console} {invocation : Invocation} {settings : Settings} {name : String}
    {output : Bytes}, reader.host.files = t → Asks invocation reader settings (.get name root output) →
    (Utf8.ofString name).map Byte.toLower = id.nameBytes →
      (Transfer.isStandardStream output = false → ∀ count now,
        Transfer.writePath t content output = (.ok count, now) →
          invocation.run reader = .ok (.ok (), reader.withFiles now) ∧
            now.lookup .target output = .ok (.file content)) ∧
      (output = Transfer.dash → reader.out.WellFormed → ∀ out,
        reader.out.append content = .ok (.ok (), out) →
          invocation.run reader = .ok (.ok (), { reader with out }) ∧
            written out = written reader.out ++ content)

theorem holdsComesBack [Zlib.Encoder] {t : FileTree} {root content : Bytes} {id : ArtifactId}
    (holds : Holds t root id content) :
    ComesBack t root id content := by
  rintro reader invocation settings name output rfl asks called
  have ran := getRun asks called holds.prepare (holds.get settings.store)
  have emits : invocation.run reader = (emit (Blob.held content) output).on reader := ran
  refine ⟨fun named count now wrote => ⟨?_, ?_⟩, ?_⟩
  · rw [emits]
    exact emitFile named wrote
  · exact (Transfer.writePathFound holds.closed wrote).2
  · rintro rfl wf out takes
    rw [emits]
    exact ⟨emitOutput takes, Output.appendWritten wf takes⟩

theorem lineBytes (id : ArtifactId) :
    [id.hex, "\n"].flatMap Utf8.ofString = id.nameBytes ++ Bytes.ascii ['\n'] := rfl

theorem commandsRoundTrip [Zlib.Encoder] [Zlib.LawfulEncoder] {content : Bytes}
    (fits : Fits content) :
    (∀ {first second : Console} {packing unpacking : Invocation} {source middle target : Bytes}
      {packed unpacked : FileTree},
      Packs first second packing unpacking source middle target content packed unpacked →
        packing.run first = .ok (.ok (), first.withFiles packed) ∧
        unpacking.run second = .ok (.ok (), second.withFiles unpacked) ∧
        unpacked.lookup .target target = .ok (.file content)) ∧
    ∀ {console : Console} {invocation : Invocation} {settings : Settings} {source root : Bytes}
      {id : ArtifactId} {made : FileTree} {out : Output},
      Puts console invocation settings source root id content made → console.out.WellFormed →
      console.out.appendFormatted [id.hex, "\n"] = .ok (.ok (), out) →
        written out = written console.out ++ id.nameBytes ++ Bytes.ascii ['\n'] ∧
        ∃ stored, invocation.run console = .ok (.ok (), { console.withFiles stored with out }) ∧
          ∀ now, Relation.ReflTransGen (PutAnother root) stored now → ComesBack now root id content := by
  refine ⟨fun packs => ?_, fun puts wf prints => ⟨?_, ?_⟩⟩
  · obtain ⟨_, asks⟩ := packs.asks
    obtain ⟨_, asksBack⟩ := packs.asksBack
    obtain ⟨_, wrote⟩ := packs.wrote
    obtain ⟨_, wroteBack⟩ := packs.wroteBack
    obtain ⟨closed, found⟩ := Transfer.writePathFound packs.closed wrote
    refine ⟨compressRun asks packs.sourceNamed packs.middleNamed packs.found fits wrote, ?_,
      (Transfer.writePathFound closed wroteBack).2⟩
    rw [← packs.next] at found wroteBack
    exact uncompressRun asksBack packs.middleNamed packs.targetNamed found fits wroteBack
  · rw [Output.formattedWritten wf prints, lineBytes, List.append_assoc]
  · obtain ⟨b, read, rfl⟩ := @readFile _ _ _ _ puts.sourceNamed puts.found fits.inside
    obtain ⟨closed, directory⟩ := preparedDone puts.closed puts.rootNamed puts.prepared
    obtain ⟨stored, put, holds⟩ :=
      putHolds closed directory fits puts.named puts.intact puts.reaches puts.installs
    exact ⟨stored, putRun puts.asks read puts.prepared put prints, fun now others =>
      holdsComesBack (putsHold others holds)⟩

section
variable {t : FileTree} {name content : Bytes}

theorem topLeads (t : FileTree) : FileTree.Leads t [] [] := by
  have arrives : t.walk .target FileTree.mostLinks [] [] = .ok [] := by rw [FileTree.walk]
  exact ⟨arrives, rfl⟩

theorem writeTop (plain : FileTree.Name name) (checked : FileTree.checkPath name = .ok ())
    (alone : FileTree.parent? name = some []) (free : t.node? [name] = none) :
    Transfer.writePath t content name = (.ok content.length, t.written [name] content) := by
  have resolved : t.resolve .output name = .ok [name] :=
    (topLeads t).resolvePlain plain checked (.inr (by
      rw [List.nil_append, free]
      exact fun _ => nofun))
  refine Transfer.writePathPrepared (Transfer.prepareParentTop alone) resolved ?_
  rw [free]
  exact nofun

theorem singleName {byte : UInt8} (plain : byte ∉ [0x2e, FileTree.slash, 0]) :
    FileTree.Name [byte] := by
  simp only [List.mem_cons, List.not_mem_nil, or_false, not_or] at plain
  obtain ⟨noDot, noSlash, noZero⟩ := plain
  have short : ¬ FileTree.longestName < 1 := by decide
  refine ⟨⟨⟨?_, ?_⟩, short⟩, ?_, ?_⟩
  · rintro (nothing | same)
    · cases nothing
    · exact noDot (List.cons.inj same).1
  · exact fun same => by cases (List.cons.inj same).2
  · exact fun mem => noSlash (List.mem_singleton.mp mem).symm
  · exact fun mem => noZero (List.mem_singleton.mp mem).symm

def withLetter (t : FileTree) : FileTree := t.insert [[0x66]] (.file [0x61])

theorem withLetterNode (place : Place) : (withLetter t).node? place =
    if place = [[0x66]] then some (.file [0x61]) else t.node? place :=
  FileTree.nodeInsert (List.cons_ne_nil _ _) place

theorem withLetterFound (t : FileTree) :
    (withLetter t).lookup .target [0x66] = .ok (.file [0x61]) :=
  (topLeads _).lookupPlain (singleName (by decide)) rfl (fun _ => nofun) (by
    rw [withLetterNode, List.nil_append, if_pos rfl])

theorem withLetterClosed (closed : t.Closed) (free : t.node? [[0x66]] = none) :
    (withLetter t).Closed :=
  @FileTree.Closed.insert t [] (.file [0x61]) closed [0x66] rfl fun same => by
    rw [List.nil_append, free] at same
    cases same

end

theorem letterVacant : Vacant (withLetter letterRoot) [0x72] [[0x72]] := by
  have keeps : letterRoot.Keeps (withLetter letterRoot) := FileTree.keepsInserted rfl
  have leads := letterRootVacant.way.still keeps.ways
  refine ⟨?_, leads.directory, fun place below => ?_, by decide⟩
  · refine (topLeads _).resolvePlain (singleName (by decide)) rfl (.inr fun target => ?_)
    rw [List.nil_append, leads.directory]
    exact nofun
  · rw [withLetterNode, if_neg, letterRootVacant.nothing place below]
    rintro rfl
    exact absurd below.1 (by decide)

def deskOf (t : FileTree) (taken : Bytes) : Console := ⟨⟨t, [], []⟩, .channel ⟨[], none, taken, 0⟩⟩

def asked (command : Command) : Invocation := ⟨command, false, none⟩

theorem asksAsked (command : Command) (console : Console) :
    Asks (asked command) console .standard command := ⟨rfl, rfl⟩

theorem linePrinted (t : FileTree) (id : ArtifactId) :
    (deskOf t []).out.appendFormatted [id.hex, "\n"] =
      .ok (.ok (), .channel ⟨[], none, id.nameBytes ++ Bytes.ascii ['\n'], 0⟩) := by
  rw [deskOf, Output.formattedUnlimited, lineBytes, List.nil_append]

theorem standingPrepared {t : FileTree} {root : Bytes} {base : Place}
    (checked : FileTree.checkPath root = .ok ()) (leads : FileTree.Leads t root base) :
    prepare t root = (.ok (), t) := by
  rw [prepare, FileTree.makeDirectoriesStanding (FileTree.isDirectoryIff.mpr ⟨checked, _, leads⟩)]

def letterPacked : FileTree :=
  (withLetter letterRoot).written [[0x70]] (Envelope.envelopeOf [[0x61]])

def letterUnpacked : FileTree := letterPacked.written [[0x67]] [0x61]

theorem letterPacks :
    Packs (deskOf (withLetter letterRoot) []) (deskOf letterPacked []) (asked (.compress [0x66] [0x70]))
      (asked (.uncompress [0x70] [0x67])) [0x66] [0x70] [0x67] [0x61] letterPacked letterUnpacked := by
  have wrote := @writeTop (withLetter letterRoot) [0x70] (Envelope.envelopeOf [[0x61]])
    (singleName (by decide)) rfl rfl rfl
  have wroteBack := @writeTop letterPacked [0x67] [0x61] (singleName (by decide)) rfl rfl rfl
  exact ⟨withLetterClosed letterRootClosed rfl, by decide, by decide, by decide, withLetterFound _,
    ⟨_, asksAsked _ _⟩, ⟨_, wrote⟩, rfl, ⟨_, asksAsked _ _⟩, ⟨_, wroteBack⟩⟩

theorem letterPuts :
    Puts (deskOf (withLetter letterRoot) []) (asked (.put [0x66] [0x72])) .standard [0x66] [0x72]
      (.compute .sha3 [0x61]) [0x61] (withLetter letterRoot) := by
  have stands := standsAtFirst letterVacant
  have missing : (withLetter letterRoot).lookup .target
      (DirectoryStore.path ⟨[0x72], .standard⟩ (.compute .sha3 [0x61])) = .error .notFound := by
    rw [stands.lookup .standard letterVacant, Finmap.lookup_empty]
    rfl
  refine ⟨withLetterClosed letterRootClosed rfl, by decide, by decide, asksAsked _ _,
    withLetterFound _, rfl, standingPrepared rfl letterVacant.way, fun same => ?_,
    fun node there => ?_, fun e _ => ?_⟩
  · cases missing.symm.trans same
  · cases missing.symm.trans there
  · have absent : ArtifactId.compute .sha3 [0x61] ∉ (∅ : Contents) := Finmap.notMem_empty
    obtain ⟨now, done, -⟩ := stands.install letterVacant absent [0x61]
    rw [shardPathEq, pathEq]
    exact congrArg Prod.fst done

theorem letterRoundTrip :
    let id := ArtifactId.compute .sha3 [0x61]
    let desk := deskOf (withLetter letterRoot) []
    ∃ stored, (asked (.compress [0x66] [0x70])).run desk = .ok (.ok (), deskOf letterPacked []) ∧
      (asked (.uncompress [0x70] [0x67])).run (deskOf letterPacked []) =
        .ok (.ok (), deskOf letterUnpacked []) ∧
      letterUnpacked.lookup .target [0x67] = .ok (.file [0x61]) ∧
      (asked (.put [0x66] [0x72])).run desk =
        .ok (.ok (), deskOf stored (id.nameBytes ++ Bytes.ascii ['\n'])) ∧
      (asked (.get id.hex [0x72] Transfer.dash)).run (deskOf stored []) =
        .ok (.ok (), deskOf stored [0x61]) := by
  intro id desk
  obtain ⟨packs, puts⟩ := commandsRoundTrip letterFits
  obtain ⟨compressed, uncompressed, same⟩ := packs letterPacks
  obtain ⟨-, stored, ran, comes⟩ := puts letterPuts trivial (linePrinted _ _)
  have takes := Output.appendUnlimited [] [0x61] 0
  obtain ⟨-, onOutput⟩ := comes stored .refl rfl (asksAsked _ (deskOf stored []))
    (ArtifactId.lowerNameBytes id)
  exact ⟨stored, compressed, uncompressed, same, ran, (onOutput rfl trivial _ takes).1⟩

theorem truncatedNeverBack :
    let id := ArtifactId.compute .sha3 [0x61]
    let t := withLetter (holding (shard id) (leaf id) [0, 0, 0, 1, 0x78])
    Fits [0x61] ∧ t.lookup .target [0x66] = .ok (.file [0x61]) ∧
      (asked (.put [0x66] [0x72])).run (deskOf t []) =
        .ok (.ok (), deskOf t (id.nameBytes ++ Bytes.ascii ['\n'])) ∧
      (asked (.get id.hex [0x72] Transfer.dash)).run (deskOf t []) =
        .ok (.error (.store (.corrupt id (.corrupt .truncated))), deskOf t []) := by
  intro id t
  have stands := holdingStands (shard id) (leaf id) [0, 0, 0, 1, 0x78]
  have free : (holding (shard id) (leaf id) [0, 0, 0, 1, 0x78]).node? [[0x66]] = none := by
    rw [holdingNode, if_neg nofun, if_neg nofun]
    rfl
  have keeps : (holding (shard id) (leaf id) [0, 0, 0, 1, 0x78]).Keeps t :=
    FileTree.keepsInserted free
  have stored : t.lookup .target (DirectoryStore.path ⟨[0x72], .standard⟩ id) =
      .ok (.file [0, 0, 0, 1, 0x78]) := keeps.lookup (holdingFound id _ _)
  have found : t.lookup .target [0x66] = .ok (.file [0x61]) := withLetterFound _
  have prepared := standingPrepared rfl (stands.2.still keeps.ways)
  refine ⟨letterFits, found, ?_, ?_⟩
  · obtain ⟨b, read, whole⟩ := @readFile .standard (deskOf t []) _ _ (by decide) found (by decide)
    have named : ArtifactId.compute .sha3 b.content = id := by rw [whole]
    have put : (⟨[0x72], .standard⟩ : DirectoryStore).put t b = .ok (.ok id, t) := by
      rw [← named] at stored ⊢
      exact putStanding (by rw [whole]; exact letterFits) stored
    exact putRun (asksAsked _ _) read prepared put (linePrinted t id)
  · have cut : Envelope.unwrapBytes [0, 0, 0, 1, 0x78] = .error (.corrupt .truncated) := by decide
    have got : (⟨[0x72], .standard⟩ : DirectoryStore).get t id =
        .ok (.error (.corrupt id (.corrupt .truncated))) := by
      rw [getFile stored (by decide), opened, cut]
      rfl
    exact getRun (asksAsked _ (deskOf t [])) (ArtifactId.lowerNameBytes id) prepared got

end ArtifactVault.CommandLine
