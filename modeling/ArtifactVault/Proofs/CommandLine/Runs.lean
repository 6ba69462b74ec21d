import Mathlib.Logic.Relation
import ArtifactVault.Proofs.CommandLine.Jobs
import ArtifactVault.Proofs.Store.Holding

/-! Whole runs of a command whose files can be read and written, and what puts leave of an artifact
that a store has. -/
namespace ArtifactVault.CommandLine
open DirectoryStore Job Store

section
variable {invocation : Invocation} {console later : Console} {settings : Settings} {now : FileTree}
  {source target content : Bytes}

structure Asks (invocation : Invocation) (console : Console) (settings : Settings)
    (command : Command) : Prop where
  command : invocation.command = command
  loads : Loads console.host.files settings invocation.settings

theorem Asks.run [Zlib.Encoder] {command : Command} (asks : Asks invocation console settings command)
    (job : Settings → Job Unit)
    (means : ∀ verbose path, Job.run ⟨command, verbose, path⟩ = loadSettings path >>= job) :
    invocation.run console = (job settings).on console := by
  obtain ⟨named, verbose, path⟩ := invocation
  obtain ⟨rfl, loads⟩ := asks
  have whole : (⟨named, verbose, path⟩ : Invocation).run console =
      (Job.run ⟨named, verbose, path⟩).on console := rfl
  rw [whole, means]
  exact onOk (loadSettingsOn loads)

theorem runTaken [Zlib.Encoder] {command : Command} {outcome : Except Failure Unit}
    (named : invocation.command = command) (job : Settings → Job Unit)
    (means : ∀ verbose path, Job.run ⟨command, verbose, path⟩ = loadSettings path >>= job)
    (done : invocation.run console = .ok (outcome, later)) :
    (later = console ∧ ∃ path failure, outcome = .error failure ∧
      (failure = .badSettings path ∨ ∃ e, failure = .unreadableSettings path e)) ∨
      ∃ settings, (job settings).on console = .ok (outcome, later) := by
  obtain ⟨asked, verbose, path⟩ := invocation
  cases named
  have whole : (⟨asked, verbose, path⟩ : Invocation).run console =
      (Job.run ⟨asked, verbose, path⟩).on console := rfl
  rw [whole, means] at done
  rcases onBind done with ⟨failure, loaded, same⟩ | ⟨settings, middle, loaded, done⟩
  · obtain ⟨stays, path, failed⟩ := loadSettingsEnds loaded
    exact .inl ⟨stays, path, failure, same, failed⟩
  · cases (loadSettingsEnds loaded).1
    exact .inr ⟨settings, done⟩

theorem compressRun [Zlib.Encoder] {count : Nat}
    (asks : Asks invocation console settings (.compress source target))
    (sourceNamed : Transfer.isStandardStream source = false)
    (targetNamed : Transfer.isStandardStream target = false)
    (found : console.host.files.lookup .target source = .ok (.file content)) (fits : Fits content)
    (wrote : Transfer.writePath console.host.files (Envelope.envelopeOf [content]) target =
      (.ok count, now)) : invocation.run console = .ok (.ok (), console.withFiles now) := by
  obtain ⟨b, read, rfl⟩ := @readFile settings _ _ _ sourceNamed found fits.inside
  rw [asks.run (compress · source target) fun _ _ => rfl, compress, onOk read, wrapEq fits,
    onOk (orAbortOk _)]
  exact emitFile targetNamed wrote

theorem uncompressRun [Zlib.Encoder] [Zlib.LawfulEncoder] {count : Nat}
    (asks : Asks invocation console settings (.uncompress source target))
    (sourceNamed : Transfer.isStandardStream source = false)
    (targetNamed : Transfer.isStandardStream target = false)
    (found : console.host.files.lookup .target source =
      .ok (.file (Envelope.envelopeOf [content]))) (fits : Fits content)
    (wrote : Transfer.writePath console.host.files content target = (.ok count, now)) :
    invocation.run console = .ok (.ok (), console.withFiles now) := by
  obtain ⟨b, read, whole⟩ := @readFile settings _ _ _ sourceNamed found fits.wrapped
  have opened := Envelope.unwrapOfSingle whole fits.inside
  rw [asks.run (uncompress · source target) fun _ _ => rfl, uncompress, onOk read,
    onOk (unwrapOn opened)]
  exact emitFile targetNamed wrote

variable {root : Bytes} {id : ArtifactId} {made : FileTree}

theorem putRun [Zlib.Encoder] {out : Output} {stored : FileTree} {b : Blob}
    (asks : Asks invocation console settings (.put source root))
    (read : (Job.read settings source).on console = .ok (.ok b, console))
    (prepared : prepare console.host.files root = (.ok (), made))
    (put : (⟨root, settings.store⟩ : DirectoryStore).put made b = .ok (.ok id, stored))
    (prints : console.out.appendFormatted [id.hex, "\n"] = .ok (.ok (), out)) :
    invocation.run console = .ok (.ok (), { console.withFiles stored with out }) := by
  have kept : (⟨root, settings.store⟩ : DirectoryStore).put (console.withFiles made).host.files b =
      .ok (.ok id, stored) := put
  rw [asks.run (storeFile · source root) fun _ _ => rfl, storeFileEq, onOk read,
    onOk (openStoreOn prepared), putIntoOn, kept]
  exact @printLineOn (console.withFiles stored) out id.hex prints

theorem getRun [Zlib.Encoder] {output : Bytes} {name : String}
    {found : Except StoreError (Option Blob)}
    (asks : Asks invocation console settings (.get name root output))
    (called : (Utf8.ofString name).map Byte.toLower = id.nameBytes)
    (prepared : prepare console.host.files root = (.ok (), console.host.files))
    (got : (⟨root, settings.store⟩ : DirectoryStore).get console.host.files id = .ok found) :
    invocation.run console = (orFail .store found >>= handOver id output).on console := by
  have opened : (openStore settings root).on console = .ok (.ok ⟨root, settings.store⟩, console) :=
    openStoreOn prepared
  have named : (orFail (.notAName name) (ArtifactId.ofHex (Utf8.ofString name))).on console =
      .ok (.ok id, console) := by
    rw [ArtifactId.ofHexAnyCase called]
    rfl
  rw [asks.run (fetch · name root output) fun _ _ => rfl, fetchEq, onOk named, onOk opened, onGet, got,
    onOk (orAbortOk _)]

theorem storeFileHolds [Zlib.Encoder] {outcome : Except Failure Unit}
    (holds : Holds console.host.files root id content)
    (reaches : ∀ id, console.host.files.lookup .target (DirectoryStore.path ⟨root, .standard⟩ id) ≠
      .error .tooManyLinks)
    (done : (storeFile settings source root).on console = .ok (outcome, later)) :
    Holds later.host.files root id content := by
  rw [storeFileEq] at done
  rcases onBind done with ⟨failure, read, -⟩ | ⟨b, middle, read, done⟩
  · rw [(readEnds read).1]
    exact holds
  · rw [← (readEnds read).1] at holds reaches
    have opened : (openStore settings root).on middle = .ok (.ok ⟨root, settings.store⟩, middle) :=
      openStoreOn holds.prepare
    rw [onOk opened, putIntoOn] at done
    obtain ⟨⟨outcome, files⟩, put, done⟩ := okBind done
    have kept := holds.put reaches put
    cases outcome with
    | error e =>
      cases done
      exact kept
    | ok given =>
      rw [(printLineEnds done).1]
      exact kept

inductive PutAnother [Zlib.Encoder] (root : Bytes) : FileTree → FileTree → Prop where
  | ran {invocation : Invocation} {console later : Console} {file : Bytes}
      {outcome : Except Failure Unit} (command : invocation.command = .put file root)
      (reaches : ∀ id, console.host.files.lookup .target (DirectoryStore.path ⟨root, .standard⟩ id) ≠
        .error .tooManyLinks)
      (done : invocation.run console = .ok (outcome, later)) :
      PutAnother root console.host.files later.host.files

theorem PutAnother.holds [Zlib.Encoder] {t : FileTree} (another : PutAnother root t now)
    (holds : Holds t root id content) : Holds now root id content := by
  cases another with
  | @ran invocation console later file outcome command reaches done =>
    rcases runTaken command (storeFile · file root) (fun _ _ => rfl) done with
      ⟨stays, -⟩ | ⟨settings, done⟩
    · rw [stays]
      exact holds
    · exact storeFileHolds holds reaches done

theorem putsHold [Zlib.Encoder] {t : FileTree} (others : Relation.ReflTransGen (PutAnother root) t now)
    (holds : Holds t root id content) : Holds now root id content := by
  induction others with
  | refl => exact holds
  | tail _ another ih => exact another.holds ih

end

end ArtifactVault.CommandLine
