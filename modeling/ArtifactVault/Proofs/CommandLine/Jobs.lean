import ArtifactVault.CommandLine.Run
import ArtifactVault.Proofs.Envelope
import ArtifactVault.Proofs.FileTree.Lookups
import ArtifactVault.Proofs.Transfer

/-! Commands step by step. A step that fails ends the command and leaves the console as it has made
it; what goes on is the next step on that console. -/
namespace ArtifactVault.CommandLine

def Console.withFiles (console : Console) (files : FileTree) : Console :=
  { console with host := { console.host with files } }

def Loads (t : FileTree) (settings : Settings) : Option Bytes → Prop
  | none => settings = .standard
  | some path => ∃ text, t.readText path = .ok text ∧ Settings.ofText? text = some settings

namespace Job

def on {α : Type} (job : Job α) (console : Console) : Except Abort (Except Failure α × Console) :=
  (ExceptT.run job).run console

section
variable {α β : Type} {job : Job α} {rest : α → Job β} {console later : Console}

theorem onRest (job : Job α) (rest : α → Job β) (console : Console) : (job >>= rest).on console =
    job.on console >>= fun reached => ExceptT.bindCont rest reached.1 reached.2 := rfl

theorem onOk {value : α} (done : job.on console = .ok (.ok value, later)) :
    (job >>= rest).on console = (rest value).on later := by
  rw [onRest, done]
  rfl

theorem onGet (rest : Console → Job β) (console : Console) :
    (get >>= rest).on console = (rest console).on console := rfl

theorem orAbortOk (value : α) : (orAbort (.ok value)).on console = .ok (.ok value, console) := rfl

theorem orAbortOn (step : Except Abort α) (rest : α → Job β) (console : Console) :
    (orAbort step >>= rest).on console = step >>= fun value => (rest value).on console := by
  cases step with
  | ok value => rfl
  | error abort => rfl

theorem onFail {failure : Failure} (done : job.on console = .ok (.error failure, later)) :
    (job >>= rest).on console = .ok (.error failure, later) := by
  rw [onRest, done]
  rfl

theorem onBind {outcome : Except Failure β} (done : (job >>= rest).on console = .ok (outcome, later)) :
    (∃ failure, job.on console = .ok (.error failure, later) ∧ outcome = .error failure) ∨
      ∃ value middle, job.on console = .ok (.ok value, middle) ∧
        (rest value).on middle = .ok (outcome, later) := by
  rw [onRest] at done
  obtain ⟨⟨reached, middle⟩, first, done⟩ := okBind done
  cases reached with
  | ok value => exact .inr ⟨value, middle, first, done⟩
  | error failure =>
    cases done
    exact .inl ⟨failure, first, rfl⟩

end

section
variable {settings : Settings} {console : Console} {path content : Bytes}

theorem readOn (settings : Settings) (path : Bytes) (console : Console) :
    (read settings path).on console = (do
      let (outcome, b, host) ←
        Transfer.load console.host .empty path .follow settings.files
      return ((outcome.map fun _ => b).mapError .transfer, { console with host })) := by
  have began : (read settings path).on console =
      (orAbort (Transfer.load console.host .empty path .follow settings.files) >>= fun loaded => do
        set { console with host := loaded.2.2 }
        let _ ← orFail .transfer loaded.1
        return loaded.2.1).on console := rfl
  rw [began]
  cases Transfer.load console.host .empty path .follow settings.files with
  | error abort => rfl
  | ok loaded =>
    obtain ⟨outcome, b, host⟩ := loaded
    cases outcome with
    | ok _ => rfl
    | error e => rfl

theorem loadFiles {host next : Host} {b given : Blob} {policy : LinkPolicy} {settings : FileSettings}
    {outcome : Except TransferError Nat}
    (done : Transfer.load host b path policy settings = .ok (outcome, given, next)) :
    next.files = host.files := by
  unfold Transfer.load at done
  split at done
  · obtain ⟨reached, -, done⟩ := okBind done
    cases done
    rfl
  · obtain ⟨reached, -, done⟩ := okBind done
    cases done
    rfl

theorem readFile (named : Transfer.isStandardStream path = false)
    (found : console.host.files.lookup .target path = .ok (.file content))
    (fits : content.length + 1 < sizeCeiling) :
    ∃ b, (read settings path).on console = .ok (.ok b, console) ∧ b.content = content := by
  obtain ⟨b, loaded, whole⟩ := Transfer.loadFound named found fits .empty settings.files
  refine ⟨b, ?_, whole⟩
  rw [readOn, loaded]
  rfl

theorem onOutputOn (step : Output → Except Abort (Except SystemError Unit × Output))
    (console : Console) : (onOutput step).on console = (do
      let (outcome, out) ← step console.out
      return (outcome.mapError .output, { console with out })) := by
  have began : (onOutput step).on console = (orAbort (step console.out) >>= fun stepped => do
      modify fun console => { console with out := stepped.2 }
      orFail .output stepped.1).on console := rfl
  rw [began]
  cases step console.out with
  | error abort => rfl
  | ok stepped =>
    obtain ⟨outcome, out⟩ := stepped
    cases outcome with
    | ok _ => rfl
    | error e => rfl

theorem emitOn {b : Blob} (apart : path ≠ Transfer.dash) : (emit b path).on console = (do
      set { console with host := (Transfer.save console.host b path).2 }
      let _ ← orFail .transfer (Transfer.save console.host b path).1 : Job Unit).on console := by
  rw [emit, if_neg apart]
  rfl

theorem emitFile {count : Nat} {now : FileTree} (named : Transfer.isStandardStream path = false)
    (done : Transfer.writePath console.host.files content path = (.ok count, now)) :
    (emit (Blob.held content) path).on console = .ok (.ok (), console.withFiles now) := by
  have apart : path ≠ Transfer.dash := by
    rintro rfl
    exact absurd named (by decide)
  have saved : Transfer.save console.host (Blob.held content) path =
      (.ok count, { console.host with files := now }) := by
    rw [Transfer.save, named, Blob.heldContent]
    simp only [done]
    rfl
  rw [emitOn apart, saved]
  rfl

theorem emitOutput {out : Output} (done : console.out.append content = .ok (.ok (), out)) :
    (emit (Blob.held content) Transfer.dash).on console = .ok (.ok (), { console with out }) := by
  rw [emit, if_pos rfl, Blob.heldContent, onOutputOn, done]
  rfl

theorem printLineOn {out : Output} {text : String}
    (done : console.out.appendFormatted [text, "\n"] = .ok (.ok (), out)) :
    (printLine text).on console = .ok (.ok (), { console with out }) := by
  rw [printLine, onOutputOn, done]
  rfl

def settingsOf (path : Bytes) (text : String) : Job Settings :=
  match Settings.ofText? text with
  | some settings => return settings
  | none => throw (.badSettings path)

theorem loadSettingsEq (path : Bytes) : loadSettings (some path) = (get >>= fun console =>
    orFail (.unreadableSettings path) (console.host.files.readText path) >>= settingsOf path) := rfl

theorem loadSettingsOn {path : Option Bytes} (loads : Loads console.host.files settings path) :
    (loadSettings path).on console = .ok (.ok settings, console) := by
  cases path with
  | none =>
    cases loads
    rfl
  | some path =>
    obtain ⟨text, read, known⟩ := loads
    rw [loadSettingsEq, onGet, read, onOk rfl, settingsOf, known]
    rfl

theorem openStoreOn {root : Bytes} {made : FileTree}
    (prepared : DirectoryStore.prepare console.host.files root = (.ok (), made)) :
    (openStore settings root).on console =
      .ok (.ok ⟨root, settings.store⟩, console.withFiles made) := by
  have began : (openStore settings root).on console =
      (do
        set (console.withFiles (DirectoryStore.prepare console.host.files root).2)
        orFail .store (DirectoryStore.prepare console.host.files root).1
        return ⟨root, settings.store⟩ : Job DirectoryStore).on console := rfl
  rw [began, prepared]
  rfl

def putInto [Zlib.Encoder] (store : DirectoryStore) (content : Blob) : Job Unit := do
  let (outcome, files) ← orAbort (store.put (← get).host.files content)
  modify fun console => { console with host := { console.host with files } }
  let id ← orFail .store outcome
  printLine id.hex

theorem storeFileEq [Zlib.Encoder] (settings : Settings) (file root : Bytes) :
    storeFile settings file root =
      (read settings file >>= fun content => openStore settings root >>= (putInto · content)) := rfl

theorem putIntoOn [Zlib.Encoder] (store : DirectoryStore) (content : Blob) (console : Console) :
    (putInto store content).on console = (do
      let (outcome, files) ← store.put console.host.files content
      match outcome with
      | .ok id => (printLine id.hex).on (console.withFiles files)
      | .error e => return (.error (.store e), console.withFiles files)) := by
  have began : (putInto store content).on console =
      (orAbort (store.put console.host.files content) >>= fun stepped => do
        modify fun console => console.withFiles stepped.2
        let id ← orFail .store stepped.1
        printLine id.hex).on console := rfl
  rw [began]
  cases store.put console.host.files content with
  | error abort => rfl
  | ok stepped =>
    obtain ⟨outcome, files⟩ := stepped
    cases outcome with
    | ok id => rfl
    | error e => rfl

def handOver (id : ArtifactId) (output : Bytes) : Option Blob → Job Unit
  | some content => emit content output
  | none => throw (.store (.missing id))

theorem fetchEq (settings : Settings) (name : String) (root output : Bytes) :
    fetch settings name root output =
      (orFail (.notAName name) (ArtifactId.ofHex (Utf8.ofString name)) >>= fun id =>
        openStore settings root >>= fun store => get >>= fun console =>
          orAbort (store.get console.host.files id) >>= fun found =>
            orFail .store found >>= handOver id output) := rfl

theorem unwrapOn {b given : Blob} {reason : Envelope.Fault → Failure}
    (done : Envelope.unwrap b = .ok (.ok given)) :
    (unwrap reason b).on console = .ok (.ok given, console) := by
  rw [unwrap, done]
  rfl

theorem loadSettingsEnds {path : Option Bytes} {outcome : Except Failure Settings} {later : Console}
    (done : (loadSettings path).on console = .ok (outcome, later)) :
    later = console ∧ match outcome with
      | .ok _ => True
      | .error failure =>
        ∃ path, failure = .badSettings path ∨ ∃ e, failure = .unreadableSettings path e := by
  cases path with
  | none =>
    cases done
    exact ⟨rfl, trivial⟩
  | some path =>
    rw [loadSettingsEq, onGet] at done
    cases read : console.host.files.readText path with
    | error e =>
      rw [read, onFail rfl] at done
      cases done
      exact ⟨rfl, path, .inr ⟨e, rfl⟩⟩
    | ok text =>
      rw [read, onOk rfl, settingsOf] at done
      split at done
      · cases done
        exact ⟨rfl, trivial⟩
      · cases done
        exact ⟨rfl, path, .inl rfl⟩

theorem readEnds {outcome : Except Failure Blob} {later : Console}
    (done : (read settings path).on console = .ok (outcome, later)) :
    later.host.files = console.host.files ∧ match outcome with
      | .ok b => b.WellFormed
      | .error failure => ∃ e, failure = .transfer e := by
  rw [readOn] at done
  obtain ⟨⟨ended, b, host⟩, loaded, done⟩ := okBind done
  have sound := Transfer.loadSound Blob.emptyWellFormed console.host path .follow settings.files
  rw [loaded] at sound
  cases ended with
  | ok _ =>
    cases done
    exact ⟨loadFiles loaded, sound⟩
  | error e =>
    cases done
    exact ⟨loadFiles loaded, e, rfl⟩

theorem printLineEnds {text : String} {outcome : Except Failure Unit} {later : Console}
    (done : (printLine text).on console = .ok (outcome, later)) :
    later.host = console.host ∧ match outcome with
      | .ok _ => True
      | .error failure => ∃ e, failure = .output e := by
  rw [printLine, onOutputOn] at done
  obtain ⟨⟨ended, out⟩, -, done⟩ := okBind done
  cases ended with
  | ok _ =>
    cases done
    exact ⟨rfl, trivial⟩
  | error e =>
    cases done
    exact ⟨rfl, e, rfl⟩

end

end Job

end ArtifactVault.CommandLine
