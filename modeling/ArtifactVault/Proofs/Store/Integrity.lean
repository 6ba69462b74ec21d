import ArtifactVault.Proofs.Envelope
import ArtifactVault.Proofs.Transfer
import ArtifactVault.Store.Call

/-! What a verified read says of the bytes that are stored, whatever they are. A content is named by
its hash or it is not handed out, and each failure tells what is wrong with the envelope. -/
namespace ArtifactVault

def Store.settings : Store → StoreSettings
  | .memory s => s.settings
  | .directory s => s.settings

namespace Store

def opened (settings : StoreSettings) (id : ArtifactId) (envelope : Bytes) :
    Except StoreError Blob :=
  match Envelope.unwrapBytes envelope with
  | .error fault => .error (.corrupt id fault)
  | .ok content => verify settings id (Blob.held content)

theorem unpackOpened (settings : StoreSettings) (id : ArtifactId) (envelope : Blob) :
    unpack settings id envelope = .ok (opened settings id envelope.content) := by
  simp only [unpack, opened, Envelope.unwrapEq]
  cases Envelope.unwrapBytes envelope.content with
  | error fault => rfl
  | ok content => rfl

inductive Truthful (id : ArtifactId) (stored : Option Bytes) : Answer → Prop where
  | absent (nothing : stored = none) : Truthful id stored (.content none)
  | unreadable (e : TransferError) (nothing : stored = none) :
      Truthful id stored (.failed (.transfer e))
  | content {envelope : Bytes} {c : Blob} (found : stored = some envelope)
      (unwraps : Envelope.unwrapBytes envelope = .ok c.content)
      (named : ArtifactId.compute id.algorithm c.content = id) :
      Truthful id stored (.content (some c))
  | mismatch {envelope content : Bytes} (found : stored = some envelope)
      (unwraps : Envelope.unwrapBytes envelope = .ok content)
      (other : ArtifactId.compute id.algorithm content ≠ id) :
      Truthful id stored (.failed (.mismatch id (.compute id.algorithm content)))
  | corrupt {envelope : Bytes} {fault : Envelope.Fault} (found : stored = some envelope)
      (fails : Envelope.unwrapBytes envelope = .error fault) :
      Truthful id stored (.failed (.corrupt id fault))

theorem openedTruthful {settings : StoreSettings} (verifies : settings.verifyReads = true)
    (id : ArtifactId) (envelope : Bytes) :
    Truthful id (some envelope) (.of .content ((opened settings id envelope).map some)) := by
  unfold opened
  cases unwraps : Envelope.unwrapBytes envelope with
  | error fault => exact .corrupt rfl unwraps
  | ok content =>
    have whole := Blob.heldContent content
    simp only [verify, verifies, Bool.true_and, whole]
    by_cases named : ArtifactId.compute id.algorithm content = id
    · have verified : id.verifies content = true := decide_eq_true named
      rw [verified]
      exact .content rfl (by rw [whole]; exact unwraps) (by rw [whole]; exact named)
    · have refused : id.verifies content = false := decide_eq_false named
      rw [refused]
      exact .mismatch rfl unwraps named

def State.stored? (state : State) (id : ArtifactId) : Option Bytes :=
  match state.store with
  | .memory s => s.envelope? id
  | .directory s =>
    match state.files.lookup .target (s.path id) with
    | .ok (.file envelope) => some envelope
    | _ => none

def State.Unlinked (state : State) : Prop :=
  match state.store with
  | .memory _ => True
  | .directory _ => state.files.Unlinked

end Store

theorem MemoryStore.getOpened {s : MemoryStore} {id : ArtifactId} {envelope : Bytes}
    (found : s.envelope? id = some envelope) (fits : envelope.length < sizeCeiling) :
    s.get id = .ok ((Store.opened s.settings id envelope).map some) := by
  have whole : (⟨envelope, .borrowed, envelope.length, 0, false⟩ : Blob).content = envelope :=
    List.take_length
  simp only [get, found, Blob.borrow, checkCeiling, if_neg (Nat.not_le_of_lt fits), bind, Except.bind,
    pure, Except.pure, Store.unpackOpened, whole]

namespace DirectoryStore
open FileTree

def answered (settings : StoreSettings) (id : ArtifactId) :
    Except SystemError Node → Except StoreError (Option Blob)
  | .ok (.file envelope) => (Store.opened settings id envelope).map some
  | .ok _ => .error (.transfer (.system .isADirectory))
  | .error .notFound => .ok none
  | .error e => .error (.transfer (.system e))

theorem getAnswered {s : DirectoryStore} {t : FileTree} {id : ArtifactId} (unlinked : t.Unlinked)
    (fits : ∀ envelope, t.lookup .target (s.path id) = .ok (.file envelope) →
      envelope.length + 1 < sizeCeiling) :
    s.get t id = .ok (answered s.settings id (t.lookup .target (s.path id))) := by
  have itself := lookupUnlinked unlinked (s.path id)
  unfold get
  cases found : t.lookup .target (s.path id) with
  | error e =>
    rw [found] at itself
    cases e with
    | notFound =>
      simp only [Transfer.readPath, itself]
      rfl
    | _ =>
      simp only [Transfer.readPath, itself]
      rfl
  | ok node =>
    rw [found] at itself
    cases node with
    | file envelope =>
      obtain ⟨b, read, whole⟩ := @Transfer.readPathFile t .empty _ _ itself found (fits _ found)
        .follow .standard
      simp only [read, bind, Except.bind, Store.unpackOpened, whole]
      rfl
    | directory =>
      obtain ⟨r, read⟩ := Transfer.readOpenedDirectory .empty
      simp only [Transfer.readPath, itself, found]
      simp only [read, bind, Except.bind]
      rfl
    | link target =>
      obtain ⟨place, -, there⟩ := lookupFound found
      exact absurd there (unlinked place target)

end DirectoryStore

namespace Store

theorem readTruthful [Zlib.Encoder] {state : State} {id : ArtifactId}
    (verifies : state.store.settings.verifyReads = true) (unlinked : state.Unlinked)
    (fits : ∀ envelope, state.stored? id = some envelope → envelope.length + 1 < sizeCeiling) :
    ∃ answer, state.call (.get id) = .ok (answer, state) ∧
      Truthful id (state.stored? id) answer := by
  obtain ⟨store, files⟩ := state
  cases store with
  | memory s =>
    cases found : s.envelope? id with
    | none =>
      have got : s.get id = .ok (.ok none) := by simp only [MemoryStore.get, found]
      refine ⟨.content none, ?_, .absent found⟩
      simp only [State.call, callMemory, got]
      rfl
    | some envelope =>
      have got := MemoryStore.getOpened found (Nat.lt_of_succ_lt (fits envelope found))
      refine ⟨.of .content ((opened s.settings id envelope).map some), ?_, ?_⟩
      · simp only [State.call, callMemory, got]
        rfl
      · have truthful := openedTruthful verifies id envelope
        rwa [← found] at truthful
  | directory s =>
    have got := @DirectoryStore.getAnswered s files id unlinked fun envelope found =>
      fits envelope (by simp only [State.stored?, found])
    refine ⟨.of .content (DirectoryStore.answered s.settings id
      (files.lookup .target (s.path id))), ?_, ?_⟩
    · simp only [State.call, callDirectory, got]
      rfl
    · simp only [State.stored?]
      cases found : files.lookup .target (s.path id) with
      | error e =>
        cases e with
        | notFound => exact .absent rfl
        | _ => exact .unreadable _ rfl
      | ok node =>
        cases node with
        | file envelope => exact openedTruthful verifies id envelope
        | _ => exact .unreadable _ rfl

end Store

end ArtifactVault
