import ArtifactVault.Proofs.Store.Install
import ArtifactVault.Proofs.Store.Listing
import ArtifactVault.Proofs.Store.Memory

/-! Stores of both kinds answer every run of calls as the map does that they stand for, so they
answer alike. -/
namespace ArtifactVault.DirectoryStore
open FileTree Store

section
variable [Zlib.Encoder] {origin t : FileTree} {root : Bytes} {base : Place}
  (settings : StoreSettings) {m : Contents}

theorem Stands.put (stands : Stands origin t base m) (vacant : Vacant origin root base)
    {content : Blob} (fits : Fits content.content) :
    ∃ now, (⟨root, settings⟩ : DirectoryStore).put t content =
        .ok (.ok (.compute settings.algorithm content.content), now) ∧
      Stands origin now base (m.add (.compute settings.algorithm content.content) content.content) := by
  have taken := stands.pathExists settings vacant
    (.compute settings.algorithm content.content)
  by_cases present : ArtifactId.compute settings.algorithm content.content ∈ m
  · refine ⟨t, ?_, ?_⟩
    · rw [decide_eq_true present] at taken
      simp only [DirectoryStore.put, packEq fits, bind, Except.bind, taken]
      rfl
    · rw [Contents.add, if_pos present]
      exact stands
  · obtain ⟨now, installed, after⟩ := stands.install vacant present content.content
    refine ⟨now, ?_, ?_⟩
    · rw [decide_eq_false present, pathEq] at taken
      simp only [DirectoryStore.put, packEq fits, bind, Except.bind, taken, shardPathEq, pathEq,
        Blob.heldContent, installed]
      rfl
    · rw [Contents.add, if_neg present]
      exact after

end

theorem directoryFollows [Zlib.Encoder] [Zlib.LawfulEncoder] {origin : FileTree} {root : Bytes}
    {base : Place} (vacant : Vacant origin root base) (settings : StoreSettings) :
    Follows settings.algorithm fun state m =>
      ∃ t, state = ⟨.directory ⟨root, settings⟩, t⟩ ∧ Stands origin t base m := by
  rintro _ m call ⟨t, rfl, stands⟩ faithful admissible
  have got (id : ArtifactId) := stands.get settings vacant faithful id
  have counted := stands.size settings vacant
  cases call with
  | put content =>
    obtain ⟨now, kept, after⟩ := stands.put settings vacant admissible
    refine ⟨_, ?_, now, rfl, after⟩
    simp only [State.call, callDirectory, kept, bind, Except.bind]
    rfl
  | get id =>
    refine ⟨_, ?_, t, rfl, stands⟩
    simp only [State.call, callDirectory, got, bind, Except.bind]
    rfl
  | getRequired id =>
    refine ⟨_, ?_, t, rfl, stands⟩
    simp only [State.call, callDirectory, got, bind, Except.bind, Contents.call, Contents.required]
    cases m.lookup id with
    | none => rfl
    | some content => rfl
  | contains id =>
    refine ⟨_, ?_, t, rfl, stands⟩
    simp only [State.call, callDirectory, stands.contains settings vacant]
    rfl
  | delete id =>
    obtain ⟨now, deleted, after⟩ := stands.delete settings vacant id
    refine ⟨_, ?_, now, rfl, after⟩
    simp only [State.call, callDirectory, deleted]
    rfl
  | size =>
    refine ⟨_, ?_, t, rfl, stands⟩
    simp only [State.call, callDirectory, counted]
    rfl
  | isEmpty =>
    refine ⟨_, ?_, t, rfl, stands⟩
    simp only [State.call, callDirectory, counted]
    rfl

end ArtifactVault.DirectoryStore

namespace ArtifactVault.Store
open FileTree DirectoryStore

def State.naming (state : State) (algorithm : Algorithm) : State :=
  match state.store with
  | .memory s => { state with store := .memory { s with settings := { s.settings with algorithm } } }
  | .directory s =>
    { state with store := .directory { s with settings := { s.settings with algorithm } } }

section
variable [Zlib.Encoder]

/-- A store answers calls as an empty map does. After them it reads what the map has, whatever
algorithm its settings name, and what is deleted comes back when it is put again. -/
def AnswersAsMap (settings : StoreSettings) (calls : List Call) (state : State) : Prop :=
  ∃ after, state.run calls = .ok ((Contents.run settings.algorithm ∅ calls).1, after) ∧
    (∀ id algorithm, (after.naming algorithm).call (.get id) =
      .ok (.content (((Contents.run settings.algorithm ∅ calls).2.lookup id).map Blob.held),
        after.naming algorithm)) ∧
    ∀ content : Blob, Fits content.content →
      ∃ flag again, after.run [.delete (.compute settings.algorithm content.content), .put content,
          .get (.compute settings.algorithm content.content)] =
        .ok ([.flag flag, .id (.compute settings.algorithm content.content),
          .content (some (Blob.held content.content))], again)

theorem answersAsMap {settings : StoreSettings} {calls : List Call} {state : State}
    {represents : State → Contents → Prop} (follows : Follows settings.algorithm represents)
    (start : represents state ∅) (admissible : ∀ call ∈ calls, Admissible call)
    (reads : ∀ after m, represents after m → Faithful m → ∀ id algorithm,
      (after.naming algorithm).call (.get id) =
        .ok (.content ((m.lookup id).map Blob.held), after.naming algorithm)) :
    AnswersAsMap settings calls state := by
  obtain ⟨after, answered, stands, faithful⟩ := runFollows follows start faithfulEmpty admissible
  refine ⟨after, answered, reads after _ stands faithful, fun content fits => ?_⟩
  have three : ∀ call ∈ [Call.delete (.compute settings.algorithm content.content), .put content,
      .get (.compute settings.algorithm content.content)], Admissible call := by
    intro call mem
    simp only [List.mem_cons, List.not_mem_nil, or_false] at mem
    rcases mem with rfl | rfl | rfl
    · trivial
    · exact fits
    · trivial
  obtain ⟨again, repeated, -⟩ := runFollows follows stands faithful three
  rw [restored] at repeated
  exact ⟨_, again, repeated⟩

theorem storesAnswerAlike [Zlib.LawfulEncoder] {files : FileTree} {root : Bytes} {base : Place}
    {settings : StoreSettings} {calls : List Call} (vacant : Vacant files root base)
    (admissible : ∀ call ∈ calls, Admissible call) :
    AnswersAsMap settings calls ⟨.directory ⟨root, settings⟩, files⟩ ∧
      AnswersAsMap settings calls ⟨.memory (.empty settings), files⟩ ∧
      ∀ e, .failed e ∈ (Contents.run settings.algorithm ∅ calls).1 → ∃ id, e = .missing id := by
  refine ⟨?_, ?_, fun e mem => failedMissing mem⟩
  · refine answersAsMap (directoryFollows vacant settings) ⟨files, rfl, standsAtFirst vacant⟩
      admissible ?_
    rintro _ m ⟨t, rfl, stands⟩ faithful id algorithm
    have got := stands.get { settings with algorithm } vacant faithful id
    simp only [State.call, State.naming, callDirectory, got, bind, Except.bind]
    rfl
  · refine answersAsMap (MemoryStore.memoryFollows settings files)
      ⟨_, rfl, rfl, MemoryStore.standsEmpty settings⟩ admissible ?_
    rintro _ m ⟨s, rfl, rfl, stands⟩ faithful id algorithm
    have named : MemoryStore.Stands { s with settings := { s.settings with algorithm } } m :=
      ⟨stands.envelopes, stands.once⟩
    have got := named.get faithful id
    simp only [State.call, State.naming, callMemory, got, bind, Except.bind]
    rfl

end

def letterRoot : FileTree := ⟨[([[0x72]], .directory)]⟩

theorem letterRootVacant : Vacant letterRoot [0x72] [[0x72]] := by
  have top : letterRoot.node? [] = some .directory := rfl
  have there : letterRoot.node? ([] ++ [[0x72]]) = some .directory := rfl
  have plain : Plain [0x72] := ⟨⟨by decide, by decide⟩, by decide⟩
  refine ⟨?_, there, fun place below => ?_, by decide⟩
  · have walks : letterRoot.walk .target mostLinks [] [[0x72]] = .ok [[0x72]] := by
      have enters : ¬ (Goal.target = .output ∧ ([] : List Bytes) = [[]]) := fun both => nomatch both.1
      rw [walkDown top plain enters there (fun _ => nofun), walk]
      rfl
    exact walks
  · obtain ⟨name, names, rfl⟩ := belowNames below
    rfl

theorem letterTokens : Deflate.tokenize #[0x61] = [.byte 0x61] := by
  have unseen (key : Nat) : (Array.replicate Deflate.keys 0).getD key 0 = 0 := by
    rw [Array.getD_eq_getD_getElem?, Array.getElem?_replicate]
    split <;> rfl
  have copies (i : Nat) : Deflate.copyAt #[0x61] i 0 = none := if_pos (.inl rfl)
  simp only [Deflate.tokenize, List.size_toArray, List.length_cons, List.length_nil,
    Deflate.tokensOnto, unseen, copies, Nat.lt_irrefl, if_false]
  rfl

theorem letterFits : Fits [0x61] := by
  have coded : (Deflate.encodeTokens [.byte 0x61]).length = 18 := by decide +kernel
  have bits : (Deflate.encode [0x61]).length = 18 := by rw [Deflate.encode, letterTokens, coded]
  have packed := Bits.lengthPackLe (Deflate.encode [0x61])
  have ceiling : sizeCeiling = 0x7fff0000 := rfl
  refine ⟨by decide, ?_⟩
  rw [Envelope.lengthEnvelopeOf, Zlib.encodeSingle, Zlib.lengthEncode, Envelope.headerLength]
  omega

theorem storesOfLetter :
    let settings : StoreSettings := .standard
    let calls : List Call := [.put (Blob.held [0x61]), .get (.compute .sha3 [0x61]), .size]
    AnswersAsMap settings calls ⟨.directory ⟨[0x72], settings⟩, letterRoot⟩ ∧
      AnswersAsMap settings calls ⟨.memory (.empty settings), letterRoot⟩ ∧
      ∀ e, .failed e ∈ (Contents.run settings.algorithm ∅ calls).1 → ∃ id, e = .missing id := by
  refine storesAnswerAlike letterRootVacant fun call mem => ?_
  simp only [List.mem_cons, List.not_mem_nil, or_false] at mem
  rcases mem with rfl | rfl | rfl
  · exact letterFits
  · trivial
  · trivial

end ArtifactVault.Store
