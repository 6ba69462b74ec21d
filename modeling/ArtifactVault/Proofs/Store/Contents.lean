import ArtifactVault.Proofs.Envelope
import ArtifactVault.Proofs.Keyed
import ArtifactVault.Store.Call
import Mathlib.Data.Finmap

/-! The map from names to contents that every store stands for, and what a call does to it. What is
packed under a name is unpacked again, whatever algorithm the settings name for new artifacts. -/
namespace ArtifactVault.Store

abbrev Contents := Finmap fun _ : ArtifactId => Bytes

namespace Contents

def add (m : Contents) (id : ArtifactId) (content : Bytes) : Contents :=
  if id ∈ m then m else m.insert id content

def required (m : Contents) (id : ArtifactId) : Answer :=
  match m.lookup id with
  | some content => .content (some (Blob.held content))
  | none => .failed (.missing id)

def call (algorithm : Algorithm) (m : Contents) : Call → Answer × Contents
  | .put content =>
    let id := ArtifactId.compute algorithm content.content
    (.id id, m.add id content.content)
  | .get id => (.content ((m.lookup id).map Blob.held), m)
  | .getRequired id => (m.required id, m)
  | .contains id => (.flag (id ∈ m), m)
  | .delete id => (.flag (id ∈ m), m.erase id)
  | .size => (.count m.keys.card, m)
  | .isEmpty => (.flag (m.keys.card = 0), m)

def run (algorithm : Algorithm) (m : Contents) : List Call → List Answer × Contents
  | [] => ([], m)
  | call :: calls =>
    let (answer, m) := m.call algorithm call
    let (answers, m) := m.run algorithm calls
    (answer :: answers, m)

end Contents

theorem failedMissing {algorithm : Algorithm} {e : StoreError} {calls : List Call} :
    ∀ {m : Contents}, Answer.failed e ∈ (m.run algorithm calls).1 → ∃ id, e = .missing id := by
  induction calls with
  | nil => exact fun mem => nomatch mem
  | cons call calls ih =>
    intro m mem
    rcases List.mem_cons.mp mem with here | later
    · cases call with
      | getRequired id =>
        change _ = m.required id at here
        unfold Contents.required at here
        cases found : m.lookup id with
        | none =>
          rw [found] at here
          cases here
          exact ⟨id, rfl⟩
        | some content =>
          rw [found] at here
          cases here
      | _ => cases here
    · exact ih later

theorem restored (m : Contents) (algorithm : Algorithm) (content : Blob) :
    let id := ArtifactId.compute algorithm content.content
    (m.run algorithm [.delete id, .put content, .get id]).1 =
      [.flag (id ∈ m), .id id, .content (some (Blob.held content.content))] := by
  intro id
  have again : Contents.add (m.erase id) id content.content =
      (m.erase id).insert id content.content :=
    if_neg (Finmap.lookup_eq_none.mp (Finmap.lookup_erase id m))
  simp only [Contents.run, Contents.call]
  rw [again, Finmap.lookup_insert]
  rfl

theorem eraseAbsent {m : Contents} {id : ArtifactId} (absent : id ∉ m) : m.erase id = m := by
  refine Finmap.ext_lookup fun other => ?_
  by_cases same : other = id
  · rw [same, Finmap.lookup_erase, Finmap.lookup_eq_none.mpr absent]
  · exact Finmap.lookup_erase_ne same

section
variable [Zlib.Encoder]

structure Fits (content : Bytes) : Prop where
  inside : content.length + 1 < sizeCeiling
  wrapped : (Envelope.envelopeOf [content]).length + 1 < sizeCeiling

def Admissible : Call → Prop
  | .put content => Fits content.content
  | _ => True

structure Faithful (m : Contents) : Prop where
  named : ∀ id content, m.lookup id = some content → ArtifactId.compute id.algorithm content = id
  fits : ∀ id content, m.lookup id = some content → Fits content

theorem faithfulEmpty : Faithful ∅ := by
  refine ⟨fun id content found => ?_, fun id content found => ?_⟩
  · cases found
  · cases found

theorem faithfulAdd {m : Contents} {content : Bytes} (faithful : Faithful m) (fits : Fits content)
    (algorithm : Algorithm) : Faithful (m.add (.compute algorithm content) content) := by
  have either {id : ArtifactId} {other : Bytes}
      (found : (m.insert (.compute algorithm content) content).lookup id = some other) :
      id = .compute algorithm content ∧ other = content ∨ m.lookup id = some other := by
    by_cases here : id = .compute algorithm content
    · rw [here, Finmap.lookup_insert] at found
      exact .inl ⟨here, (Option.some.inj found).symm⟩
    · rw [Finmap.lookup_insert_of_ne _ here] at found
      exact .inr found
  unfold Contents.add
  split
  · exact faithful
  · refine ⟨fun id other found => ?_, fun id other found => ?_⟩
    · rcases either found with ⟨rfl, rfl⟩ | found
      · rfl
      · exact faithful.named id other found
    · rcases either found with ⟨rfl, rfl⟩ | found
      · exact fits
      · exact faithful.fits id other found

theorem faithfulErase {m : Contents} (faithful : Faithful m) (id : ArtifactId) :
    Faithful (m.erase id) := by
  have kept {other : ArtifactId} {content : Bytes} (found : (m.erase id).lookup other = some content) :
      m.lookup other = some content := by
    by_cases here : other = id
    · rw [here, Finmap.lookup_erase] at found
      cases found
    · rwa [Finmap.lookup_erase_ne here] at found
  exact ⟨fun _ _ found => faithful.named _ _ (kept found),
    fun _ _ found => faithful.fits _ _ (kept found)⟩

theorem faithfulCall {m : Contents} {call : Call} (faithful : Faithful m)
    (admissible : Admissible call) (algorithm : Algorithm) :
    Faithful (m.call algorithm call).2 := by
  cases call with
  | put content => exact faithfulAdd faithful admissible algorithm
  | delete id => exact faithfulErase faithful id
  | _ => exact faithful

theorem wrapEq {content : Blob} (fits : Fits content.content) :
    Envelope.wrap content = .ok (Blob.held (Envelope.envelopeOf [content.content])) := by
  have small : [content.content].flatten.length < UInt32.size := by
    have below := fits.inside
    have ceiling : sizeCeiling = 0x7fff0000 := rfl
    rw [List.flatten_singleton, UInt32.size]
    omega
  have room : ¬ sizeCeiling ≤ (Envelope.envelopeOf [content.content]).length := by
    have below := fits.wrapped
    omega
  rw [Envelope.wrap, Envelope.wrapAllEq small, Blob.ofBytesEq, if_neg room]

theorem packEq {content : Blob} (fits : Fits content.content) (settings : StoreSettings) :
    pack settings content = .ok (.compute settings.algorithm content.content,
      Blob.held (Envelope.envelopeOf [content.content])) := by
  rw [pack, wrapEq fits]
  rfl

theorem unpackEq [Zlib.LawfulEncoder] {id : ArtifactId} {content : Bytes} {envelope : Blob}
    (named : ArtifactId.compute id.algorithm content = id) (fits : Fits content)
    (wrapped : envelope.content = Envelope.envelopeOf [content]) (settings : StoreSettings) :
    unpack settings id envelope = .ok (.ok (Blob.held content)) := by
  have opened := Envelope.unwrapOfSingle wrapped fits.inside
  have verified : id.verifies content = true := decide_eq_true named
  simp only [unpack, opened, verify, Blob.heldContent, bind, Except.bind, verified, Bool.not_true,
    Bool.and_false]
  rfl

end

section
variable [Zlib.Encoder] {algorithm : Algorithm} {represents : State → Contents → Prop}

def Follows (algorithm : Algorithm) (represents : State → Contents → Prop) : Prop :=
  ∀ state m call, represents state m → Faithful m → Admissible call →
    ∃ after, state.call call = .ok ((m.call algorithm call).1, after) ∧
      represents after (m.call algorithm call).2

theorem runFollows (follows : Follows algorithm represents) {calls : List Call} :
    ∀ {state : State} {m : Contents}, represents state m → Faithful m →
      (∀ call ∈ calls, Admissible call) →
      ∃ after, state.run calls = .ok ((m.run algorithm calls).1, after) ∧
        represents after (m.run algorithm calls).2 ∧ Faithful (m.run algorithm calls).2 := by
  induction calls with
  | nil => exact fun stands faithful _ => ⟨_, rfl, stands, faithful⟩
  | cons call calls ih =>
    intro state m stands faithful admissible
    have here := admissible call (by simp)
    obtain ⟨next, answered, stands⟩ := follows state m call stands faithful here
    obtain ⟨after, rest, stands⟩ := ih stands (faithfulCall faithful here algorithm)
      fun call mem => admissible call (by simp [mem])
    refine ⟨after, ?_, stands⟩
    simp only [State.run, answered, bind, Except.bind, rest]
    rfl

end

end ArtifactVault.Store
