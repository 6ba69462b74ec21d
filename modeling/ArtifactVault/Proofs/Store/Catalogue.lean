import ArtifactVault.Proofs.ArtifactId.Order
import ArtifactVault.Proofs.Store.Agreement

/-! What a store in memory tells of all its artifacts. The order in which its envelopes are come upon
does not show, and neither does the order in which they were put. -/
namespace ArtifactVault.MemoryStore
open Store Keyed

def Shuffled (s t : MemoryStore) : Prop := t.envelopes.Perm s.envelopes

structure Listed (s t : MemoryStore) : Prop where
  increasing : t.ids.Pairwise ArtifactId.Before
  exact : ∀ id, (id ∈ t.ids ↔ t.contains id = true) ∧ t.contains id = s.contains id
  counted : t.ids.length = t.size ∧ t.size = s.size
  ids : t.ids = s.ids
  totalBytes : t.totalBytes = s.totalBytes

theorem shuffledListed {s t : MemoryStore} (once : s.Once) (shuffled : s.Shuffled t) :
    Listed s t := by
  have names := shuffled.map (·.1)
  refine ⟨ArtifactId.sortedBefore (names.nodup_iff.mpr once), fun id => ⟨?_, ?_⟩, ⟨?_, ?_⟩, ?_, ?_⟩
  · rw [MemoryStore.ids, ArtifactId.sort, List.mem_mergeSort, foundIff]
    rfl
  · rw [contains, contains, envelope?, envelope?, lookupPerm once shuffled]
  · rw [MemoryStore.ids, ArtifactId.sort, List.length_mergeSort, List.length_map, size]
  · exact shuffled.length_eq
  · exact ArtifactId.sortedAlike once names
  · exact (shuffled.flatMap_right _).length_eq

section
variable [Zlib.Encoder] {s : MemoryStore} {files : FileTree}

theorem callMemoryOnce {next : MemoryStore} {call : Call} {answer : Answer} (once : s.Once)
    (done : callMemory s call = .ok (answer, next)) : next.Once := by
  cases call with
  | put content =>
    obtain ⟨⟨id, later⟩, done, same⟩ := okBind done
    obtain ⟨⟨_, envelope⟩, -, put⟩ := okBind done
    cases put
    cases same
    exact insertNewOnce once _ _
  | get id =>
    obtain ⟨_, -, same⟩ := okBind done
    cases same
    exact once
  | getRequired id =>
    obtain ⟨_, -, same⟩ := okBind done
    cases same
    exact once
  | delete id =>
    cases done
    exact deleteOnce once id
  | _ =>
    cases done
    exact once

theorem callEq (call : Call) : State.call ⟨.memory s, files⟩ call =
    (callMemory s call).map fun done => (done.1, ⟨.memory done.2, files⟩) := by
  cases one : callMemory s call with
  | error cause => simp only [State.call, one, bind, Except.bind, Except.map]
  | ok done => simp only [State.call, one, bind, Except.bind, pure, Except.pure, Except.map]

theorem runOnce {calls : List Call} {answers : List Answer} {after : State} (once : s.Once)
    (done : State.run ⟨.memory s, files⟩ calls = .ok (answers, after)) :
    ∃ last : MemoryStore, after = ⟨.memory last, files⟩ ∧ last.Once := by
  induction calls generalizing s answers with
  | nil =>
    cases done
    exact ⟨s, rfl, once⟩
  | cons call calls ih =>
    obtain ⟨⟨answer, state⟩, called, done⟩ := okBind done
    obtain ⟨⟨more, last⟩, rest, same⟩ := okBind done
    cases same
    rw [callEq] at called
    cases one : callMemory s call with
    | error cause =>
      rw [one] at called
      cases called
    | ok step =>
      rw [one] at called
      cases called
      exact ih (callMemoryOnce once one) rest

def Packs (content : Blob) : Prop := ∃ envelope, Envelope.wrap content = .ok envelope

def Changes : Call → Prop
  | .put content => Packs content
  | .delete _ => True
  | _ => False

theorem putPacked {content : Blob} (packs : Packs content) :
    s.put content = .ok (.compute s.settings.algorithm content.content,
      s.insertNew (.compute s.settings.algorithm content.content)
        (Envelope.envelopeOf [content.content])) := by
  obtain ⟨envelope, wrapped⟩ := packs
  have whole := (Envelope.wrappedContent wrapped).1
  simp only [put, pack, wrapped, bind, Except.bind, pure, Except.pure, whole]

theorem changesRun {calls : List Call} (changes : ∀ call ∈ calls, Changes call) :
    ∃ answers after, State.run ⟨.memory s, files⟩ calls = .ok (answers, after) := by
  induction calls generalizing s with
  | nil => exact ⟨[], _, rfl⟩
  | cons call calls ih =>
    have step : ∃ done, callMemory s call = .ok done := by
      have change := changes call List.mem_cons_self
      cases call with
      | put content =>
        rw [callMemory, putPacked change]
        exact ⟨_, rfl⟩
      | delete id => exact ⟨_, rfl⟩
      | _ => exact change.elim
    obtain ⟨⟨answer, next⟩, called⟩ := step
    obtain ⟨answers, after, rest⟩ := @ih next fun call mem => changes call (List.mem_cons_of_mem _ mem)
    refine ⟨answer :: answers, after, ?_⟩
    rw [State.run, callEq, called]
    simp only [Except.map, bind, Except.bind, rest]
    rfl

def firstEnvelope (algorithm : Algorithm) (contents : List Blob) (id : ArtifactId) : Option Bytes :=
  (contents.find? fun content => ArtifactId.compute algorithm content.content = id).map fun content =>
    Envelope.envelopeOf [content.content]

theorem putsRun {contents : List Blob} (packs : ∀ content ∈ contents, Packs content)
    (once : s.Once) : ∃ t, State.run ⟨.memory s, files⟩ (contents.map .put) =
        .ok (contents.map fun content => .id (.compute s.settings.algorithm content.content),
          ⟨.memory t, files⟩) ∧ t.Once ∧
      ∀ id, t.envelope? id =
        (s.envelope? id).or (firstEnvelope s.settings.algorithm contents id) := by
  induction contents generalizing s with
  | nil => exact ⟨s, rfl, once, fun id => Option.or_none.symm⟩
  | cons content contents ih =>
    have put := @putPacked _ s content (packs content List.mem_cons_self)
    obtain ⟨t, ran, onceAfter, found⟩ := ih
      (fun other mem => packs other (List.mem_cons_of_mem _ mem))
      (insertNewOnce once (.compute s.settings.algorithm content.content)
        (Envelope.envelopeOf [content.content]))
    rw [settingsInsertNew] at ran found
    refine ⟨t, ?_, onceAfter, fun id => ?_⟩
    · rw [List.map_cons, State.run, callEq, callMemory, put]
      simp only [Except.map, bind, Except.bind, pure, Except.pure, ran]
      rfl
    · rw [found, envelopeInsertNew, Option.or_assoc]
      congr 1
      rw [firstEnvelope, firstEnvelope, List.find?_cons]
      by_cases same : ArtifactId.compute s.settings.algorithm content.content = id
      · rw [if_pos same.symm, decide_eq_true same, Option.some_or, Option.map_some]
      · rw [if_neg (Ne.symm same), decide_eq_false same, Option.none_or]

def Distinct (algorithm : Algorithm) (contents : List Blob) : Prop :=
  ∀ c ∈ contents, ∀ d ∈ contents,
    ArtifactId.compute algorithm c.content = ArtifactId.compute algorithm d.content →
      c.content = d.content

theorem firstEnvelopePerm {algorithm : Algorithm} {contents others : List Blob}
    (perm : others.Perm contents) (distinct : Distinct algorithm contents) (id : ArtifactId) :
    firstEnvelope algorithm others id = firstEnvelope algorithm contents id := by
  rw [firstEnvelope, firstEnvelope]
  cases first : contents.find? fun content => ArtifactId.compute algorithm content.content = id with
  | none =>
    have missing := List.find?_eq_none.mp first
    rw [List.find?_eq_none.mpr fun content mem => missing content (perm.mem_iff.mp mem)]
  | some content =>
    have mem := List.mem_of_find?_eq_some first
    have named : ArtifactId.compute algorithm content.content = id := by
      simpa using List.find?_some first
    cases second : others.find? fun other => ArtifactId.compute algorithm other.content = id with
    | none =>
      have missing := List.find?_eq_none.mp second content (perm.mem_iff.mpr mem)
      exact absurd (decide_eq_true named) missing
    | some other =>
      have alike : ArtifactId.compute algorithm other.content = id := by
        simpa using List.find?_some second
      have same := distinct other (perm.mem_iff.mp (List.mem_of_find?_eq_some second)) content mem
        (alike.trans named.symm)
      rw [Option.map_some, Option.map_some, same]

theorem listingsForgetHistory (settings : StoreSettings) (files : FileTree) :
    (∀ x y, (ArtifactId.compare x y = .lt ↔ x.Before y) ∧ (ArtifactId.compare x y = .eq ↔ x = y) ∧
      (ArtifactId.compare x y = .gt ↔ y.Before x)) ∧
    (∀ (calls : List Call) answers after,
      State.run ⟨.memory (.empty settings), files⟩ calls = .ok (answers, after) →
        ∃ s : MemoryStore, after = ⟨.memory s, files⟩ ∧ ∀ t, s.Shuffled t → Listed s t) ∧
    (∀ calls : List Call, (∀ call ∈ calls, Changes call) → ∃ answers after,
      State.run ⟨.memory (.empty settings), files⟩ calls = .ok (answers, after)) ∧
    ∀ contents others : List Blob, others.Perm contents → (∀ content ∈ contents, Packs content) →
      Distinct settings.algorithm contents →
      ∃ answers again s t,
        State.run ⟨.memory (.empty settings), files⟩ (contents.map .put) =
          .ok (answers, ⟨.memory s, files⟩) ∧
        State.run ⟨.memory (.empty settings), files⟩ (others.map .put) =
          .ok (again, ⟨.memory t, files⟩) ∧
        ∀ x y, s.Shuffled x → t.Shuffled y → x.ids = y.ids ∧ x.totalBytes = y.totalBytes := by
  have start : (MemoryStore.empty settings).Once := List.nodup_nil
  refine ⟨fun x y => ⟨ArtifactId.compareLt x y, ArtifactId.compareEq x y, ArtifactId.compareGt x y⟩,
    fun calls answers after ran => ?_, fun calls changes => changesRun changes,
    fun contents others perm packs distinct => ?_⟩
  · obtain ⟨s, same, once⟩ := runOnce start ran
    exact ⟨s, same, fun t shuffled => shuffledListed once shuffled⟩
  · obtain ⟨s, ran, once, found⟩ := @putsRun _ _ files _ packs start
    obtain ⟨t, ranOther, onceOther, foundOther⟩ :=
      @putsRun _ _ files _ (fun content mem => packs content (perm.mem_iff.mp mem)) start
    have same (id : ArtifactId) : t.envelope? id = s.envelope? id := calc
      t.envelope? id = firstEnvelope settings.algorithm others id := foundOther id
      _ = firstEnvelope settings.algorithm contents id := firstEnvelopePerm perm distinct id
      _ = s.envelope? id := (found id).symm
    have shuffled : s.Shuffled t := permOfLookups once onceOther same
    refine ⟨_, _, s, t, ran, ranOther, fun x y left right => ?_⟩
    have one := shuffledListed once left
    have other := shuffledListed once (right.trans shuffled)
    exact ⟨one.ids.trans other.ids.symm, one.totalBytes.trans other.totalBytes.symm⟩

end

theorem packsLetter : Packs (Blob.held [0x61]) := ⟨_, wrapEq letterFits⟩

theorem packsEmpty : Packs Blob.empty := by
  have coded : (Deflate.encode []).length = 10 := by decide +kernel
  have packed := Bits.lengthPackLe (Deflate.encode [])
  have ceiling : sizeCeiling = 0x7fff0000 := rfl
  have fits : Fits Blob.empty.content := by
    refine ⟨by decide, ?_⟩
    change (Envelope.envelopeOf [[]]).length + 1 < sizeCeiling
    rw [Envelope.lengthEnvelopeOf, Zlib.encodeSingle, Zlib.lengthEncode, Envelope.headerLength]
    omega
  exact ⟨_, wrapEq fits⟩

theorem listingsOfLetter :
    let settings : StoreSettings := ⟨.sha1, true⟩
    let contents : List Blob := [Blob.held [0x61], Blob.empty]
    contents.reverse.Perm contents ∧ (∀ content ∈ contents, Packs content) ∧
      Distinct settings.algorithm contents ∧
      ∃ answers again s t,
        State.run ⟨.memory (.empty settings), .empty⟩ (contents.map .put) =
          .ok (answers, ⟨.memory s, .empty⟩) ∧
        State.run ⟨.memory (.empty settings), .empty⟩ (contents.reverse.map .put) =
          .ok (again, ⟨.memory t, .empty⟩) ∧
        ∀ x y, s.Shuffled x → t.Shuffled y → x.ids = y.ids ∧ x.totalBytes = y.totalBytes := by
  intro settings contents
  have perm : contents.reverse.Perm contents := List.reverse_perm contents
  have packs : ∀ content ∈ contents, Packs content := by
    simp only [contents, List.mem_cons, List.not_mem_nil, or_false, forall_eq_or_imp, forall_eq]
    exact ⟨packsLetter, packsEmpty⟩
  have apart : ArtifactId.compute .sha1 (Blob.held [0x61]).content ≠
      ArtifactId.compute .sha1 Blob.empty.content := by
    decide +kernel
  have distinct : Distinct settings.algorithm contents := by
    intro c memC d memD same
    simp only [contents, List.mem_cons, List.not_mem_nil, or_false] at memC memD
    rcases memC with rfl | rfl
    · rcases memD with rfl | rfl
      · rfl
      · exact absurd same apart
    · rcases memD with rfl | rfl
      · exact absurd same.symm apart
      · rfl
  exact ⟨perm, packs, distinct,
    (listingsForgetHistory settings .empty).2.2.2 contents contents.reverse perm packs distinct⟩

end ArtifactVault.MemoryStore
