import ArtifactVault.Proofs.Blob.Ceiling

/-! Actions that append. `Appends act bytes` says that an action adds exactly these bytes: its
outcome is sound from every well-formed blob, and it succeeds where the blob has room for them.
`Built` says that it is made of appends, so what builds text is read off its parts. -/
namespace ArtifactVault.Blob

/-- Content up to `limit` bytes fits, however it is appended: an append that grows asks for at
most twice as much. -/
structure RoomFor (b : Blob) (limit : Nat) : Prop where
  wellFormed : b.WellFormed
  doubled : 2 * limit + appendPad < sizeCeiling
  borrowed : b.ownership = .borrowed → limit + b.capacity + appendPad < sizeCeiling

theorem emptyRoom {limit : Nat} (small : 2 * limit + 200 < sizeCeiling) : RoomFor empty limit := by
  have capacity : empty.capacity = 1 := rfl
  have pad : appendPad = 100 := rfl
  exact ⟨emptyWellFormed, by omega, fun _ => by omega⟩

structure Written (b : Blob) (bytes : Bytes) (e : Blob) : Prop where
  wellFormed : e.WellFormed
  content : e.content = b.content ++ bytes
  cursor : e.cursor = b.cursor
  formatted : e.formatted = b.formatted

theorem Extended.written {b e : Blob} {bytes : Bytes} (extended : Extended b bytes e) :
    Written b bytes e :=
  ⟨extended.wellFormed, extended.content, extended.cursor, extended.formatted⟩

theorem Written.used {b e : Blob} {bytes : Bytes} (wf : b.WellFormed) (written : Written b bytes e) :
    e.used = b.used + bytes.length := by
  rw [← lengthContent written.wellFormed, written.content, List.length_append, lengthContent wf]

theorem Written.trans {b e f : Blob} {xs ys : Bytes} (first : Written b xs e)
    (second : Written e ys f) : Written b (xs ++ ys) f := by
  refine ⟨second.wellFormed, ?_, second.cursor.trans first.cursor,
    second.formatted.trans first.formatted⟩
  rw [second.content, first.content, List.append_assoc]

theorem Written.same {b e f : Blob} {bytes : Bytes} (first : Written b bytes e)
    (second : Written b bytes f) : SameContent e f := by
  have content : f.content = e.content := second.content.trans first.content.symm
  refine ⟨second.wellFormed, ?_, content, second.cursor.trans first.cursor.symm,
    second.formatted.trans first.formatted.symm⟩
  rw [← lengthContent second.wellFormed, content, lengthContent first.wellFormed]

structure Appends (act : Blob → Except Abort Blob) (bytes : Bytes) : Prop where
  sound : ∀ b, b.WellFormed → Sound (Written b bytes) (act b)
  within : ∀ b limit, RoomFor b limit → b.used + bytes.length ≤ limit →
    ∃ e, act b = .ok e ∧ Written b bytes e ∧ RoomFor e limit

theorem RoomFor.owned {b e : Blob} {limit : Nat} (room : RoomFor b limit) (wf : e.WellFormed)
    (owned : e.ownership = .owned) : RoomFor e limit :=
  ⟨wf, room.doubled, fun borrowed => by rw [owned] at borrowed; cases borrowed⟩

theorem RoomFor.admits {b : Blob} {limit extra : Nat} (room : RoomFor b limit)
    (fits : b.used + extra ≤ limit) : b.Admits extra := by
  have doubled := room.doubled
  rcases ownedOrBorrowed b with owned | borrowed
  · by_cases spare : b.used + extra < b.capacity
    · exact .inl ⟨owned, spare⟩
    · exact .inr (by omega)
  · have spare := room.borrowed borrowed
    exact .inr (by omega)

theorem appendAppends (bytes : Bytes) : Appends (·.append bytes) bytes where
  sound b wf := soundMono (appendAppending wf bytes).sound fun _ extended => extended.written
  within b limit room fits := by
    obtain ⟨g, grew, grown⟩ := growForAppendAdmitted room.wellFormed (room.admits fits)
    obtain ⟨e, done, extended⟩ := extendGrown grown
    simp only [append, grew, bind, Except.bind]
    exact ⟨e, done, extended.written, room.owned extended.wellFormed extended.owned⟩

theorem appendByteAppends (byte : UInt8) : Appends (·.appendByte byte) [byte] where
  sound b wf := by
    simp only [appendByteAlike wf]
    exact (appendAppends [byte]).sound b wf
  within b limit room fits := by
    simp only [appendByteAlike room.wellFormed]
    exact (appendAppends [byte]).within b limit room fits

theorem Appends.nothing : Appends .ok [] where
  sound _ wf := ⟨wf, (List.append_nil _).symm, rfl, rfl⟩
  within b _ room _ := ⟨b, rfl, ⟨room.wellFormed, (List.append_nil _).symm, rfl, rfl⟩, room⟩

theorem Appends.andThen {f g : Blob → Except Abort Blob} {xs ys : Bytes} (first : Appends f xs)
    (second : Appends g ys) : Appends (fun b => f b >>= g) (xs ++ ys) where
  sound b wf := soundBind (first.sound b wf) fun e written =>
    soundMono (second.sound e written.wellFormed) fun _ => written.trans
  within b limit room fits := by
    rw [List.length_append] at fits
    obtain ⟨e, began, written, left⟩ := first.within b limit room (by omega)
    have used := written.used room.wellFormed
    obtain ⟨f, ended, rest, still⟩ := second.within e limit left (by omega)
    exact ⟨f, by rw [began]; exact ended, written.trans rest, still⟩

theorem Appends.each {α : Type} {act : Blob → α → Except Abort Blob} {bytes : α → Bytes}
    (one : ∀ item, Appends (act · item) (bytes item)) (items : List α) :
    Appends (fun b => items.foldlM act b) (items.flatMap bytes) := by
  induction items with
  | nil => exact .nothing
  | cons item items ih =>
    simp only [List.foldlM_cons, List.flatMap_cons]
    exact (one item).andThen ih

inductive Built : (Blob → Except Abort Blob) → Bytes → Prop where
  | nothing : Built .ok []
  | append (bytes : Bytes) : Built (·.append bytes) bytes
  | byte (byte : UInt8) : Built (·.appendByte byte) [byte]
  | andThen {f g xs ys} (first : Built f xs) (second : Built g ys) :
      Built (fun b => f b >>= g) (xs ++ ys)

theorem Built.appends {act : Blob → Except Abort Blob} {bytes : Bytes} (built : Built act bytes) :
    Appends act bytes := by
  induction built with
  | nothing => exact .nothing
  | append bytes => exact appendAppends bytes
  | byte byte => exact appendByteAppends byte
  | andThen _ _ first second => exact first.andThen second

theorem Built.each {α : Type} {act : Blob → α → Except Abort Blob} {bytes : α → Bytes}
    (one : ∀ item, Built (act · item) (bytes item)) (items : List α) :
    Built (fun b => items.foldlM act b) (items.flatMap bytes) := by
  induction items with
  | nil => exact .nothing
  | cons item items ih =>
    simp only [List.foldlM_cons, List.flatMap_cons]
    exact (one item).andThen ih

theorem Built.congr {f g : Blob → Except Abort Blob} {xs ys : Bytes} (built : Built f xs)
    (same : ∀ b, f b = g b) (bytes : xs = ys) : Built g ys := by
  have acts : f = g := funext same
  exact acts ▸ bytes ▸ built

end ArtifactVault.Blob
