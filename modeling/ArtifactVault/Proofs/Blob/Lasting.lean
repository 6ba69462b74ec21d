import ArtifactVault.Proofs.Blob.Marks

/-! Work on a blob and the mark it bears. An operation that leaves a register its own blob keeps the
mark there, with one exception: decoding UTF-16 puts the text into a blob of its own, which was
never marked. Through a run the mark is lost to that, and to nothing else. -/
namespace ArtifactVault.Blob
variable {blobs after : Registers} {register : Nat}

def Operation.replaces (register : Nat) : Operation → Bool
  | .create target _ | .read target _ _ | .copy target _ => register = target
  | .adjust target adjustment => register = target && adjustment.renews
  | .edit .. | .text .. => false
  | .transfer target source kind =>
    register = target && kind.renews || register = source && kind.drains
  | .swap left right => register = left || register = right
  | .resetAll targets => register ∈ targets

def Operation.decodes (blobs : Registers) (register : Nat) : Operation → Bool
  | .text target change => register = target && change.renews (blobs target)
  | _ => false

theorem keptUnlessOwn {renews : Bool} {target : Nat}
    (own : (decide (register = target) && renews) = false) :
    keptUnless renews target register = some register := by
  rw [keptUnless, own]
  rfl

theorem ownOrigin (blobs : Registers) {operation : Operation}
    (own : operation.replaces register = false) : operation.origin? blobs register =
      if operation.decodes blobs register then none else some register := by
  cases operation with
  | create target creation => exact keptUnlessOwn (by simpa [Operation.replaces] using own)
  | adjust target adjustment => exact keptUnlessOwn own
  | edit target change => exact keptUnlessOwn (Bool.and_false _)
  | text target change => rfl
  | read target source reader =>
    have other : register ≠ target := of_decide_eq_false own
    rw [Operation.origin?, keptOfTwo, if_neg other]
    exact keptUnlessOwn (Bool.and_false _)
  | transfer target source kind =>
    obtain ⟨kept, undrained⟩ := Bool.or_eq_false_iff.mp own
    rw [Operation.origin?, keptOfTwo]
    split
    · exact keptUnlessOwn kept
    · exact keptUnlessOwn undrained
  | copy target source =>
    have other : register ≠ target := of_decide_eq_false own
    exact congrArg some (if_neg other)
  | swap left right =>
    obtain ⟨first, second⟩ := Bool.or_eq_false_iff.mp own
    rw [Operation.origin?, if_neg (of_decide_eq_false second), if_neg (of_decide_eq_false first)]
    rfl
  | resetAll targets => exact if_neg (of_decide_eq_false own)

theorem decodesUnwritten {operation : Operation}
    (decodes : operation.decodes blobs register = true) : operation.inscribes register = false := by
  cases operation with
  | text target change =>
    cases change with
    | normalize => exact Bool.and_false _
    | _ => simp [Operation.decodes, TextEdit.renews] at decodes
  | _ => rfl

theorem ownPure (kept : Kept blobs) {operation : Operation}
    (own : operation.replaces register = false) (done : step blobs operation = .ok after) :
    (after register).formatted = false ↔ operation.decodes blobs register = true ∨
      ((blobs register).formatted = false ∧ operation.inscribes register = false) := by
  have marks := stepMarks kept operation
  rw [done] at marks
  rw [marks, markAfter, ownOrigin blobs own]
  cases decodes : operation.decodes blobs register with
  | true => simp [decodesUnwritten decodes]
  | false => simp [and_comm]

/-- In a run what stands in a register is decoded, and the formatter does not write there later. -/
inductive Laundered (register : Nat) : Registers → List Operation → Prop where
  | here {blobs after operation rest} (done : step blobs operation = .ok after)
      (decodes : operation.decodes blobs register = true)
      (unwritten : ∀ later ∈ rest, later.inscribes register = false) :
      Laundered register blobs (operation :: rest)
  | further {blobs after operation rest} (done : step blobs operation = .ok after)
      (later : Laundered register after rest) : Laundered register blobs (operation :: rest)

theorem launderedCons {operation : Operation} {rest : List Operation}
    (done : step blobs operation = .ok after) : Laundered register blobs (operation :: rest) ↔
      Laundered register after rest ∨ (operation.decodes blobs register = true ∧
        ∀ later ∈ rest, later.inscribes register = false) := by
  constructor
  · rintro (⟨-, decodes, unwritten⟩ | ⟨stepped, later⟩)
    · exact .inr ⟨decodes, unwritten⟩
    · cases done.symm.trans stepped
      exact .inl later
  · rintro (later | ⟨decodes, unwritten⟩)
    · exact .further done later
    · exact .here done decodes unwritten

theorem Laundered.normalized {work : List Operation} (laundered : Laundered register blobs work) :
    ∃ assumeCodePage, .text register (.normalize assumeCodePage) ∈ work := by
  induction laundered with
  | further done later ih =>
    obtain ⟨assumeCodePage, mem⟩ := ih
    exact ⟨assumeCodePage, List.mem_cons_of_mem _ mem⟩
  | @here _ _ operation _ _ decodes =>
    cases operation with
    | text target change =>
      obtain ⟨same, renews⟩ := Bool.and_eq_true_iff.mp decodes
      cases of_decide_eq_true same
      cases change with
      | normalize assumeCodePage => exact ⟨assumeCodePage, List.mem_cons_self⟩
      | _ => cases renews
    | _ => cases decodes

theorem pureAfterWork {work : List Operation} (kept : Kept blobs)
    (own : ∀ operation ∈ work, operation.replaces register = false)
    (done : run blobs work = .ok after) : (after register).formatted = false ↔
      Laundered register blobs work ∨ ((blobs register).formatted = false ∧
        ∀ operation ∈ work, operation.inscribes register = false) := by
  induction work generalizing blobs with
  | nil =>
    cases done
    constructor
    · exact fun pure => .inr ⟨pure, nofun⟩
    · rintro (laundered | ⟨pure, -⟩)
      · cases laundered
      · exact pure
  | cons operation rest ih =>
    obtain ⟨middle, stepped, finished⟩ := okBind done
    have still := stepSound kept operation
    rw [stepped] at still
    have later := ih still (fun later mem => own later (by simp [mem])) finished
    rw [later, ownPure kept (own operation (by simp)) stepped, launderedCons stepped,
      List.forall_mem_cons, or_and_right, and_assoc, or_assoc]

/-- Work on a marked blob that leaves it in its register leaves it marked, and refused as SQL text,
unless UTF-16 is decoded there and the formatter writes no more: without `normalize`, always. -/
theorem markLostToDecodingAlone {history work : List Operation}
    (reached : run blank history = .ok blobs) (marked : (blobs register).isPureSql = false)
    (own : ∀ operation ∈ work, operation.replaces register = false)
    (done : run blobs work = .ok after) :
    ((after register).isPureSql = true ↔ Laundered register blobs work) ∧
    ((after register).sqlText = .error .formattedSql ↔ ¬ Laundered register blobs work) ∧
    ((∀ assumeCodePage, .text register (.normalize assumeCodePage) ∉ work) →
      (after register).isPureSql = false) := by
  have kept := runSound history blankKept
  rw [reached] at kept
  have pure : (after register).isPureSql = true ↔ Laundered register blobs work := by
    rw [isPureSql, Bool.not_eq_true', pureAfterWork kept own done, or_iff_left]
    rintro ⟨unmarked, -⟩
    rw [isPureSql, unmarked] at marked
    cases marked
  have refused := sqlTextRefused (after register)
  rw [← Bool.not_eq_true, pure] at refused
  refine ⟨pure, refused, fun never => Bool.eq_false_iff.mpr fun lost => ?_⟩
  obtain ⟨assumeCodePage, mem⟩ := (pure.mp lost).normalized
  exact never assumeCodePage mem

def escaped : List Operation := [.text 0 (.html "<b>\n")]

def escapedWork : List Operation :=
  [.adjust 0 .trim, .read 1 0 .token, .text 0 (.sql "\n"), .text 0 .addCarriageReturns,
    .text 0 (.normalize true), .transfer 0 1 .appendConsume, .edit 0 (.resize 2), .edit 0 .terminated]

theorem escapedStaysMarked : ∃ blobs after, run blank escaped = .ok blobs ∧
    (blobs 0).isPureSql = false ∧ run blobs escapedWork = .ok after ∧
    (after 0).sqlText = .error .formattedSql ∧ ¬ Laundered 0 blobs escapedWork := by
  have marks : (run blank escaped).toOption.map (fun blobs => ((blobs 0).isPureSql,
      (run blobs escapedWork).toOption.map fun after => (after 0).isPureSql)) =
      some (false, some false) := by decide +kernel
  cases reached : run blank escaped with
  | error cause =>
    rw [reached] at marks
    cases marks
  | ok blobs =>
    rw [reached] at marks
    obtain ⟨marked, worked⟩ := Prod.mk.inj (Option.some.inj marks)
    cases done : run blobs escapedWork with
    | error cause =>
      rw [done] at worked
      cases worked
    | ok after =>
      rw [done] at worked
      have still : (after 0).isPureSql = false := Option.some.inj worked
      have own : ∀ operation ∈ escapedWork, operation.replaces 0 = false := by decide +kernel
      obtain ⟨pure, refused, -⟩ := markLostToDecodingAlone reached marked own done
      have kept : ¬ Laundered 0 blobs escapedWork := by
        rw [← pure, still]
        exact Bool.false_ne_true
      exact ⟨blobs, after, rfl, marked, done, refused.mpr kept, kept⟩

def unitWritten : List Operation :=
  [.create 0 (.ofBytes [0xff, 0xfe]), .text 0 (.formatted ["'\x00"])]

theorem decodedQuoteReachesSql : (run blank unitWritten).toOption.map (fun blobs =>
    ((blobs 0).isPureSql, (run blobs [.text 0 (.normalize false)]).toOption.map fun after =>
      ((after 0).isPureSql, (after 0).sqlText.toOption))) = some (false, some (true, some "'")) := by
  decide +kernel

end ArtifactVault.Blob
