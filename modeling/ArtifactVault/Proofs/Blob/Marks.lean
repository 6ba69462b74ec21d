import ArtifactVault.Proofs.Blob.Run

/-! The mark of formatted text belongs to a blob, not to its bytes. Every operation either inscribes
a register, makes it anew, or leaves it the mark of one register before: its own, or another one's
after a copy or a swap. Read from a run, the mark tells where the formatter wrote, and no more. -/
namespace ArtifactVault.Blob
variable {b : Blob} {blobs after : Registers}

def Operation.inscribes (register : Nat) : Operation → Bool
  | .text target change => register = target && change.inscribes
  | _ => false

def keptUnless (renews : Bool) (target register : Nat) : Option Nat :=
  if register = target && renews then none else some register

def keptOfTwo (renews drains : Bool) (target source register : Nat) : Option Nat :=
  if register = target then keptUnless renews target register
  else keptUnless drains source register

def Operation.origin? (blobs : Registers) (register : Nat) : Operation → Option Nat
  | .create target _ => keptUnless true target register
  | .adjust target adjustment => keptUnless adjustment.renews target register
  | .edit target _ => keptUnless false target register
  | .text target change => keptUnless (change.renews (blobs target)) target register
  | .read target source _ => keptOfTwo true false target source register
  | .transfer target source kind => keptOfTwo kind.renews kind.drains target source register
  | .copy target source => some (if register = target then source else register)
  | .swap left right =>
    some (if register = right then left else if register = left then right else register)
  | .resetAll targets => if register ∈ targets then none else some register

theorem setFormatted (blobs : Registers) (target : Nat) (b : Blob) (register : Nat) :
    (blobs.set target b register).formatted =
      if register = target then b.formatted else (blobs register).formatted := by
  unfold Registers.set
  split <;> rfl

theorem resetAllFormatted (blobs : Registers) (targets : List Nat) (register : Nat) :
    (targets.foldl (fun blobs target => blobs.set target (blobs target).reset) blobs
      register).formatted = (!decide (register ∈ targets) && (blobs register).formatted) := by
  rw [resetAllAt]
  by_cases reset : register ∈ targets
  · simp [reset, empty]
  · simp [reset]

def markAfter (blobs : Registers) (operation : Operation) (register : Nat) : Bool :=
  operation.inscribes register ||
    (operation.origin? blobs register).any fun origin => (blobs origin).formatted

theorem setKeptMark {target register : Nat} {renews : Bool}
    (mark : b.formatted = (!renews && (blobs target).formatted)) :
    (blobs.set target b register).formatted =
      (keptUnless renews target register).any fun origin => (blobs origin).formatted := by
  rw [setFormatted, keptUnless]
  by_cases here : register = target
  · rw [if_pos here, mark, here]
    cases renews <;> simp
  · simp [here]

theorem setMark {target register : Nat} {inscribes renews : Bool}
    (mark : b.formatted = (inscribes || (!renews && (blobs target).formatted))) :
    (blobs.set target b register).formatted = ((register = target && inscribes) ||
      (keptUnless renews target register).any fun origin => (blobs origin).formatted) := by
  cases inscribes with
  | false =>
    rw [Bool.and_false, Bool.false_or]
    exact setKeptMark mark
  | true =>
    rw [setFormatted, mark, keptUnless]
    by_cases here : register = target <;> simp [here]

theorem setBothMarks {target source register : Nat} {e f : Blob} {renews drains : Bool}
    (changed : e.formatted = (!renews && (blobs target).formatted))
    (read : f.formatted = (!drains && (blobs source).formatted)) :
    ((blobs.set source f).set target e register).formatted =
      (keptOfTwo renews drains target source register).any fun origin =>
        (blobs origin).formatted := by
  rw [setFormatted, setFormatted, keptOfTwo]
  by_cases here : register = target
  · rw [if_pos here, if_pos here, changed, keptUnless, here]
    cases renews <;> simp
  · rw [if_neg here, if_neg here, keptUnless]
    by_cases there : register = source
    · rw [if_pos there, read, there]
      cases drains <;> simp
    · simp [there]

theorem stepMarks (kept : Kept blobs) (operation : Operation) :
    Sound (fun after => ∀ register, (after register).formatted = markAfter blobs operation register)
      (step blobs operation) := by
  cases operation with
  | create target creation =>
    exact soundBind (creationSound creation) fun _ made register => setKeptMark made.formatted
  | adjust target adjustment =>
    exact fun register => setKeptMark (adjustmentBearing (kept target) adjustment).formatted
  | edit target change =>
    exact soundBind (editSound (kept target) change) fun _ made register =>
      setKeptMark made.formatted
  | text target change =>
    exact soundBind (textEditSound (kept target) change) fun _ made register =>
      setMark made.formatted
  | read target source reader =>
    obtain ⟨found, after, done, read⟩ := readerRead (kept source) reader
    obtain ⟨bytes, fresh⟩ := read.found
    obtain ⟨n, -, rfl⟩ := read.moved
    simp only [step, done]
    exact fun register => setBothMarks fresh.formatted rfl
  | transfer target source kind =>
    exact soundBind (transferSound (kept target) (kept source) kind) fun _ made register =>
      setBothMarks made.1.formatted made.2.formatted
  | copy target source =>
    intro register
    rw [setFormatted]
    exact (apply_ite (fun origin => (blobs origin).formatted) _ _ _).symm
  | swap left right =>
    intro register
    rw [setFormatted, setFormatted]
    by_cases second : register = right
    · simp [markAfter, Operation.inscribes, Operation.origin?, second]
    · by_cases first : register = left
      · subst first
        simp [markAfter, Operation.inscribes, Operation.origin?, second]
      · simp [markAfter, Operation.inscribes, Operation.origin?, first, second]
  | resetAll targets =>
    intro register
    rw [resetAllFormatted]
    by_cases reset : register ∈ targets <;>
      simp [markAfter, Operation.inscribes, Operation.origin?, reset]

inductive Carried : Registers → List Operation → Nat → Nat → Prop where
  | arrived {blobs register} : Carried blobs [] register register
  | further {blobs after operation rest register next last}
      (done : step blobs operation = .ok after)
      (origin : operation.origin? blobs next = some register)
      (later : Carried after rest next last) : Carried blobs (operation :: rest) register last

/-- Formatted text was written in a run to where the mark of a register comes from. -/
inductive Inscribed : Registers → List Operation → Nat → Prop where
  | here {blobs after operation rest register last} (done : step blobs operation = .ok after)
      (inscribes : operation.inscribes register = true) (later : Carried after rest register last) :
      Inscribed blobs (operation :: rest) last
  | further {blobs after operation rest last} (done : step blobs operation = .ok after)
      (later : Inscribed after rest last) : Inscribed blobs (operation :: rest) last

theorem markAfterTrue (blobs : Registers) (operation : Operation) (register : Nat) :
    markAfter blobs operation register = true ↔ operation.inscribes register = true ∨
      ∃ origin, operation.origin? blobs register = some origin ∧ (blobs origin).formatted = true := by
  rw [markAfter, Bool.or_eq_true, Option.any_eq_true]

theorem runMarks {program : List Operation} {final : Registers} (kept : Kept blobs)
    (done : run blobs program = .ok final) (last : Nat) : (final last).formatted = true ↔
      (∃ register, (blobs register).formatted = true ∧ Carried blobs program register last) ∨
        Inscribed blobs program last := by
  induction program generalizing blobs with
  | nil =>
    cases done
    constructor
    · exact fun marked => .inl ⟨last, marked, .arrived⟩
    · rintro (⟨register, marked, carried⟩ | inscribed)
      · cases carried
        exact marked
      · cases inscribed
  | cons operation rest ih =>
    obtain ⟨after, stepped, finished⟩ := okBind done
    have still := stepSound kept operation
    have marks := stepMarks kept operation
    rw [stepped] at still marks
    -- What is marked behind the first step was inscribed by it or has its mark from before it.
    rw [ih still finished]
    constructor
    · rintro (⟨register, marked, carried⟩ | inscribed)
      · rw [marks, markAfterTrue] at marked
        rcases marked with inscribes | ⟨origin, known, marked⟩
        · exact .inr (.here stepped inscribes carried)
        · exact .inl ⟨origin, marked, .further stepped known carried⟩
      · exact .inr (.further stepped inscribed)
    · rintro (⟨register, marked, carried⟩ | inscribed)
      · obtain _ | ⟨done, known, later⟩ := carried
        cases stepped.symm.trans done
        exact .inl ⟨_, (marks _).trans ((markAfterTrue ..).mpr (.inr ⟨_, known, marked⟩)), later⟩
      · obtain ⟨done, inscribes, later⟩ | ⟨done, later⟩ := inscribed
        · cases stepped.symm.trans done
          exact .inl ⟨_, (marks _).trans ((markAfterTrue ..).mpr (.inl inscribes)), later⟩
        · cases stepped.symm.trans done
          exact .inr later

theorem sqlTextRefused (b : Blob) : b.sqlText = .error .formattedSql ↔ b.isPureSql = false := by
  unfold sqlText isPureSql
  cases b.formatted with
  | true => simp
  | false =>
    simp only [Bool.false_eq_true, if_false, Bool.not_false]
    split <;> simp

theorem readMark (kept : Kept blobs) {target source : Nat} {reader : Reader}
    (done : step blobs (.read target source reader) = .ok after) :
    (after target).isPureSql = true := by
  have marks := stepMarks kept (.read target source reader)
  rw [done] at marks
  have fresh : keptOfTwo true false target source target = none := by simp [keptOfTwo, keptUnless]
  rw [isPureSql, marks, markAfter, Operation.origin?, fresh]
  rfl

theorem transferMarks (kept : Kept blobs) {target source : Nat} {transfer : Transfer}
    (done : step blobs (.transfer target source transfer) = .ok after) :
    (after target).isPureSql = (transfer.renews || (blobs target).isPureSql) := by
  have marks := stepMarks kept (.transfer target source transfer)
  rw [done] at marks
  have own : keptOfTwo transfer.renews transfer.drains target source target =
      if transfer.renews then none else some target := by simp [keptOfTwo, keptUnless]
  rw [isPureSql, marks, markAfter, Operation.origin?, own]
  cases transfer.renews <;> rfl

/-- In every run the mark tells where the formatter wrote, up to copies and swaps, and SQL text is
refused there. What takes bytes from another blob leaves their mark behind: a view and a fresh copy
are pure, and a blob that bytes are appended to keeps its own mark. -/
theorem marksTellWhereFormatterWrote {program : List Operation}
    (done : run blank program = .ok blobs) :
    (∀ register, (blobs register).isPureSql = false ↔ Inscribed blank program register) ∧
    (∀ register, (blobs register).sqlText = .error .formattedSql ↔
      (blobs register).isPureSql = false) ∧
    (∀ target source reader after, step blobs (.read target source reader) = .ok after →
      (after target).isPureSql = true) ∧
    (∀ target source transfer after, step blobs (.transfer target source transfer) = .ok after →
      (after target).isPureSql = (transfer.renews || (blobs target).isPureSql)) := by
  have kept := runSound program blankKept
  rw [done] at kept
  refine ⟨fun register => ?_, fun register => sqlTextRefused _, fun _ _ _ _ => readMark kept,
    fun _ _ _ _ => transferMarks kept⟩
  rw [isPureSql, Bool.not_eq_false', runMarks blankKept done]
  constructor
  · rintro (⟨origin, marked, -⟩ | inscribed)
    · cases marked
    · exact inscribed
  · exact .inr

def escapedCopied : List Operation := [.text 0 (.html "<b>"), .transfer 1 0 .copyFrom]

theorem copyNotInscribed : ∃ blobs, run blank escapedCopied = .ok blobs ∧
    (blobs 0).sqlText = .error .formattedSql ∧ Inscribed blank escapedCopied 0 ∧
    ¬ Inscribed blank escapedCopied 1 := by
  have marks : (run blank escapedCopied).toOption.map (fun blobs =>
      ((blobs 0).isPureSql, (blobs 1).isPureSql)) = some (false, true) := by decide +kernel
  cases done : run blank escapedCopied with
  | error cause =>
    rw [done] at marks
    cases marks
  | ok blobs =>
    rw [done] at marks
    obtain ⟨written, copied⟩ := Prod.mk.inj (Option.some.inj marks)
    obtain ⟨inscribed, refused, -⟩ := marksTellWhereFormatterWrote done
    refine ⟨blobs, rfl, (refused 0).mpr written, (inscribed 0).mp written, fun other => ?_⟩
    cases copied.symm.trans ((inscribed 1).mpr other)

def escapedThenTaken : List Operation :=
  [.text 0 (.html "<b>"), .transfer 1 0 .copyFrom, .transfer 2 0 .toOwned, .read 3 0 .tail,
    .read 4 0 (.extractLines 1), .read 5 0 (.extract 9), .adjust 0 .rewind, .read 6 0 .line,
    .adjust 0 .rewind, .read 7 0 .token, .adjust 0 .rewind, .read 8 0 .sqlToken, .adjust 0 .rewind,
    .transfer 9 0 (.copyLines 1), .adjust 0 .rewind, .transfer 10 0 .stripCommentLines,
    .copy 12 0, .transfer 11 12 .appendConsume]

theorem escapedTextReachesSql :
    (run blank escapedThenTaken).toOption.map (fun blobs =>
      ((blobs 0).isPureSql, (List.range' 1 11).map fun register =>
        ((blobs register).isPureSql, (blobs register).sqlText.toOption))) =
    some (false, List.replicate 11 (true, some "&lt;b&gt;")) := by
  decide +kernel

end ArtifactVault.Blob
