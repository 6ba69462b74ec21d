import ArtifactVault.Proofs.Blob.Operations

/-! Programs keep every register well formed. One step is sound for each kind of operation, and a
run is sound because its steps are. -/
namespace ArtifactVault.Blob
variable {b : Blob} {blobs : Registers}

def Kept (blobs : Registers) : Prop := ∀ register, (blobs register).WellFormed

theorem blankKept : Kept blank := fun _ => emptyWellFormed

theorem setEach {holds : Blob → Prop} {target : Nat}
    (each : ∀ register, holds (blobs register)) (here : holds b) :
    ∀ register, holds (blobs.set target b register) := by
  intro register
  unfold Registers.set
  split
  · exact here
  · exact each register

theorem resetEmpty (b : Blob) : b.reset = empty := rfl

theorem resetAllAt (blobs : Registers) (targets : List Nat) (register : Nat) :
    targets.foldl (fun blobs target => blobs.set target (blobs target).reset) blobs register =
      if register ∈ targets then empty else blobs register := by
  induction targets generalizing blobs with
  | nil => rfl
  | cons target targets ih =>
    rw [List.foldl_cons, ih, Registers.set, resetEmpty]
    by_cases here : register = target <;> simp [here]

theorem resetAllEach {holds : Blob → Prop} (targets : List Nat)
    (each : ∀ register, holds (blobs register)) (none : holds empty) :
    ∀ register, holds
      (targets.foldl (fun blobs target => blobs.set target (blobs target).reset) blobs register) := by
  intro register
  rw [resetAllAt]
  split
  · exact none
  · exact each register

theorem readStep (kept : Kept blobs) (target source : Nat) (reader : Reader) :
    ∃ after, step blobs (.read target source reader) = .ok after ∧ Kept after := by
  obtain ⟨found, after, done, read⟩ := readerRead (kept source) reader
  obtain ⟨bytes, fresh⟩ := read.found
  exact ⟨_, by simp only [step, done]; rfl,
    setEach (setEach kept (read.wellFormed (kept source))) fresh.wellFormed⟩

theorem stepSound (kept : Kept blobs) (operation : Operation) : Sound Kept (step blobs operation) := by
  cases operation with
  | create target creation =>
    exact soundBind (creationSound creation) fun _ made => setEach kept made.wellFormed
  | adjust target adjustment =>
    exact setEach kept (adjustmentBearing (kept target) adjustment).wellFormed
  | edit target change =>
    exact soundBind (editSound (kept target) change) fun _ made => setEach kept made.wellFormed
  | text target change =>
    exact soundBind (textEditSound (kept target) change) fun _ made => setEach kept made.wellFormed
  | read target source reader =>
    obtain ⟨after, done, still⟩ := readStep kept target source reader
    rw [done]
    exact still
  | transfer target source transfer =>
    exact soundBind (transferSound (kept target) (kept source) transfer) fun _ answer =>
      setEach (setEach kept answer.2.wellFormed) answer.1.wellFormed
  | copy target source => exact setEach kept (kept source)
  | swap left right => exact setEach (setEach kept (kept right)) (kept left)
  | resetAll targets => exact resetAllEach targets kept emptyWellFormed

theorem stepSucceeds (kept : Kept blobs) {operation : Operation}
    (safe : operation.canAbort = false) : ∃ after, step blobs operation = .ok after := by
  cases operation with
  | create | edit | text | transfer => cases safe
  | read target source reader =>
    obtain ⟨after, done, _⟩ := readStep kept target source reader
    exact ⟨after, done⟩
  | adjust | copy | swap | resetAll => exact ⟨_, rfl⟩

theorem runSound (program : List Operation) (kept : Kept blobs) : Sound Kept (run blobs program) :=
  soundFold Kept (fun _ kept operation _ => stepSound kept operation) blobs kept

/-- Every state that a run reaches, a run of some program, is well formed in each register; what
needs no room succeeds from there, and a run that ends early ends for a documented reason. -/
theorem runKeepsRepresentation (program : List Operation) :
    match run blank program with
    | .ok blobs => (∀ register, (blobs register).WellFormed) ∧
        ∀ operation, operation.canAbort = false → ∃ after, step blobs operation = .ok after
    | .error cause => cause.Documented := by
  have sound := runSound program blankKept
  cases ended : run blank program with
  | error cause =>
    rw [ended] at sound
    exact sound
  | ok blobs =>
    rw [ended] at sound
    exact ⟨sound, fun operation safe => stepSucceeds sound safe⟩

end ArtifactVault.Blob
