import ArtifactVault.Proofs.Blob.Append
import ArtifactVault.Proofs.Blob.LineEnds
import ArtifactVault.Proofs.CommandLine.Runs
import ArtifactVault.Proofs.Output

/-! The command that adds carriage returns to a file and takes them off again. Its comparison of the
two contents never decides anything. -/
namespace ArtifactVault.CommandLine
open Blob Job

namespace Job

def cycleReport (file : Bytes) (newlines returns : Blob) : String :=
  s!"{Utf8.lossy file}: {newlines.lineCount} lines, {newlines.used} bytes LF, " ++
    s!"{returns.used} bytes CRLF ok"

def compareCycled (file : Bytes) (newlines returns cycled : Blob) : Job Unit := do
  if !cycled.equals newlines then throw (.lineEndsDiffer file)
  printLine (cycleReport file newlines returns)

def cycleLineEnds (file : Bytes) (b : Blob) : Job Unit := do
  let newlines ← orAbort b.newlinesOnly
  let returns ← orAbort (newlines.toOwned >>= addCarriageReturns)
  let cycled ← orAbort returns.newlinesOnly
  compareCycled file newlines returns cycled

theorem testLineEndsEq (settings : Settings) (file : Bytes) :
    testLineEnds settings file = (read settings file >>= cycleLineEnds file) := rfl

theorem compareSame {newlines cycled : Blob} (same : cycled.content = newlines.content) (file : Bytes)
    (returns : Blob) : compareCycled file newlines returns cycled =
      printLine (cycleReport file newlines returns) := by
  have equal : cycled.equals newlines = true := decide_eq_true same
  rw [compareCycled, equal]
  rfl

theorem cycledSame {b newlines returns cycled : Blob} (wf : b.WellFormed)
    (left : b.newlinesOnly = .ok newlines)
    (added : newlines.toOwned >>= addCarriageReturns = .ok returns)
    (back : returns.newlinesOnly = .ok cycled) : cycled.content = newlines.content := by
  obtain ⟨owned, copied, added⟩ := okBind added
  have lefts := newlinesOnlyBounded wf
  have copies := toOwnedSound newlines
  rw [left] at lefts
  rw [copied] at copies
  have none : 0x0d ∉ owned.content := by
    rw [copies.content, lefts.content]
    exact noReturns _
  rw [backUnchanged copies.wellFormed none added back, copies.content]

theorem cycleOn {b : Blob} (wf : b.WellFormed) (file : Bytes) (console : Console) :
    (cycleLineEnds file b).on console = (do
      let newlines ← b.newlinesOnly
      let returns ← newlines.toOwned >>= addCarriageReturns
      let _ ← returns.newlinesOnly
      (printLine (cycleReport file newlines returns)).on console) := by
  rw [cycleLineEnds, orAbortOn]
  refine okBindCongr fun newlines left => ?_
  rw [orAbortOn]
  refine okBindCongr fun returns added => ?_
  rw [orAbortOn]
  refine okBindCongr fun cycled back => ?_
  rw [compareSame (cycledSame wf left added back)]

theorem lineEndsNeverDiffer {settings : Settings} {file path : Bytes} {console later : Console} :
    (testLineEnds settings file).on console ≠ .ok (.error (.lineEndsDiffer path), later) := by
  intro done
  rw [testLineEndsEq] at done
  rcases onBind done with ⟨failure, read, same⟩ | ⟨b, middle, read, done⟩
  · cases same
    obtain ⟨-, e, failed⟩ := readEnds read
    cases failed
  · rw [cycleOn (readEnds read).2] at done
    obtain ⟨newlines, -, done⟩ := okBind done
    obtain ⟨returns, -, done⟩ := okBind done
    obtain ⟨cycled, -, done⟩ := okBind done
    obtain ⟨-, e, failed⟩ := printLineEnds done
    cases failed

theorem cycleSettles {b : Blob} (wf : b.WellFormed) (small : 2 * b.used + 200 < sizeCeiling)
    (file : Bytes) (console : Console) : ∃ newlines returns,
      b.newlinesOnly = .ok newlines ∧ returns.WellFormed ∧
      returns.content = substituted [0x0a] [0x0d, 0x0a] newlines.content ∧
      (cycleLineEnds file b).on console =
        (printLine (cycleReport file newlines returns)).on console := by
  obtain ⟨newlines, left, unreturned⟩ := leftUnreturned wf (by omega)
  have fewer := unreturned.used wf
  have length := lengthContent unreturned.rewritten.wellFormed
  have nothing : empty.used = 0 := rfl
  obtain ⟨owned, copied, copies, -⟩ := (appendAppends newlines.content).within empty newlines.used
    (emptyRoom (by omega)) (by omega)
  have same := copies.used emptyWellFormed
  have none : 0x0d ∉ owned.content := by
    rw [copies.content]
    exact unreturned.none
  obtain ⟨returns, cycled, added, back, -⟩ := cycles copies.wellFormed none (by omega)
  have adds := addCarriageReturnsBounded copies.wellFormed
  rw [added] at adds
  have whole : newlines.toOwned >>= addCarriageReturns = .ok returns := by
    rw [toOwned, copied]
    exact added
  refine ⟨newlines, returns, left, adds.wellFormed, ?_, ?_⟩
  · rw [adds.content, copies.content, returnsAdded]
    rfl
  · rw [cycleOn wf, left]
    simp only [bind, Except.bind] at whole ⊢
    rw [whole]
    simp only [back]

end Job

theorem lineEndsSettle [Zlib.Encoder] :
    (∀ b : Blob, b.WellFormed → 2 * b.used + 1 < sizeCeiling →
      (∃ e, b.addCarriageReturns = .ok e ∧ Returned b e) ∧
      (∃ e, b.newlinesOnly = .ok e ∧ Unreturned b e ∧ Cycles e) ∧
      (0x0d ∉ b.content → Cycles b)) ∧
    ∀ (invocation : Invocation) (console later : Console) (file : Bytes),
      invocation.command = .testLineEnds file →
      (∀ path, invocation.run console ≠ .ok (.error (.lineEndsDiffer path), later)) ∧
      ∀ settings b, Loads console.host.files settings invocation.settings →
        (Job.read settings file).on console = .ok (.ok b, later) → 2 * b.used + 200 < sizeCeiling →
        ∃ newlines returns, b.newlinesOnly = .ok newlines ∧ returns.WellFormed ∧
          returns.content = substituted [0x0a] [0x0d, 0x0a] newlines.content ∧
          invocation.run console = (printLine (cycleReport file newlines returns)).on later := by
  refine ⟨fun b wf small => ⟨addedReturned wf small, ?_, fun none => cycles wf none small⟩, ?_⟩
  · obtain ⟨e, left, unreturned⟩ := leftUnreturned wf (by omega)
    have fewer := unreturned.used wf
    exact ⟨e, left, unreturned, cycles unreturned.rewritten.wellFormed unreturned.none (by omega)⟩
  · intro invocation console later file command
    refine ⟨fun path done => ?_, fun settings b loads found small => ?_⟩
    · rcases runTaken command (testLineEnds · file) (fun _ _ => rfl) done with
        ⟨-, settings, failure, same, failed⟩ | ⟨settings, done⟩
      · cases same
        rcases failed with failed | ⟨e, failed⟩
        · cases failed
        · cases failed
      · exact lineEndsNeverDiffer done
    · have asks : Asks invocation console settings (.testLineEnds file) := ⟨command, loads⟩
      obtain ⟨newlines, returns, left, wf, content, ran⟩ :=
        cycleSettles (readEnds found).2 small file later
      refine ⟨newlines, returns, left, wf, content, ?_⟩
      rw [asks.run (testLineEnds · file) fun _ _ => rfl, testLineEndsEq, onOk found, ran]

def typing (bytes : Bytes) : Console := ⟨⟨.empty, .ofBytes bytes, []⟩, .channel ⟨[], none, [], 0⟩⟩

def shown (text : Bytes) : Console := ⟨⟨.empty, [], []⟩, .channel ⟨[], none, text, 0⟩⟩

def typed : Blob := ⟨[0x0d, 0x0d, 0x0a] ++ List.replicate 101 0, .owned, 3, 0, false⟩

theorem typedCollected : Blob.empty.reset.collect none (.ofBytes [0x0d, 0x0d, 0x0a]) =
    .ok (.ok 3, typed, []) := by
  have asks : 0 < Blob.request none := by decide
  have first : Source.read (Blob.request none) (.ofBytes [0x0d, 0x0d, 0x0a]) =
      (.ok [0x0d, 0x0d, 0x0a], .ofBytes []) := rfl
  have appended : Blob.empty.reset.append [0x0d, 0x0d, 0x0a] = .ok typed := by decide
  have ended : typed.collect none (.ofBytes []) = .ok (.ok 3, typed, []) := by
    rw [Blob.collectEq, if_pos asks]
    rfl
  rw [Blob.collectEq, if_pos asks, first]
  simp only [appended]
  exact ended

theorem typedRead : (Job.read .standard Transfer.dash).on (typing [0x0d, 0x0d, 0x0a]) =
    .ok (.ok typed, shown []) := by
  have streamed : Blob.empty.readStream Settings.standard.files.mostRead
      (typing [0x0d, 0x0d, 0x0a]).host.input = .ok (.ok 3, typed, []) := typedCollected
  rw [readOn, Transfer.load, if_pos (by decide), streamed]
  rfl

theorem typedReturnsComeOff :
    (∃ e, typed.newlinesOnly = .ok e ∧ e.content = [0x0a, 0x0a] ∧ Cycles e) ∧
      (⟨.testLineEnds Transfer.dash, false, none⟩ : Invocation).run (typing [0x0d, 0x0d, 0x0a]) =
        .ok (.ok (), shown (Utf8.ofString "-: 2 lines, 2 bytes LF, 4 bytes CRLF ok\n")) := by
  have wf : typed.WellFormed := ⟨by decide, by decide, by decide⟩
  obtain ⟨transforms, commands⟩ := lineEndsSettle
  obtain ⟨-, ⟨e, left, unreturned, cycles⟩, -⟩ := transforms typed wf (by decide)
  obtain ⟨-, settles⟩ := commands ⟨.testLineEnds Transfer.dash, false, none⟩
    (typing [0x0d, 0x0d, 0x0a]) (shown []) Transfer.dash rfl
  obtain ⟨newlines, returns, same, returnsWf, content, ran⟩ :=
    settles .standard typed rfl typedRead (by decide)
  cases left.symm.trans same
  have two : e.content = [0x0a, 0x0a] := by
    rw [unreturned.rewritten.content, newlinesLeft]
    decide
  have four : returns.content = [0x0d, 0x0a, 0x0d, 0x0a] := by
    rw [content, two, returnsAdded]
    decide
  have lines : e.lineCount = 2 := by
    rw [lineCount, two]
    decide
  have used : e.used = 2 := by rw [← lengthContent unreturned.rewritten.wellFormed, two]; rfl
  have usedReturns : returns.used = 4 := by rw [← lengthContent returnsWf, four]; rfl
  have text : cycleReport Transfer.dash e returns = "-: 2 lines, 2 bytes LF, 4 bytes CRLF ok" := by
    rw [cycleReport, lines, used, usedReturns]
    decide +kernel
  refine ⟨⟨e, left, two, cycles⟩, ?_⟩
  rw [ran, text]
  exact printLineOn (Output.formattedUnlimited [] 0 _)

end ArtifactVault.CommandLine
