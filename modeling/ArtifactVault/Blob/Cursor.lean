import ArtifactVault.Blob.Growth

/-!
Reading from the cursor on. Each reader gives a view, a blob that borrows a slice of the live
bytes, and the blob with its cursor moved. `extractLines` and `tail` leave the cursor alone.
Running off the end gives empty results.
-/
namespace ArtifactVault.Blob

inductive Whence
  | start
  | current
  deriving DecidableEq, Repr

def seek (b : Blob) (offset : Int) (whence : Whence) : Blob :=
  let base : Nat := match whence with
    | .start => 0
    | .current => b.cursor
  { b with cursor := min ((base : Int) + offset).toNat b.used }

def rewind (b : Blob) : Blob := { b with cursor := 0 }

def view (b : Blob) (start stop : Nat) : Except Abort Blob := do
  borrow (← slice b.content start stop)

def remaining (b : Blob) : Except Abort Bytes := slice b.content b.cursor b.used

def extract (b : Blob) (n : Nat) : Except Abort (Blob × Blob) := do
  let left := (← b.remaining).length
  let stop := b.cursor + min n left
  return (← b.view b.cursor stop, { b with cursor := stop })

def linesLength (taken : Nat) : Nat → Bytes → Nat
  | 0, _ => taken
  | _, [] => taken
  | n + 1, byte :: rest =>
    if byte = 0x0a then linesLength (taken + 1) n rest else linesLength (taken + 1) (n + 1) rest
  termination_by _ bytes => bytes.length

def extractLines (b : Blob) (n : Nat) : Except Abort Blob := do
  b.view b.cursor (b.cursor + linesLength 0 n (← b.remaining))

def lineLength (bytes : Bytes) : Nat :=
  let body := (bytes.takeWhile (· ≠ 0x0a)).length
  if body < bytes.length then body + 1 else body

def line (b : Blob) : Except Abort (Option Blob × Blob) := do
  let (found, moved) ← b.extract (lineLength (← b.remaining))
  return (if found.isEmpty then none else some found, moved)

def spaceLength (bytes : Bytes) : Nat := (bytes.takeWhile Byte.isSpace).length

def wordLength (bytes : Bytes) : Nat := (bytes.takeWhile (!Byte.isSpace ·)).length

def finishToken (b : Blob) (start stop : Nat) : Except Abort (Option Blob × Blob) := do
  let moved := { b with cursor := stop + spaceLength (b.content.drop stop) }
  if start < stop then return (some (← b.view start stop), moved) else return (none, moved)

def token (b : Blob) : Except Abort (Option Blob × Blob) :=
  let start := b.cursor + spaceLength (b.content.drop b.cursor)
  b.finishToken start (start + wordLength (b.content.drop start))

/-- The length of a quoted literal whose first `taken` bytes, the opening quote among them, have
been passed: a doubled quote stays inside, another one closes, and the end closes too. -/
def literalLength (taken : Nat) : Bytes → Nat
  | [] => taken
  | 0x27 :: 0x27 :: rest => literalLength (taken + 2) rest
  | byte :: rest => if byte = 0x27 then taken + 1 else literalLength (taken + 1) rest

def sqlToken (b : Blob) : Except Abort (Option Blob × Blob) :=
  let start := b.cursor + spaceLength (b.content.drop b.cursor)
  let bytes := b.content.drop start
  let length := match bytes with
    | 0x27 :: rest => literalLength 1 rest
    | _ => wordLength bytes
  b.finishToken start (start + length)

def tail (b : Blob) : Except Abort Blob := b.view b.cursor b.used

def copyLines (b target : Blob) (n : Nat) : Except Abort (Nat × Blob × Blob) := do
  let lines ← b.extractLines n
  let target ← target.append lines.content
  return (lines.used, { b with cursor := b.cursor + lines.used }, target)

def isComment (line : Bytes) : Bool := line.head? = some 0x23

theorem lengthOfSlice {store bytes : Bytes} {start stop : Nat}
    (cut : slice store start stop = .ok bytes) : bytes.length = stop - start := by
  unfold slice at cut
  split at cut
  · rename_i bounds
    cases cut
    rw [List.length_drop, List.length_take, Nat.min_eq_left bounds.2]
  · cases cut

theorem usedOfView {b found : Blob} {start stop : Nat} (viewed : b.view start stop = .ok found) :
    found.used = stop - start := by
  unfold view borrow at viewed
  cases cut : slice b.content start stop with
  | error abort =>
    rw [cut] at viewed
    cases viewed
  | ok bytes =>
    rw [cut] at viewed
    cases checked : checkCeiling bytes.length .borrow with
    | error abort =>
      simp only [bind, Except.bind, checked] at viewed
      cases viewed
    | ok =>
      simp only [bind, Except.bind, checked] at viewed
      cases viewed
      exact lengthOfSlice cut

theorem lineForward {b found after : Blob} (read : b.line = .ok (some found, after)) :
    after.used - after.cursor < b.used - b.cursor := by
  unfold line extract at read
  cases left : b.remaining with
  | error abort =>
    rw [left] at read
    cases read
  | ok bytes =>
    have length : bytes.length = b.used - b.cursor := lengthOfSlice left
    simp only [left, bind, Except.bind] at read
    cases viewed : b.view b.cursor (b.cursor + min (lineLength bytes) bytes.length) with
    | error abort =>
      rw [viewed] at read
      cases read
    | ok seen =>
      have used := usedOfView viewed
      simp only [viewed, pure, Except.pure] at read
      split at read
      · cases read
      · rename_i filled
        cases read
        have some : found.used ≠ 0 := by simpa [isEmpty] using filled
        simp only
        omega

def stripCommentLines (b target : Blob) : Except Abort (Blob × Blob) :=
  match _ : b.line with
  | .error abort => .error abort
  | .ok (none, after) => .ok (after, target)
  | .ok (some line, after) =>
    if isComment line.content then after.stripCommentLines target
    else match target.append line.content with
      | .error abort => .error abort
      | .ok target => after.stripCommentLines target
  termination_by b.used - b.cursor
  decreasing_by all_goals exact lineForward ‹_›

end ArtifactVault.Blob
