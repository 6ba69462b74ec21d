import ArtifactVault.Shell.Flavor
import ArtifactVault.Abort

/-! How an action ends: with a value that meets a postcondition, or in an abort that callers are
told of. Writes into borrowed bytes and accesses outside a store are never told: no outcome that
is sound ends in one. -/
namespace ArtifactVault

inductive Abort.Documented : Abort → Prop where
  | ceiling {request size} (reached : sizeCeiling ≤ size) : Documented (.ceiling request size)
  | lengthOverflow : Documented .lengthOverflow
  | selfRange {start stop length} (outside : stop < start ∨ length < stop) :
      Documented (.selfRange start stop length)
  | formattedSql : Documented .formattedSql
  | illFormedSql {fault} : Documented (.illFormedSql fault)
  | argumentByte {argument command byte} (present : byte ∈ argument)
      (illegal : ∃ flavor : Shell.Flavor, flavor.role byte = .illegal) :
      Documented (.argumentByte argument command byte)
  | argumentText {argument command} : Documented (.argumentText argument command)

theorem okBind {ε α β : Type} {outcome : Except ε α} {rest : α → Except ε β} {result : β}
    (done : outcome >>= rest = .ok result) :
    ∃ value, outcome = .ok value ∧ rest value = .ok result := by
  cases outcome with
  | error cause => cases done
  | ok value => exact ⟨value, rfl, done⟩

theorem okBindCongr {ε α β : Type} {outcome : Except ε α} {rest other : α → Except ε β}
    (agree : ∀ value, outcome = .ok value → rest value = other value) :
    outcome >>= rest = outcome >>= other := by
  cases outcome with
  | error cause => rfl
  | ok value => exact agree value rfl

def Sound {α : Type} (post : α → Prop) : Except Abort α → Prop
  | .ok value => post value
  | .error cause => cause.Documented

section
variable {α β : Type} {post : α → Prop} {next : β → Prop}

theorem soundMono {weaker : α → Prop} {outcome : Except Abort α} (sound : Sound post outcome)
    (weaken : ∀ value, post value → weaker value) : Sound weaker outcome := by
  cases outcome with
  | ok value => exact weaken value sound
  | error cause => exact sound

theorem soundBind {outcome : Except Abort α} {rest : α → Except Abort β}
    (sound : Sound post outcome) (each : ∀ value, post value → Sound next (rest value)) :
    Sound next (outcome >>= rest) := by
  cases outcome with
  | ok value => exact each value sound
  | error cause => exact sound

theorem soundFold (invariant : β → Prop) {step : β → α → Except Abort β} {items : List α}
    (keeps : ∀ value, invariant value → ∀ item ∈ items, Sound invariant (step value item)) :
    ∀ value, invariant value → Sound invariant (items.foldlM step value) := by
  induction items with
  | nil => exact fun value holds => holds
  | cons item items ih =>
    intro value holds
    rw [List.foldlM_cons]
    refine soundBind (keeps value holds item (by simp)) ?_
    exact ih fun value holds later mem => keeps value holds later (by simp [mem])

def Bounded (post : α → Prop) : Except Abort α → Prop
  | .ok value => post value
  | .error cause => ∃ request size, cause = .ceiling request size ∧ sizeCeiling ≤ size

theorem Bounded.sound {outcome : Except Abort α} (bounded : Bounded post outcome) :
    Sound post outcome := by
  cases outcome with
  | ok value => exact bounded
  | error cause =>
    obtain ⟨request, size, rfl, reached⟩ := bounded
    exact .ceiling reached

theorem boundedMono {weaker : α → Prop} {outcome : Except Abort α} (bounded : Bounded post outcome)
    (weaken : ∀ value, post value → weaker value) : Bounded weaker outcome := by
  cases outcome with
  | ok value => exact weaken value bounded
  | error cause => exact bounded

theorem boundedBind {outcome : Except Abort α} {rest : α → Except Abort β}
    (bounded : Bounded post outcome) (each : ∀ value, post value → Bounded next (rest value)) :
    Bounded next (outcome >>= rest) := by
  cases outcome with
  | ok value => exact each value bounded
  | error cause => exact bounded

theorem boundedOk {outcome : Except Abort α} (succeeds : ∃ value, outcome = .ok value ∧ post value) :
    Bounded post outcome := by
  obtain ⟨value, rfl, holds⟩ := succeeds
  exact holds

theorem boundedCeiling (size : Nat) (request : SizeRequest) :
    Bounded (fun _ => size < sizeCeiling) (checkCeiling size request) := by
  unfold checkCeiling
  split
  · exact ⟨request, size, rfl, by assumption⟩
  · exact Nat.lt_of_not_le (by assumption)

/-- No size is asked for that is larger than `most`, and none but one that reaches the ceiling keeps
the value from meeting the postcondition. -/
def Asking (most : Nat) (post : α → Prop) : Except Abort α → Prop
  | .ok value => post value
  | .error cause =>
    ∃ request size, cause = .ceiling request size ∧ sizeCeiling ≤ size ∧ size ≤ most

theorem Asking.bounded {most : Nat} {outcome : Except Abort α} (asking : Asking most post outcome) :
    Bounded post outcome := by
  cases outcome with
  | ok value => exact asking
  | error cause =>
    obtain ⟨request, size, same, reached, -⟩ := asking
    exact ⟨request, size, same, reached⟩

theorem Asking.below {most : Nat} {outcome : Except Abort α} (asking : Asking most post outcome)
    (small : most < sizeCeiling) : ∃ value, outcome = .ok value ∧ post value := by
  cases outcome with
  | ok value => exact ⟨value, rfl, asking⟩
  | error cause =>
    obtain ⟨request, size, -, reached, asked⟩ := asking
    exact absurd (Nat.le_trans reached asked) (Nat.not_le_of_lt small)

theorem Asking.more {most top : Nat} {outcome : Except Abort α} (asking : Asking most post outcome)
    (larger : most ≤ top) : Asking top post outcome := by
  cases outcome with
  | ok value => exact asking
  | error cause =>
    obtain ⟨request, size, same, reached, asked⟩ := asking
    exact ⟨request, size, same, reached, Nat.le_trans asked larger⟩

theorem askingMono {most : Nat} {weaker : α → Prop} {outcome : Except Abort α}
    (asking : Asking most post outcome) (weaken : ∀ value, post value → weaker value) :
    Asking most weaker outcome := by
  cases outcome with
  | ok value => exact weaken value asking
  | error cause => exact asking

theorem askingBind {most : Nat} {outcome : Except Abort α} {rest : α → Except Abort β}
    (asking : Asking most post outcome) (each : ∀ value, post value → Asking most next (rest value)) :
    Asking most next (outcome >>= rest) := by
  cases outcome with
  | ok value => exact each value asking
  | error cause => exact asking

theorem askingOk {most : Nat} {outcome : Except Abort α}
    (succeeds : ∃ value, outcome = .ok value ∧ post value) : Asking most post outcome := by
  obtain ⟨value, rfl, holds⟩ := succeeds
  exact holds

theorem askingCeiling {size most : Nat} (asked : size ≤ most) (request : SizeRequest) :
    Asking most (fun _ => size < sizeCeiling) (checkCeiling size request) := by
  unfold checkCeiling
  split
  · exact ⟨request, size, rfl, by assumption, asked⟩
  · exact Nat.lt_of_not_le (by assumption)

inductive Alike (related : α → β → Prop) : Except Abort α → Except Abort β → Prop where
  | values {left right} (holds : related left right) : Alike related (.ok left) (.ok right)
  | refused (cause : Abort) : Alike related (.error cause) (.error cause)
  | leftCeiling {request size right} : Alike related (.error (.ceiling request size)) right
  | rightCeiling {left request size} : Alike related left (.error (.ceiling request size))

theorem alikeSame (outcome : Except Abort α) : Alike (· = ·) outcome outcome := by
  cases outcome with
  | ok value => exact .values rfl
  | error cause => exact .refused cause

theorem alikeAlso {related : α → β → Prop} {left : Except Abort α} {right : Except Abort β}
    (alike : Alike related left right) (known : ∀ value, left = .ok value → post value) :
    Alike (fun value other => post value ∧ related value other) left right := by
  cases alike with
  | values holds => exact .values ⟨known _ rfl, holds⟩
  | refused cause => exact .refused cause
  | leftCeiling => exact .leftCeiling
  | rightCeiling => exact .rightCeiling

theorem alikeBounded {related : α → β → Prop} {left : Except Abort α} {right : Except Abort β}
    (first : Bounded post left) (second : Bounded next right)
    (relate : ∀ value other, post value → next other → related value other) :
    Alike related left right := by
  cases left with
  | error cause =>
    obtain ⟨request, size, rfl, -⟩ := first
    exact .leftCeiling
  | ok value =>
    cases right with
    | error cause =>
      obtain ⟨request, size, rfl, -⟩ := second
      exact .rightCeiling
    | ok other => exact .values (relate value other first second)

theorem alikeBind {γ δ : Type} {related : α → β → Prop} {after : γ → δ → Prop}
    {left : Except Abort α} {right : Except Abort β} {restLeft : α → Except Abort γ}
    {restRight : β → Except Abort δ} (alike : Alike related left right)
    (each : ∀ value other, related value other → Alike after (restLeft value) (restRight other)) :
    Alike after (left >>= restLeft) (right >>= restRight) := by
  cases alike with
  | values holds => exact each _ _ holds
  | refused cause => exact .refused cause
  | leftCeiling => exact .leftCeiling
  | rightCeiling => exact .rightCeiling

end

end ArtifactVault
