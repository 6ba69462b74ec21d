import ArtifactVault.Text.Json

/-! Any text is read back from between the quotes it was written in: each character is taken off
alone, in whichever way it was escaped. -/
namespace ArtifactVault.Json

def front (c : Char) (read : List Char × List Char) : List Char × List Char := (c :: read.1, read.2)

theorem unitOfControl : ∀ n < 0x20, unit? '0' '0' (hexDigit (n / 16)) (hexDigit (n % 16)) = some n ∧
    isHighSurrogate n = false ∧ isLowSurrogate n = false := by
  decide

theorem plainOfLong {c : Char} (long : shortEscape? c = none) : c ≠ '"' ∧ c ≠ '\\' := by
  constructor <;> (rintro rfl; cases long)

theorem tailShort {c e : Char} (short : shortEscape? c = some e) (more : List Char) :
    stringTail? ('\\' :: e :: more) = (stringTail? more).map (front c) := by
  unfold shortEscape? at short
  split at short <;> cases short <;> rfl

theorem tailControl {n : Nat} (control : n < 0x20) (more : List Char) :
    stringTail? ('\\' :: 'u' :: '0' :: '0' :: hexDigit (n / 16) :: hexDigit (n % 16) :: more) =
      (stringTail? more).map (front (Char.ofNat n)) := by
  obtain ⟨unit, high, low⟩ := unitOfControl n control
  rw [stringTail?]
  simp only [unit, high, low]
  rfl

theorem tailPlain {c : Char} (quote : c ≠ '"') (slash : c ≠ '\\') (printed : ¬ c.toNat < 0x20)
    (more : List Char) : stringTail? (c :: more) = (stringTail? more).map (front c) := by
  rw [stringTail?]
  · rw [if_neg (not_or.mpr ⟨printed, slash⟩)]
    rfl
  · exact quote
  · exact fun _ _ _ _ _ same _ => slash same
  · exact fun _ _ same _ => slash same

theorem tailEscape (c : Char) (more : List Char) :
    stringTail? (escape c ++ more) = (stringTail? more).map (front c) := by
  unfold escape
  cases short : shortEscape? c with
  | some e => exact tailShort short more
  | none =>
    obtain ⟨quote, slash⟩ := plainOfLong short
    by_cases control : c.toNat < 0x20
    · simp only [if_pos control]
      have read := tailControl control more
      rwa [Char.ofNat_toNat] at read
    · simp only [if_neg control]
      exact tailPlain quote slash control more

theorem tailEscapes (cs rest : List Char) :
    stringTail? (cs.flatMap escape ++ '"' :: rest) = some (cs, rest) := by
  induction cs with
  | nil => rfl
  | cons c cs ih =>
    rw [List.flatMap_cons, List.append_assoc, tailEscape, ih]
    rfl

theorem readQuoted (s : String) : readString? (quote s) = some s := by
  have read : string? (quoteChars s.toList) = some (s.toList, []) := tailEscapes s.toList []
  rw [readString?, quote, String.toList_ofList, read]
  exact congrArg some String.ofList_toList

end ArtifactVault.Json
