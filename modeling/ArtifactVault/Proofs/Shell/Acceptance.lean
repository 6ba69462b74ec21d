import Mathlib.Data.List.Basic
import ArtifactVault.Proofs.Text.Utf8
import ArtifactVault.Proofs.Byte
import ArtifactVault.Proofs.Shell.Quoting

/-! Which arguments a command line accepts. An argument is accepted when every lead byte of it has
as many continuation bytes behind it as the lead announces. That is less than being UTF-8: overlong
forms, surrogates and values past the last character are framed in the same way, and these are the
only accepted arguments that are not safe text. -/
namespace ArtifactVault.Shell
open Blob (RoomFor emptyRoom)
open Utf8 (Spelled Valid isContinuation)

def Bare (byte : UInt8) : Prop := 0x1f < byte ∧ byte ≠ 0x7f

instance (byte : UInt8) : Decidable (Bare byte) := inferInstanceAs (Decidable (_ ∧ _))

def SafeText (argument : Bytes) : Prop := Valid argument ∧ ∀ byte ∈ argument, Bare byte

instance (argument : Bytes) : Decidable (SafeText argument) := inferInstanceAs (Decidable (_ ∧ _))

def Printable (byte : UInt8) : Prop := 0x1f < byte ∧ byte < 0x7f

instance (byte : UInt8) : Decidable (Printable byte) := inferInstanceAs (Decidable (_ ∧ _))

def announced? (lead : UInt8) : Option Nat :=
  if 0xc0 ≤ lead ∧ lead ≤ 0xdf then some 1
  else if 0xe0 ≤ lead ∧ lead ≤ 0xef then some 2
  else if 0xf0 ≤ lead ∧ lead ≤ 0xf7 then some 3
  else none

inductive Framed : Bytes → Prop where
  | nil : Framed []
  | printable {byte : UInt8} {rest : Bytes} (shown : Printable byte) (behind : Framed rest) :
      Framed (byte :: rest)
  | character {lead : UInt8} {more rest : Bytes} (announced : announced? lead = some more.length)
      (continued : ∀ byte ∈ more, isContinuation byte = true) (behind : Framed rest) :
      Framed (lead :: (more ++ rest))

theorem roleOfPrintable (flavor : Flavor) : ∀ byte,
    (flavor.role byte = .safe ∨ flavor.role byte = .quoted) ↔ Printable byte := by
  cases flavor <;> exact Byte.everyByte (by decide +kernel)

theorem roleOfLead (flavor : Flavor) (byte : UInt8) (n : Nat) :
    flavor.role byte = .lead n ↔ announced? byte = some n := by
  have each : ∀ byte, announced? byte = match flavor.role byte with
      | .lead n => some n
      | _ => none := by
    cases flavor <;> exact Byte.everyByte (by decide +kernel)
  rw [each byte]
  cases flavor.role byte with
  | lead k => simp
  | safe => simp
  | quoted => simp
  | illegal => simp

theorem framedOfScan {flavor : Flavor} {quoting result : Bool} {argument : Bytes}
    (accepted : scan flavor quoting argument = .ok result) : Framed argument := by
  fun_induction scan flavor quoting argument with
  | case1 => exact .nil
  | case2 quoting byte rest role ih =>
    exact .printable ((roleOfPrintable flavor byte).mp (.inl role)) (ih accepted)
  | case3 quoting byte rest role ih =>
    exact .printable ((roleOfPrintable flavor byte).mp (.inr role)) (ih accepted)
  | case4 => cases accepted
  | case5 quoting lead rest n role continuations whole ih =>
    have announced := (roleOfLead flavor lead n).mp role
    rw [← whole.1] at announced
    have framed := Framed.character announced (List.all_eq_true.mp whole.2) (ih accepted)
    rwa [List.take_append_drop] at framed
  | case6 => cases accepted

theorem scanOfFramed (flavor : Flavor) {argument : Bytes} (framed : Framed argument)
    (quoting : Bool) : ∃ result, scan flavor quoting argument = .ok result := by
  induction framed generalizing quoting with
  | nil => exact ⟨quoting, by rw [scan]⟩
  | printable shown _ ih =>
    rcases (roleOfPrintable flavor _).mpr shown with safe | quoted
    · rw [scan]
      simp only [safe]
      exact ih quoting
    · rw [scan]
      simp only [quoted]
      exact ih true
  | @character lead more rest announced continued _ ih =>
    rw [scan]
    simp only [(roleOfLead flavor _ _).mpr announced, List.take_left, List.drop_left]
    rw [if_pos ⟨trivial, List.all_eq_true.mpr continued⟩]
    exact ih true

def Misformed (lead next : UInt8) : Prop :=
  lead = 0xc0 ∨ lead = 0xc1 ∨ (lead = 0xe0 ∧ next < 0xa0) ∨ (lead = 0xed ∧ 0xa0 ≤ next) ∨
    (lead = 0xf0 ∧ next < 0x90) ∨ (lead = 0xf4 ∧ 0x90 ≤ next) ∨ 0xf5 ≤ lead

def Loose (argument : Bytes) : Prop :=
  ∃ lead next, [lead, next] <:+: argument ∧ Misformed lead next

theorem looseCons {byte : UInt8} {rest : Bytes} :
    Loose (byte :: rest) ↔ (∃ next, rest.head? = some next ∧ Misformed byte next) ∨ Loose rest := by
  constructor
  · rintro ⟨lead, next, inside, misformed⟩
    rcases List.infix_cons_iff.mp inside with front | later
    · obtain ⟨rfl, after, rfl⟩ := List.cons_prefix_cons.mp front
      exact .inl ⟨next, rfl, misformed⟩
    · exact .inr ⟨lead, next, later, misformed⟩
  · rintro (⟨next, first, misformed⟩ | ⟨lead, next, inside, misformed⟩)
    · obtain ⟨after, rfl⟩ := List.head?_eq_some_iff.mp first
      exact ⟨byte, next, ⟨[], after, rfl⟩, misformed⟩
    · exact ⟨lead, next, inside.trans (List.suffix_cons byte rest).isInfix, misformed⟩

theorem looseBehind {byte : UInt8} {rest : Bytes} (low : byte < 0xc0) :
    Loose (byte :: rest) ↔ Loose rest := by
  rw [looseCons]
  refine or_iff_right ?_
  rintro ⟨next, -, misformed⟩
  simp only [Misformed, UInt8.le_iff_toNat_le, UInt8.lt_iff_toNat_lt, ← UInt8.toNat_inj,
    UInt8.reduceToNat] at misformed low
  omega

theorem looseBehindContinuations {more rest : Bytes}
    (continued : ∀ byte ∈ more, isContinuation byte = true) :
    Loose (more ++ rest) ↔ Loose rest := by
  induction more with
  | nil => rfl
  | cons byte more ih =>
    have continues := Utf8.continuationIff.mp (continued byte (by simp))
    have low : byte < 0xc0 := by
      simp only [UInt8.lt_iff_toNat_lt, UInt8.reduceToNat]
      omega
    rw [List.cons_append, looseBehind low]
    exact ih fun later mem => continued later (by simp [mem])

theorem looseCharacter {lead next : UInt8} {more rest : Bytes}
    (continued : ∀ byte ∈ next :: more, isContinuation byte = true) :
    Loose (lead :: (next :: more ++ rest)) ↔ Misformed lead next ∨ Loose rest := by
  rw [looseCons, looseBehindContinuations continued]
  simp

theorem spelledIffFormed {lead next : UInt8} {more : Bytes}
    (announced : announced? lead = some (next :: more).length)
    (continued : ∀ byte ∈ next :: more, isContinuation byte = true) :
    (∃ c, Spelled c (lead :: next :: more)) ↔ ¬ Misformed lead next := by
  have leads {low high : UInt8} : low ≤ lead ∧ lead ≤ high ↔
      low.toNat ≤ lead.toNat ∧ lead.toNat ≤ high.toNat := by simp only [UInt8.le_iff_toNat_le]
  have second := Utf8.continuationIff.mp (continued next (by simp))
  unfold announced? at announced
  simp only [leads, UInt8.reduceToNat] at announced
  simp only [Misformed, UInt8.le_iff_toNat_le, UInt8.lt_iff_toNat_lt, ← UInt8.toNat_inj,
    UInt8.reduceToNat]
  constructor
  · rintro ⟨c, spelled⟩
    cases spelled with
    | two lead => omega
    | three lead second =>
      have second := Utf8.secondOfThreeIff.mp second
      omega
    | four lead second =>
      have second := Utf8.secondOfFourIff.mp second
      omega
  · intro formed
    split at announced
    · obtain rfl : more = [] := List.eq_nil_of_length_eq_zero (by simpa using announced.symm)
      exact ⟨_, .two (by omega) (continued next (by simp))⟩
    · split at announced
      · obtain ⟨third, rfl⟩ : ∃ third, more = [third] :=
          List.length_eq_one_iff.mp (by simpa using announced.symm)
        exact ⟨_, .three (by omega) (Utf8.secondOfThreeIff.mpr (by omega))
          (continued third (by simp))⟩
      · split at announced
        · obtain ⟨third, fourth, rfl⟩ : ∃ third fourth, more = [third, fourth] :=
            List.length_eq_two.mp (by simpa using announced.symm)
          exact ⟨_, .four (by omega) (Utf8.secondOfFourIff.mpr (by omega))
            (continued third (by simp)) (continued fourth (by simp))⟩
        · cases announced

theorem bareOfHigh {byte : UInt8} (high : 0x80 ≤ byte.toNat) : Bare byte := by
  simp only [Bare, UInt8.lt_iff_toNat_lt, ne_eq, ← UInt8.toNat_inj, UInt8.reduceToNat]
  omega

theorem barePrintable {byte : UInt8} (low : byte.toNat < 0x80) (bare : Bare byte) :
    Printable byte := by
  simp only [Bare, Printable, UInt8.lt_iff_toNat_lt, ne_eq, ← UInt8.toNat_inj,
    UInt8.reduceToNat] at bare ⊢
  omega

theorem leadOfAnnounced {lead : UInt8} {n : Nat} (announced : announced? lead = some n) :
    0x80 ≤ lead.toNat ∧ 0 < n := by
  unfold announced? at announced
  simp only [UInt8.le_iff_toNat_le, UInt8.reduceToNat] at announced
  split at announced
  · cases announced
    omega
  · split at announced
    · cases announced
      omega
    · split at announced
      · cases announced
        omega
      · cases announced

theorem safeOfFramed {argument : Bytes} (framed : Framed argument) (firm : ¬ Loose argument) :
    SafeText argument := by
  induction framed with
  | nil => exact ⟨⟨[], rfl⟩, by simp⟩
  | @printable byte rest shown _ ih =>
    have low : byte.toNat < 0x80 := by
      have below := UInt8.lt_iff_toNat_lt.mp shown.2
      simp only [UInt8.reduceToNat] at below
      omega
    obtain ⟨valid, bare⟩ := ih fun loose => firm (looseCons.mpr (.inr loose))
    exact ⟨Utf8.spelledValid (.one low) valid,
      List.forall_mem_cons.mpr ⟨⟨shown.1, UInt8.ne_of_lt shown.2⟩, bare⟩⟩
  | @character lead more rest announced continued _ ih =>
    obtain ⟨high, some⟩ := leadOfAnnounced announced
    obtain ⟨next, more, rfl⟩ := List.exists_cons_of_length_pos some
    rw [looseCharacter continued, not_or] at firm
    obtain ⟨c, spelled⟩ := (spelledIffFormed announced continued).mpr firm.1
    obtain ⟨valid, bare⟩ := ih firm.2
    refine ⟨Utf8.spelledValid spelled valid, List.forall_mem_cons.mpr ⟨bareOfHigh high, ?_⟩⟩
    refine List.forall_mem_append.mpr ⟨fun byte mem => ?_, bare⟩
    exact bareOfHigh (Utf8.continuationIff.mp (continued byte mem)).1

theorem characterOfSpelled {c : Char} {lead : UInt8} {more : Bytes}
    (spelled : Spelled c (lead :: more)) (bare : Bare lead) :
    (Printable lead ∧ more = []) ∨
      (announced? lead = some more.length ∧ (∀ byte ∈ more, isContinuation byte = true) ∧
        ∃ next later, more = next :: later) := by
  unfold announced?
  simp only [UInt8.le_iff_toNat_le, UInt8.reduceToNat]
  cases spelled with
  | one low => exact .inl ⟨barePrintable low bare, rfl⟩
  | @two lead second range continues =>
    rw [if_pos (by omega)]
    exact .inr ⟨rfl, by simpa using continues, second, [], rfl⟩
  | @three lead second third range continues last =>
    have second := Utf8.continuationOfThree continues
    rw [if_neg (by omega), if_pos (by omega)]
    exact .inr ⟨rfl, by simpa using ⟨second, last⟩, _, _, rfl⟩
  | @four lead second third fourth range continues next last =>
    have second := Utf8.continuationOfFour continues
    rw [if_neg (by omega), if_neg (by omega), if_pos (by omega)]
    exact .inr ⟨rfl, by simpa using ⟨second, next, last⟩, _, _, rfl⟩

theorem framedOfValid (cs : List Char) (bare : ∀ byte ∈ Utf8.encode cs, Bare byte) :
    Framed (Utf8.encode cs) ∧ ¬ Loose (Utf8.encode cs) := by
  induction cs with
  | nil =>
    refine ⟨.nil, ?_⟩
    rintro ⟨lead, next, inside, -⟩
    exact absurd (List.infix_nil.mp inside) (by simp)
  | cons c cs ih =>
    obtain ⟨lead, more, bytes, spelled⟩ := Utf8.headOfEncoding c
    have whole : Utf8.encode (c :: cs) = lead :: (more ++ Utf8.encode cs) := by
      simp only [Utf8.encode, List.flatMap_cons, bytes, List.cons_append]
    rw [whole] at bare ⊢
    obtain ⟨leadBare, laterBare⟩ := List.forall_mem_cons.mp bare
    obtain ⟨framed, firm⟩ := ih (List.forall_mem_append.mp laterBare).2
    rcases characterOfSpelled spelled leadBare with ⟨shown, rfl⟩ | ⟨announced, continued, next, later, rfl⟩
    · refine ⟨.printable shown framed, ?_⟩
      rw [List.nil_append, looseBehind (UInt8.lt_trans shown.2 (by decide))]
      exact firm
    · refine ⟨.character announced continued framed, ?_⟩
      rw [looseCharacter continued, not_or]
      exact ⟨(spelledIffFormed announced continued).mp ⟨c, spelled⟩, firm⟩

theorem safeIff (argument : Bytes) : SafeText argument ↔ Framed argument ∧ ¬ Loose argument := by
  constructor
  · rintro ⟨⟨cs, rfl⟩, bare⟩
    exact framedOfValid cs bare
  · rintro ⟨framed, firm⟩
    exact safeOfFramed framed firm

theorem acceptedIff {b : Blob} {argument : Bytes} (flavor : Flavor) (isFilename : Bool)
    (room : RoomFor b (b.used + (2 * argument.length + 5))) :
    (∃ line, appendArgument b flavor argument isFilename = .ok line) ↔ Framed argument := by
  constructor
  · rintro ⟨line, done⟩
    have sound := appendArgumentSound room.wellFormed flavor argument isFilename
    rw [done] at sound
    obtain ⟨quoting, scanned, -⟩ := sound
    exact framedOfScan scanned
  · intro framed
    obtain ⟨quoting, scanned⟩ := scanOfFramed flavor framed false
    have short := lengthAdded flavor b.content quoting argument isFilename
    obtain ⟨line, done, -⟩ := appendArgumentWithin isFilename room scanned
      (Nat.add_le_add_left short _)
    exact ⟨line, done⟩

/-- Acceptance means framing and nothing else; it means safe text exactly for the arguments without
an overlong form, a surrogate or a value past the last character. -/
theorem argumentsAcceptedWhenFramed {b : Blob} {argument : Bytes} (flavor : Flavor)
    (isFilename : Bool) (room : RoomFor b (b.used + (2 * argument.length + 5))) :
    ((∃ line, appendArgument b flavor argument isFilename = .ok line) ↔ Framed argument) ∧
      (((∃ line, appendArgument b flavor argument isFilename = .ok line) ↔ SafeText argument) ↔
        ¬ (Framed argument ∧ Loose argument)) := by
  have accepted := acceptedIff flavor isFilename room
  refine ⟨accepted, ?_⟩
  rw [accepted, safeIff, not_and]
  exact iff_self_and

theorem accentAccepted : SafeText [0xc3, 0xa9] ∧
    ∃ line, appendArgument Blob.empty .posix [0xc3, 0xa9] false = .ok line := by
  have framed : Framed [0xc3, 0xa9] :=
    @Framed.character 0xc3 [0xa9] [] (by decide +kernel) (by decide +kernel) .nil
  have accepted := (argumentsAcceptedWhenFramed .posix false (emptyRoom (by decide))).1.mpr framed
  exact ⟨by decide +kernel, accepted⟩

theorem overlongZeroAccepted : ¬ SafeText [0xc0, 0x80] ∧
    ∃ line, appendArgument Blob.empty .posix [0xc0, 0x80] false = .ok line ∧
      line.content = [0x27, 0xc0, 0x80, 0x27] := by
  have accepted : (appendArgument Blob.empty .posix [0xc0, 0x80] false).map (·.content) =
      .ok [0x27, 0xc0, 0x80, 0x27] := by decide +kernel
  refine ⟨by decide +kernel, ?_⟩
  cases done : appendArgument Blob.empty .posix [0xc0, 0x80] false with
  | error cause =>
    rw [done] at accepted
    cases accepted
  | ok line =>
    rw [done] at accepted
    exact ⟨line, rfl, Except.ok.inj accepted⟩

end ArtifactVault.Shell
