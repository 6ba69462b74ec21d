import ArtifactVault.ArtifactId
import ArtifactVault.Toml.Document

/-!
Settings, read from TOML. Each has a default, keys that nobody knows are passed over, and a value of
the wrong type spoils the whole text. A group of settings is a table, or an array of its values in
order.
-/
namespace ArtifactVault

structure FileSettings where
  allowLinks : Bool
  mostRead : Option Nat
  deriving DecidableEq, Repr

structure StoreSettings where
  algorithm : Algorithm
  verifyReads : Bool
  deriving DecidableEq, Repr

structure Settings where
  files : FileSettings
  store : StoreSettings
  deriving DecidableEq, Repr

def FileSettings.standard : FileSettings := ⟨true, none⟩

def StoreSettings.standard : StoreSettings := ⟨.standard, true⟩

def Settings.standard : Settings := ⟨.standard, .standard⟩

namespace Toml

def Value.group? (keys : List String) : Value → Option Entries
  | .table _ entries => some entries
  | .array items => some (keys.zip items)
  | .tables elements => some (keys.zip (elements.map (.table .headed)))
  | .dateTime => some []
  | _ => none

def Value.boolean? : Value → Option Bool
  | .boolean b => some b
  | _ => none

def Value.count? : Value → Option Nat
  | .integer n => if 0 ≤ n then some n.toNat else none
  | _ => none

def Value.isVoid : Value → Bool
  | .table _ entries => entries.isEmpty
  | .array items => items.isEmpty
  | .tables elements => elements.isEmpty
  | _ => false

def Value.name? : Value → Option String
  | .string s => some s
  | .table _ [(key, value)] => if value.isVoid then some key else none
  | _ => none

def Entries.read {α : Type} (entries : Entries) (key : String) (default : α)
    (read? : Value → Option α) : Option α :=
  match entries.lookup key with
  | some value => read? value
  | none => some default

end Toml

def FileSettings.keys : List String := ["allow_symlinks", "max_read_bytes"]

def FileSettings.ofEntries? (entries : Toml.Entries) : Option FileSettings := do
  let allowLinks ← entries.read "allow_symlinks" standard.allowLinks Toml.Value.boolean?
  let mostRead ← entries.read "max_read_bytes" standard.mostRead fun v => v.count?.map some
  return ⟨allowLinks, mostRead⟩

def StoreSettings.keys : List String := ["algorithm", "verify_reads"]

def StoreSettings.ofEntries? (entries : Toml.Entries) : Option StoreSettings := do
  let algorithm ← entries.read "algorithm" standard.algorithm fun v =>
    v.name?.bind Algorithm.ofName?
  let verifyReads ← entries.read "verify_reads" standard.verifyReads Toml.Value.boolean?
  return ⟨algorithm, verifyReads⟩

def Settings.ofEntries? (entries : Toml.Entries) : Option Settings := do
  let files ← entries.read "io" FileSettings.standard fun v =>
    (v.group? FileSettings.keys).bind FileSettings.ofEntries?
  let store ← entries.read "store" StoreSettings.standard fun v =>
    (v.group? StoreSettings.keys).bind StoreSettings.ofEntries?
  return ⟨files, store⟩

def FileSettings.ofText? (text : String) : Option FileSettings :=
  (Toml.document? text).bind ofEntries?

def StoreSettings.ofText? (text : String) : Option StoreSettings :=
  (Toml.document? text).bind ofEntries?

def Settings.ofText? (text : String) : Option Settings := (Toml.document? text).bind ofEntries?

end ArtifactVault
