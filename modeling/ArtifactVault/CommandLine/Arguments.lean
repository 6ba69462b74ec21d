import ArtifactVault.Byte

/-!
Reading the arguments of a program by a description of its options and operands. An option's value
is looked at when the next item shows that it is complete, so of two faults the one that is met
first is told.
-/
namespace ArtifactVault.CommandLine

inductive UsageError
  | help
  | version
  | helpForNothing
  | missingSubcommand
  | invalidSubcommand
  | unknownArgument
  | missingArgument
  | emptyValue
  | badValue
  | repeated
  | needlessValue
  deriving DecidableEq, Repr

namespace UsageError

def kind : UsageError → String
  | help => "DisplayHelp"
  | version => "DisplayVersion"
  | helpForNothing => "DisplayHelpOnMissingArgumentOrSubcommand"
  | missingSubcommand => "MissingSubcommand"
  | invalidSubcommand => "InvalidSubcommand"
  | unknownArgument => "UnknownArgument"
  | missingArgument => "MissingRequiredArgument"
  | emptyValue => "InvalidValue"
  | badValue => "ValueValidation"
  | repeated => "ArgumentConflict"
  | needlessValue => "TooManyValues"

def exitCode : UsageError → Nat
  | help => 0
  | version => 0
  | _ => 2

end UsageError

inductive ValueKind
  | path
  | text
  | count
  deriving DecidableEq, Repr

def count? (s : String) : Option Nat :=
  let digits : List Char := match s.toList with
    | '+' :: cs => cs
    | cs => cs
  let n := digits.foldl (fun n c => 10 * n + (c.toNat - 0x30)) 0
  if digits ≠ [] ∧ digits.all (fun c => '0' ≤ c && c ≤ '9') ∧ n < UInt64.size then some n else none

def ValueKind.check (kind : ValueKind) (value : String) : Except UsageError Unit :=
  match kind with
  | .path => if value = "" then .error .emptyValue else .ok ()
  | .text => .ok ()
  | .count => if (count? value).isSome then .ok () else .error .badValue

structure Slot where
  name : String
  kind : ValueKind
  takesMany : Bool
  required : Bool
  deriving DecidableEq, Repr

inductive OptionAction
  | flag
  | value (slot : Slot)
  | help
  | version
  deriving DecidableEq, Repr

structure OptionSpec where
  long : String
  short : Option Char
  action : OptionAction
  deriving DecidableEq, Repr

structure Spec where
  options : List OptionSpec
  operands : List Slot
  deriving DecidableEq, Repr

structure Pending where
  slot : Slot
  values : List String
  deriving DecidableEq, Repr

structure Reading where
  found : List (String × List String)
  pending : Option Pending
  awaitsValue : Bool
  position : Nat
  trailing : Bool
  deriving DecidableEq, Repr

namespace Reading

def start : Reading := ⟨[], none, false, 0, false⟩

def values? (r : Reading) (name : String) : Option (List String) := r.found.lookup name

def has (r : Reading) (name : String) : Bool := (r.values? name).isSome

def value? (r : Reading) (name : String) : Option String :=
  (r.values? name).bind (·.getLast?)

def note (r : Reading) (slot : Slot) (values : List String) : Except UsageError Reading := do
  if values = [] then throw .emptyValue
  if r.has slot.name && !slot.takesMany then throw .repeated
  values.forM slot.kind.check
  let earlier := (r.values? slot.name).getD []
  return { r with found := (slot.name, earlier ++ values) :: r.found }

def settle (r : Reading) : Except UsageError Reading :=
  match r.pending with
  | none => .ok r
  | some held => { r with pending := none }.note held.slot held.values

def react (r : Reading) (option : OptionSpec) : Except UsageError Reading := do
  let r ← r.settle
  match option.action with
  | .help => throw .help
  | .version => throw .version
  | _ =>
    if r.has option.long then throw .repeated
    return { r with found := (option.long, []) :: r.found, awaitsValue := false }

def takeOperand (r : Reading) (spec : Spec) (item : String) (onNone : UsageError) :
    Except UsageError Reading :=
  match spec.operands[r.position]?, r.pending with
  | none, _ => .error onNone
  | some slot, some held =>
    if slot.takesMany ∧ held.slot = slot then
      .ok { r with pending := some ⟨slot, held.values ++ [item]⟩, awaitsValue := false }
    else do
      let r ← r.settle
      return { r with
        pending := some ⟨slot, [item]⟩, awaitsValue := false,
        position := if slot.takesMany then r.position else r.position + 1 }
  | some slot, none =>
    .ok { r with
      pending := some ⟨slot, [item]⟩, awaitsValue := false,
      position := if slot.takesMany then r.position else r.position + 1 }

end Reading

def splitLong (body : List Char) : String × Option String :=
  let name := body.takeWhile (· ≠ '=')
  match body.drop name.length with
  | [] => (String.ofList name, none)
  | _ :: value => (String.ofList name, some (String.ofList value))

def readLong (spec : Spec) (r : Reading) (body : List Char) : Except UsageError Reading :=
  let (name, attached) := splitLong body
  match spec.options.find? (·.long = name) with
  | none => .error .unknownArgument
  | some option =>
    match option.action, attached with
    | .value slot, some value => do
      let r ← (← r.settle).note slot [value]
      return { r with awaitsValue := false }
    | .value slot, none => do
      let r ← r.settle
      return { r with pending := some ⟨slot, []⟩, awaitsValue := true }
    | _, some _ => .error .needlessValue
    | _, none => r.react option

def readShort (spec : Spec) : Reading → List Char → Except UsageError Reading
  | r, [] => .ok r
  | r, c :: cs =>
    match spec.options.find? (·.short = some c) with
    | none => .error .unknownArgument
    | some option => do readShort spec (← r.react option) cs

structure Subcommand where
  name : String
  rest : List String
  deriving DecidableEq, Repr

inductive Shape
  | escape
  | long (body : List Char)
  | short (body : List Char)
  | plain
  deriving DecidableEq, Repr

def Shape.of (item : String) : Shape :=
  match item.toList with
  | ['-', '-'] => .escape
  | '-' :: '-' :: body => .long body
  | ['-'] => .plain
  | '-' :: body => .short body
  | _ => .plain

def strayItem (subcommands : List String) (trailing : Bool) (item : String) : UsageError :=
  if subcommands = [] then .unknownArgument
  else if trailing ∧ subcommands.contains item then .unknownArgument
  else .invalidSubcommand

def scan (spec : Spec) (subcommands : List String) (r : Reading) :
    List String → Except UsageError (Reading × Option Subcommand)
  | [] => .ok (r, none)
  | item :: rest =>
    let asOperand := fun (_ : Unit) =>
      r.takeOperand spec item (strayItem subcommands r.trailing item)
    let next :=
      if r.trailing then asOperand ()
      else
        match Shape.of item with
        | .escape => .ok { r with trailing := true }
        | .long body => readLong spec r body
        | .short body => readShort spec r body
        | .plain =>
          match r.awaitsValue, r.pending with
          | true, some held =>
            .ok { r with
              pending := some ⟨held.slot, held.values ++ [item]⟩, awaitsValue := false }
          | _, _ => asOperand ()
    if ¬r.trailing ∧ ¬r.awaitsValue ∧ subcommands.contains item then
      .ok (r, some ⟨item, rest⟩)
    else
      match next with
      | .ok r => scan spec subcommands r rest
      | .error e => .error e

def checkRequired (spec : Spec) (r : Reading) : Except UsageError Unit :=
  let slots := spec.operands ++ spec.options.filterMap fun option =>
    match option.action with
    | .value slot => some slot
    | _ => none
  if slots.all fun slot => !slot.required || r.has slot.name then .ok ()
  else .error .missingArgument

def readAll (spec : Spec) (arguments : List String) : Except UsageError Reading := do
  let (r, _) ← scan spec [] .start arguments
  let r ← r.settle
  checkRequired spec r
  return r

end ArtifactVault.CommandLine
