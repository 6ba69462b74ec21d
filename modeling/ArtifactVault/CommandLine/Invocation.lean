import ArtifactVault.CommandLine.Arguments
import ArtifactVault.Text.Utf8

/-!
The commands of the program and how its arguments name one. Two options, for more messages and for
a file of settings, may stand before the command or after its name.
-/
namespace ArtifactVault.CommandLine

inductive Command
  | testSpace
  | testCompress (files : List Bytes)
  | testCompressPair (first second : Bytes)
  | testStripComments (input output : Bytes)
  | testEscape (arguments : List Bytes) (filename windows : Bool) (fuzz : Option Nat)
  | compress (input output : Bytes)
  | uncompress (input output : Bytes)
  | testLineEnds (file : Bytes)
  | put (file store : Bytes)
  | get (name : String) (store output : Bytes)
  deriving DecidableEq, Repr

structure Invocation where
  command : Command
  verbose : Bool
  settings : Option Bytes
  deriving DecidableEq, Repr

def sharedOptions : List OptionSpec :=
  [⟨"verbose", some 'v', .flag⟩, ⟨"config", none, .value ⟨"config", .path, false, false⟩⟩,
    ⟨"help", some 'h', .help⟩]

def topSpec : Spec := ⟨sharedOptions ++ [⟨"version", some 'V', .version⟩], []⟩

def operand (name : String) (kind : ValueKind) : Slot := ⟨name, kind, false, true⟩

def optionalOperand (name : String) : Slot := ⟨name, .path, false, false⟩

def storeOption : OptionSpec := ⟨"store", none, .value ⟨"store", .path, false, true⟩⟩

def commandSpecs : List (String × Spec) :=
  [("test-isspace", ⟨[], []⟩),
    ("test-compress", ⟨[], [⟨"files", .path, true, true⟩]⟩),
    ("test-compress-2", ⟨[], [operand "first" .path, operand "second" .path]⟩),
    ("test-strip-comment-lines", ⟨[], [optionalOperand "input", optionalOperand "output"]⟩),
    ("test-escaped-arg",
      ⟨[⟨"filename", none, .flag⟩, ⟨"windows", none, .flag⟩,
        ⟨"fuzz", none, .value ⟨"fuzz", .count, false, false⟩⟩],
        [⟨"args", .text, true, false⟩]⟩),
    ("compress", ⟨[], [operand "input" .path, operand "output" .path]⟩),
    ("uncompress", ⟨[], [operand "input" .path, operand "output" .path]⟩),
    ("test-cycle-crlf", ⟨[], [operand "file" .path]⟩),
    ("put", ⟨[storeOption], [operand "file" .path]⟩),
    ("get", ⟨[storeOption], [operand "id" .text, optionalOperand "output"]⟩)]

def helpName : String := "help"

def commandNames : List String := commandSpecs.map (·.1) ++ [helpName]

def pathOf (r : Reading) (name : String) : Bytes := Utf8.ofString ((r.value? name).getD "-")

def pathsOf (r : Reading) (name : String) : List Bytes :=
  ((r.values? name).getD []).map Utf8.ofString

def commandOf (name : String) (r : Reading) : Command :=
  match name with
  | "test-compress" => .testCompress (pathsOf r "files")
  | "test-compress-2" => .testCompressPair (pathOf r "first") (pathOf r "second")
  | "test-strip-comment-lines" => .testStripComments (pathOf r "input") (pathOf r "output")
  | "test-escaped-arg" =>
    .testEscape (pathsOf r "args") (r.has "filename") (r.has "windows")
      ((r.value? "fuzz").bind count?)
  | "compress" => .compress (pathOf r "input") (pathOf r "output")
  | "uncompress" => .uncompress (pathOf r "input") (pathOf r "output")
  | "test-cycle-crlf" => .testLineEnds (pathOf r "file")
  | "put" => .put (pathOf r "file") (pathOf r "store")
  | "get" => .get ((r.value? "id").getD "") (pathOf r "store") (pathOf r "output")
  | _ => .testSpace

def helpFor : List String → UsageError
  | [] => .help
  | [name] => if commandNames.contains name then .help else .invalidSubcommand
  | _ => .invalidSubcommand

def Invocation.ofArguments (arguments : List String) : Except UsageError Invocation := do
  let (top, found) ← scan topSpec commandNames .start arguments
  match found with
  | none =>
    let top ← top.settle
    throw (if top.found.isEmpty then .helpForNothing else .missingSubcommand)
  | some subcommand =>
    if subcommand.name = helpName then throw (helpFor subcommand.rest)
    let own := (commandSpecs.lookup subcommand.name).getD ⟨[], []⟩
    let r ← readAll ⟨sharedOptions ++ own.options, own.operands⟩ subcommand.rest
    let top ← top.settle
    let settings := ((r.value? "config").or (top.value? "config")).map Utf8.ofString
    return ⟨commandOf subcommand.name r, r.has "verbose" || top.has "verbose", settings⟩

end ArtifactVault.CommandLine
