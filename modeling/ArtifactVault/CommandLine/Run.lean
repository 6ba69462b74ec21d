import ArtifactVault.Blob.Compare
import ArtifactVault.Blob.Cursor
import ArtifactVault.Blob.Normalize
import ArtifactVault.CommandLine.Invocation
import ArtifactVault.Output
import ArtifactVault.Shell.Quoting
import ArtifactVault.Shell.Words
import ArtifactVault.Store.Directory

/-!
Running commands. A command acts on a host and writes to an output; when it fails, both stay as the
steps before the failure left them.
-/
namespace ArtifactVault

def TransferError.chain (e : TransferError) : List String :=
  match e with
  | .system cause => [e.message, cause.message]
  | _ => [e.message]

def StoreError.chain (e : StoreError) : List String :=
  match e with
  | .corrupt _ fault => [e.message, fault.message]
  | .transfer cause => cause.chain
  | .system cause => [e.message, cause.message]
  | _ => [e.message]

namespace CommandLine

inductive Failure
  | unreadableSettings (path : Bytes) (e : SystemError)
  | badSettings (path : Bytes)
  | transfer (e : TransferError)
  | store (e : StoreError)
  | output (e : SystemError)
  | badClasses (bytes : Bytes)
  | badEnvelope (fault : Envelope.Fault)
  | notAnEnvelope (path : Bytes) (fault : Envelope.Fault)
  | contentDiffers (path : Bytes)
  | pairDiffers
  | lineEndsDiffer (path : Bytes)
  | notAName (name : String) (e : NameError)
  | noPosixShell
  | escapeDiffers (number : Nat) (argument line : Bytes) (found : Option (List Bytes))
  deriving DecidableEq, Repr

namespace Failure

def chain : Failure → List String
  | .unreadableSettings path e => [s!"cannot read config file {Utf8.lossy path}", e.message]
  | .badSettings path => [s!"invalid config file {Utf8.lossy path}"]
  | .transfer e => e.chain
  | .store e => e.chain
  | .output e => [e.message]
  | .badClasses bytes =>
    let numbers := ", ".intercalate (bytes.map Abort.hexByte)
    [s!"byte classification is wrong for {bytes.length} byte values: [{numbers}]"]
  | .badEnvelope fault => [fault.message]
  | .notAnEnvelope path fault =>
    [s!"{Utf8.lossy path} is not a compressed envelope", fault.message]
  | .contentDiffers path =>
    [s!"{Utf8.lossy path}: decompressed content differs from the original"]
  | .pairDiffers => ["decompressed content differs from the concatenation"]
  | .lineEndsDiffer path => [s!"{Utf8.lossy path}: CRLF round trip changed the content"]
  | .notAName name e => [s!"{name} is not an artifact hash", e.message]
  | .noPosixShell => ["--fuzz runs arguments through sh and needs a POSIX host"]
  | .escapeDiffers number argument line found =>
    let shown := match found with
      | some words => Utf8.lossy words.flatten
      | none => ""
    [s!"fuzz case {number}: [{Utf8.lossy argument}] became [{Utf8.lossy line}], " ++
      s!"which sh printed as [{shown}]"]

def message (f : Failure) : String := ": ".intercalate f.chain

end Failure

structure Console where
  host : Host
  out : Output
  deriving DecidableEq, Repr

abbrev Job := ExceptT Failure (StateT Console (Except Abort))

namespace Job

def orAbort {α : Type} (step : Except Abort α) : Job α := liftM step

def orFail {ε α : Type} (reason : ε → Failure) (step : Except ε α) : Job α :=
  match step with
  | .ok value => pure value
  | .error e => throw (reason e)

def onFiles {ε α : Type} (reason : ε → Failure) (step : FileTree → Except ε α × FileTree) :
    Job α := do
  let console ← get
  let (outcome, files) := step console.host.files
  set { console with host := { console.host with files } }
  orFail reason outcome

def onOutput (step : Output → Except Abort (Except SystemError Unit × Output)) : Job Unit := do
  let (outcome, out) ← orAbort (step (← get).out)
  modify fun console => { console with out }
  orFail .output outcome

def printLine (text : String) : Job Unit := onOutput (·.appendFormatted [text, "\n"])

def read (settings : Settings) (path : Bytes) : Job Blob := do
  let console ← get
  let (outcome, b, host) ←
    orAbort (Transfer.load console.host .empty path .follow settings.files)
  set { console with host }
  let _ ← orFail .transfer outcome
  return b

def emit (b : Blob) (path : Bytes) : Job Unit := do
  if path = Transfer.dash then onOutput (·.append b.content)
  else
    let console ← get
    let (outcome, host) := Transfer.save console.host b path
    set { console with host }
    let _ ← orFail .transfer outcome

def loadSettings : Option Bytes → Job Settings
  | none => return .standard
  | some path => do
    let text ← orFail (.unreadableSettings path) ((← get).host.files.readText path)
    match Settings.ofText? text with
    | some settings => return settings
    | none => throw (.badSettings path)

def unwrap (reason : Envelope.Fault → Failure) (envelope : Blob) : Job Blob := do
  orFail reason (← orAbort (Envelope.unwrap envelope))

def check : String := "✓"

def testSpace : Job Unit := do
  let bytes := Byte.disagreements
  if !bytes.isEmpty then throw (.badClasses bytes)
  printLine s!"{check} all 256 byte values classified correctly"

def testCompress [Zlib.Encoder] (settings : Settings) (path : Bytes) : Job Unit := do
  let input ← read settings path
  let envelope ← orAbort (Envelope.wrap input)
  let back ← unwrap .badEnvelope envelope
  if !back.equals input then throw (.contentDiffers path)
  printLine s!"{Utf8.lossy path}: {input.used} bytes -> {envelope.used} bytes ok"

def testCompressPair [Zlib.Encoder] (settings : Settings) (first second : Bytes) : Job Unit := do
  let a ← read settings first
  let b ← read settings second
  let envelope ← orAbort (Envelope.wrapPair a b)
  let back ← unwrap .badEnvelope envelope
  let expected ← orAbort do (← a.toOwned).append b.content
  if !back.equals expected then throw .pairDiffers
  printLine s!"{a.used} + {b.used} bytes -> {envelope.used} bytes ok"

def testStripComments (settings : Settings) (input output : Bytes) : Job Unit := do
  let b ← read settings input
  let (_, stripped) ← orAbort (b.stripCommentLines .empty)
  emit stripped output

def showEscaped (flavor : Shell.Flavor) (filename : Bool) (argument : Bytes) : Job Unit := do
  let echo ← orAbort (Blob.ofBytes (Bytes.ascii ['e', 'c', 'h', 'o']))
  let line ← orAbort (Shell.appendArgument echo flavor argument filename)
  printLine s!"input:  {Utf8.lossy argument}"
  printLine s!"output: {line.lossyText}"

def nextSeed (seed : Nat) : Nat := (seed * 6364136223846793005 + 1442695040888963407) % UInt64.size

def wideChars : List Char :=
  ['\u00e9', '\u00df', '\u00a0', '\u20ac', '\u4e2d', Char.ofNat 0x1f600]

def pickChar (seed : Nat) : Char :=
  let n := seed >>> 32
  if n % 8 = 0 then wideChars.getD (n / 8 % 6) ' ' else Char.ofNat (0x20 + n / 8 % 0x5f)

def pickChars : Nat → Nat → List Char
  | 0, _ => []
  | count + 1, seed => pickChar seed :: pickChars count (nextSeed seed)

def fuzzOne (filename : Bool) (number : Nat) : Job Unit := do
  let seed := nextSeed (nextSeed (number + 1))
  let argument := Utf8.encode (pickChars ((seed >>> 32) % 13) seed)
  let command := Bytes.ascii ['p', 'r', 'i', 'n', 't', 'f', ' ', '%', 's']
  let line ← orAbort do Shell.appendArgument (← Blob.ofBytes command) .posix argument filename
  let expected := Shell.guardOf .posix argument filename ++ argument
  let found := Shell.posixWords? (line.content.drop command.length)
  if found ≠ some [expected] then throw (.escapeDiffers number argument line.content found)

def testEscape (arguments : List Bytes) (filename windows : Bool) (fuzz : Option Nat) :
    Job Unit := do
  let flavor := if windows then .windows else .host
  arguments.forM (showEscaped flavor filename)
  match fuzz with
  | none => return
  | some count =>
    if flavor ≠ Shell.Flavor.posix then throw .noPosixShell
    (List.range count).forM (fuzzOne filename)
    printLine s!"{check} {count} random arguments survived sh"

def compress [Zlib.Encoder] (settings : Settings) (input output : Bytes) : Job Unit := do
  let b ← read settings input
  emit (← orAbort (Envelope.wrap b)) output

def uncompress (settings : Settings) (input output : Bytes) : Job Unit := do
  let b ← read settings input
  emit (← unwrap (.notAnEnvelope input) b) output

def testLineEnds (settings : Settings) (file : Bytes) : Job Unit := do
  let b ← read settings file
  let newlines ← orAbort b.newlinesOnly
  let returns ← orAbort do (← newlines.toOwned).addCarriageReturns
  let cycled ← orAbort returns.newlinesOnly
  if !cycled.equals newlines then throw (.lineEndsDiffer file)
  printLine (s!"{Utf8.lossy file}: {newlines.lineCount} lines, {newlines.used} bytes LF, " ++
    s!"{returns.used} bytes CRLF ok")

def openStore (settings : Settings) (root : Bytes) : Job DirectoryStore := do
  onFiles .store (DirectoryStore.prepare · root)
  return ⟨root, settings.store⟩

def storeFile [Zlib.Encoder] (settings : Settings) (file root : Bytes) : Job Unit := do
  let content ← read settings file
  let store ← openStore settings root
  let (outcome, files) ← orAbort (store.put (← get).host.files content)
  modify fun console => { console with host := { console.host with files } }
  let id ← orFail .store outcome
  printLine id.hex

def fetch (settings : Settings) (name : String) (root output : Bytes) : Job Unit := do
  let id ← orFail (.notAName name) (ArtifactId.ofHex (Utf8.ofString name))
  let store ← openStore settings root
  let found ← orAbort (store.get (← get).host.files id)
  match ← orFail .store found with
  | some content => emit content output
  | none => throw (.store (.missing id))

def run [Zlib.Encoder] (invocation : Invocation) : Job Unit := do
  let settings ← loadSettings invocation.settings
  match invocation.command with
  | .testSpace => testSpace
  | .testCompress files => files.forM (testCompress settings)
  | .testCompressPair first second => testCompressPair settings first second
  | .testStripComments input output => testStripComments settings input output
  | .testEscape arguments filename windows fuzz => testEscape arguments filename windows fuzz
  | .compress input output => compress settings input output
  | .uncompress input output => uncompress settings input output
  | .testLineEnds file => testLineEnds settings file
  | .put file root => storeFile settings file root
  | .get name root output => fetch settings name root output

end Job

def Invocation.run [Zlib.Encoder] (invocation : Invocation) (console : Console) :
    Except Abort (Except Failure Unit × Console) :=
  (ExceptT.run (Job.run invocation)).run console

end CommandLine

end ArtifactVault
