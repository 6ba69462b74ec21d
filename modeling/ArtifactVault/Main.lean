import ArtifactVault.CommandLine.Run

/-!
The program. It takes the files that an invocation reads into a host, runs the invocation there, and
carries what was written back to the machine.
-/
namespace ArtifactVault.CommandLine

def version : String := "0.1.0"

def usage : String :=
  "Usage: artifact-vault [--verbose] [--config FILE] COMMAND ...\nCommands: " ++
    " ".intercalate commandNames

def Invocation.inputs (invocation : Invocation) : List Bytes :=
  let own := match invocation.command with
    | .testCompress files => files
    | .testCompressPair first second => [first, second]
    | .testStripComments input _ => [input]
    | .compress input _ => [input]
    | .uncompress input _ => [input]
    | .testLineEnds file => [file]
    | .put file _ => [file]
    | .get name root _ =>
      match ArtifactId.ofHex (Utf8.ofString name) with
      | .ok id => [DirectoryStore.path ⟨root, .standard⟩ id]
      | .error _ => []
    | _ => []
  invocation.settings.toList ++ own

def Invocation.keepsExisting (invocation : Invocation) : Bool :=
  match invocation.command with
  | .put .. => true
  | _ => false

def fetchFile (path : Bytes) : IO (Option Bytes) := do
  try
    return some (← IO.FS.readBinFile (Utf8.lossy path)).toList
  catch e =>
    match e with
    | .noFileOrDirectory .. => return none
    | _ => throw e

def loadHost (invocation : Invocation) : IO Host := do
  let paths := invocation.inputs
  let mut files := FileTree.empty
  for path in paths do
    if !Transfer.isStandardStream path then
      if let some bytes ← fetchFile path then
        files := (Transfer.writePath files bytes path).2
  let input ←
    if paths.any Transfer.isStandardStream then
      pure (Source.ofBytes (← (← IO.getStdin).readBinToEnd).toList)
    else pure []
  return ⟨files, input, []⟩

def Invocation.outputs (invocation : Invocation) : List Bytes :=
  match invocation.command with
  | .testStripComments _ output => [output]
  | .compress _ output => [output]
  | .uncompress _ output => [output]
  | .put _ root => [root]
  | .get _ root output => [root, output]
  | _ => []

def pathOfPlace (files : FileTree) (outputs : List Bytes) (place : Place) : String :=
  let belongs := fun path =>
    match files.resolve .target path with
    | .ok found => FileTree.isAbsolute path && (found.isPrefixOf place || place.isPrefixOf found)
    | .error _ => false
  (if outputs.any belongs then "/" else "./") ++ FileTree.pathText place

def installFile (path : String) (content : ByteArray) : IO Unit := do
  if (← fetchFile (Utf8.ofString path)).isNone then
    let temporary := path ++ ".tmp"
    IO.FS.writeBinFile temporary content
    IO.FS.rename temporary path

def storeFiles (invocation : Invocation) (earlier files : FileTree) : IO Unit := do
  let outputs := invocation.outputs
  for (place, node) in files.entries.mergeSort fun x y => x.1.length ≤ y.1.length do
    if earlier.node? place ≠ some node then
      let path := pathOfPlace files outputs place
      match node with
      | .file content =>
        let bytes := ByteArray.mk content.toArray
        if invocation.keepsExisting then installFile path bytes else IO.FS.writeBinFile path bytes
      | .directory => IO.FS.createDirAll path
      | .link _ => pure ()

def written : Output → Bytes
  | .buffer b => b.content
  | .channel w => w.taken

def Invocation.execute (invocation : Invocation) : IO UInt32 := do
  let host ← loadHost invocation
  match invocation.run ⟨host, .channel .unlimited⟩ with
  | .error abort =>
    IO.eprintln abort.message
    return 101
  | .ok (outcome, console) =>
    storeFiles invocation host.files console.host.files
    let out ← IO.getStdout
    out.write (ByteArray.mk (console.host.printed ++ written console.out).toArray)
    out.flush
    match outcome with
    | .ok _ => return 0
    | .error failure =>
      IO.eprintln s!"error: {failure.message}"
      return 1

def showUsage (e : UsageError) : IO UInt32 := do
  match e with
  | .help => IO.println usage
  | .version => IO.println s!"artifact-vault {version}"
  | _ => IO.eprintln s!"error: {e.kind}\n{usage}"
  return e.exitCode.toUInt32

end ArtifactVault.CommandLine

def main (arguments : List String) : IO UInt32 :=
  match ArtifactVault.CommandLine.Invocation.ofArguments arguments with
  | .ok invocation => invocation.execute
  | .error e => ArtifactVault.CommandLine.showUsage e
