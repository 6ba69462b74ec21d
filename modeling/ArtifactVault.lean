import ArtifactVault.Abort
import ArtifactVault.ArtifactId
import ArtifactVault.Blob.Basic
import ArtifactVault.Blob.Compare
import ArtifactVault.Blob.Compose
import ArtifactVault.Blob.Cursor
import ArtifactVault.Blob.Growth
import ArtifactVault.Blob.Normalize
import ArtifactVault.Blob.Program
import ArtifactVault.Blob.Session
import ArtifactVault.Byte
import ArtifactVault.CommandLine.Arguments
import ArtifactVault.CommandLine.Invocation
import ArtifactVault.CommandLine.Run
import ArtifactVault.Deflate.Alphabet
import ArtifactVault.Deflate.Bits
import ArtifactVault.Deflate.CodeTree
import ArtifactVault.Deflate.Decode
import ArtifactVault.Deflate.Encode
import ArtifactVault.Digest.Sha1
import ArtifactVault.Digest.Sha3
import ArtifactVault.Envelope
import ArtifactVault.FileTree.Basic
import ArtifactVault.FileTree.Change
import ArtifactVault.FileTree.Disk
import ArtifactVault.FileTree.Path
import ArtifactVault.Hex
import ArtifactVault.Lifetime
import ArtifactVault.Main
import ArtifactVault.Output
import ArtifactVault.Output.Program
import ArtifactVault.Proofs.ArtifactId
import ArtifactVault.Proofs.ArtifactId.Order
import ArtifactVault.Proofs.Blob.Append
import ArtifactVault.Proofs.Blob.Ceiling
import ArtifactVault.Proofs.Blob.Compare
import ArtifactVault.Proofs.Blob.Compose
import ArtifactVault.Proofs.Blob.Cursor
import ArtifactVault.Proofs.Blob.Growth
import ArtifactVault.Proofs.Blob.Html
import ArtifactVault.Proofs.Blob.Interchange
import ArtifactVault.Proofs.Blob.Lasting
import ArtifactVault.Proofs.Blob.LineEnds
import ArtifactVault.Proofs.Blob.Lines
import ArtifactVault.Proofs.Blob.Literals
import ArtifactVault.Proofs.Blob.Marks
import ArtifactVault.Proofs.Blob.Normalize
import ArtifactVault.Proofs.Blob.Numerals
import ArtifactVault.Proofs.Blob.Operations
import ArtifactVault.Proofs.Blob.Ownership
import ArtifactVault.Proofs.Blob.Readable
import ArtifactVault.Proofs.Blob.Run
import ArtifactVault.Proofs.Blob.Sizes
import ArtifactVault.Proofs.Blob.Stale
import ArtifactVault.Proofs.Blob.Storage
import ArtifactVault.Proofs.Blob.Tails
import ArtifactVault.Proofs.Blob.Terminated
import ArtifactVault.Proofs.Blob.Tokens
import ArtifactVault.Proofs.Blob.Transcode
import ArtifactVault.Proofs.Blob.Twins
import ArtifactVault.Proofs.Blob.Units
import ArtifactVault.Proofs.Blob.Unmarked
import ArtifactVault.Proofs.Blob.Variants
import ArtifactVault.Proofs.Byte
import ArtifactVault.Proofs.CommandLine.Jobs
import ArtifactVault.Proofs.CommandLine.LineEnds
import ArtifactVault.Proofs.CommandLine.RoundTrip
import ArtifactVault.Proofs.CommandLine.Runs
import ArtifactVault.Proofs.Deflate.Bits
import ArtifactVault.Proofs.Deflate.Codes
import ArtifactVault.Proofs.Deflate.Format
import ArtifactVault.Proofs.Deflate.Reading
import ArtifactVault.Proofs.Deflate.RoundTrip
import ArtifactVault.Proofs.Deflate.Sizes
import ArtifactVault.Proofs.Deflate.Tokens
import ArtifactVault.Proofs.Envelope
import ArtifactVault.Proofs.Envelope.Acceptance
import ArtifactVault.Proofs.Envelope.Destinations
import ArtifactVault.Proofs.Envelope.Limit
import ArtifactVault.Proofs.FileTree.Changes
import ArtifactVault.Proofs.FileTree.Directories
import ArtifactVault.Proofs.FileTree.Disk
import ArtifactVault.Proofs.FileTree.Lookups
import ArtifactVault.Proofs.FileTree.Nodes
import ArtifactVault.Proofs.FileTree.Outputs
import ArtifactVault.Proofs.FileTree.Paths
import ArtifactVault.Proofs.Keyed
import ArtifactVault.Proofs.Lifetime
import ArtifactVault.Proofs.Lifetime.Reset
import ArtifactVault.Proofs.Outcome
import ArtifactVault.Proofs.Output
import ArtifactVault.Proofs.Output.Sinks
import ArtifactVault.Proofs.Shell.Acceptance
import ArtifactVault.Proofs.Shell.Boundaries
import ArtifactVault.Proofs.Shell.Defused
import ArtifactVault.Proofs.Shell.PosixArguments
import ArtifactVault.Proofs.Shell.PosixWords
import ArtifactVault.Proofs.Shell.Quoting
import ArtifactVault.Proofs.Shell.WindowsWords
import ArtifactVault.Proofs.Store.Acknowledged
import ArtifactVault.Proofs.Store.Agreement
import ArtifactVault.Proofs.Store.Alone
import ArtifactVault.Proofs.Store.Catalogue
import ArtifactVault.Proofs.Store.Contents
import ArtifactVault.Proofs.Store.Counting
import ArtifactVault.Proofs.Store.Directory
import ArtifactVault.Proofs.Store.Holding
import ArtifactVault.Proofs.Store.Housing
import ArtifactVault.Proofs.Store.Install
import ArtifactVault.Proofs.Store.Integrity
import ArtifactVault.Proofs.Store.Interleaving
import ArtifactVault.Proofs.Store.Isolation
import ArtifactVault.Proofs.Store.Listing
import ArtifactVault.Proofs.Store.Memory
import ArtifactVault.Proofs.Store.Placement
import ArtifactVault.Proofs.Store.Roles
import ArtifactVault.Proofs.Store.Shards
import ArtifactVault.Proofs.Store.Sparing
import ArtifactVault.Proofs.Store.Steps
import ArtifactVault.Proofs.Store.Turns
import ArtifactVault.Proofs.Stream.Reader
import ArtifactVault.Proofs.Stream.Writer
import ArtifactVault.Proofs.Text.Json
import ArtifactVault.Proofs.Text.Surrogates
import ArtifactVault.Proofs.Text.Utf16
import ArtifactVault.Proofs.Text.Utf8
import ArtifactVault.Proofs.Transfer
import ArtifactVault.Proofs.Transfer.RoundTrip
import ArtifactVault.Proofs.Zlib
import ArtifactVault.Settings
import ArtifactVault.Shell.Flavor
import ArtifactVault.Shell.Quoting
import ArtifactVault.Shell.Words
import ArtifactVault.Store.Call
import ArtifactVault.Store.Directory
import ArtifactVault.Store.Interleaving
import ArtifactVault.Store.Memory
import ArtifactVault.Store.Packing
import ArtifactVault.Stream.Reader
import ArtifactVault.Stream.Writer
import ArtifactVault.SystemError
import ArtifactVault.Text.CodePage
import ArtifactVault.Text.Json
import ArtifactVault.Text.Quoted
import ArtifactVault.Text.Unprintable
import ArtifactVault.Text.Utf16
import ArtifactVault.Text.Utf8
import ArtifactVault.Toml.Document
import ArtifactVault.Toml.Number
import ArtifactVault.Toml.Text
import ArtifactVault.Toml.Value
import ArtifactVault.Transfer
import ArtifactVault.Zlib
