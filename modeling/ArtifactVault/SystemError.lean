/-!
Failures of files and streams as the machine reports them.
-/
namespace ArtifactVault

inductive SystemError
  | notFound
  | notADirectory
  | isADirectory
  | alreadyExists
  | directoryNotEmpty
  | tooManyLinks
  | nameTooLong
  | zeroInPath
  | illFormedText
  | brokenPipe
  | writeZero
  | interrupted
  deriving DecidableEq, Repr

namespace SystemError

def kind : SystemError → String
  | notFound => "NotFound"
  | notADirectory => "NotADirectory"
  | isADirectory => "IsADirectory"
  | alreadyExists => "AlreadyExists"
  | directoryNotEmpty => "DirectoryNotEmpty"
  | tooManyLinks => "FilesystemLoop"
  | nameTooLong => "InvalidFilename"
  | zeroInPath => "InvalidInput"
  | illFormedText => "InvalidData"
  | brokenPipe => "BrokenPipe"
  | writeZero => "WriteZero"
  | interrupted => "Interrupted"

def message : SystemError → String
  | notFound => "No such file or directory (os error 2)"
  | notADirectory => "Not a directory (os error 20)"
  | isADirectory => "Is a directory (os error 21)"
  | alreadyExists => "File exists (os error 17)"
  | directoryNotEmpty => "Directory not empty (os error 39)"
  | tooManyLinks => "Too many levels of symbolic links (os error 40)"
  | nameTooLong => "File name too long (os error 36)"
  | zeroInPath => "file name contained an unexpected NUL byte"
  | illFormedText => "stream did not contain valid UTF-8"
  | brokenPipe => "Broken pipe (os error 32)"
  | writeZero => "failed to write whole buffer"
  | interrupted => "Interrupted system call (os error 4)"

end SystemError

end ArtifactVault
