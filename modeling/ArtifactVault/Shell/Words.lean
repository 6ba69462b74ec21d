import ArtifactVault.Shell.Flavor

/-!
Reading command lines back into words, as each shell does. The POSIX reader expands nothing: a byte
that would call for more than quote removal makes the line unreadable.
-/
namespace ArtifactVault.Shell

inductive PosixMode
  | plain
  | quoted
  | escaped
  deriving DecidableEq, Repr

def isBlank (b : UInt8) : Bool := b = 0x20 || b = 0x09

def isPosixActive (b : UInt8) : Bool := b = 0x0a || Flavor.posix.special.contains b

def push (word : Option Bytes) (b : UInt8) : Option Bytes := some (b :: word.getD [])

def start (word : Option Bytes) : Option Bytes := some (word.getD [])

def finish (word : Option Bytes) (words : List Bytes) : List Bytes :=
  match word with
  | some w => w.reverse :: words
  | none => words

def posixWordsFrom (mode : PosixMode) (word : Option Bytes) : Bytes → Option (List Bytes)
  | [] => if mode = .plain then some (finish word []) else none
  | b :: rest =>
    match mode with
    | .quoted =>
      if b = 0x27 then posixWordsFrom .plain word rest
      else posixWordsFrom .quoted (push word b) rest
    | .escaped => if b = 0x0a then none else posixWordsFrom .plain (push word b) rest
    | .plain =>
      if isBlank b then (posixWordsFrom .plain none rest).map (finish word)
      else if b = 0x27 then posixWordsFrom .quoted (start word) rest
      else if b = 0x5c then posixWordsFrom .escaped word rest
      else if isPosixActive b then none
      else posixWordsFrom .plain (push word b) rest

def posixWords? (line : Bytes) : Option (List Bytes) := posixWordsFrom .plain none line

inductive WindowsMode
  | outside
  | inside
  | doubled
  deriving DecidableEq, Repr

def windowsWordsFrom (mode : WindowsMode) (word : Option Bytes) : Bytes → Option (List Bytes)
  | [] => if mode = .inside then none else some (finish word [])
  | b :: rest =>
    match mode with
    | .inside =>
      if b = 0x22 then windowsWordsFrom .doubled word rest
      else windowsWordsFrom .inside (push word b) rest
    | .doubled =>
      if b = 0x22 then windowsWordsFrom .inside (push word b) rest
      else if Byte.isSpace b then (windowsWordsFrom .outside none rest).map (finish word)
      else windowsWordsFrom .outside (push word b) rest
    | .outside =>
      if Byte.isSpace b then (windowsWordsFrom .outside none rest).map (finish word)
      else if b = 0x22 then windowsWordsFrom .inside (start word) rest
      else windowsWordsFrom .outside (push word b) rest

/-- The words of a Windows command line: white space outside quotes parts them, and inside a quoted
part two quotes stand for one. -/
def windowsWords? (line : Bytes) : Option (List Bytes) := windowsWordsFrom .outside none line

def words? (flavor : Flavor) (line : Bytes) : Option (List Bytes) :=
  match flavor with
  | .posix => posixWords? line
  | .windows => windowsWords? line

end ArtifactVault.Shell
