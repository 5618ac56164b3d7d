/-! # Workspaces

What a command touches: files, an output and an error stream.
-/
namespace Dataflow.Command

/-- Why a file could not be read or written: the system's words and number for it. -/
structure FileError where
  text : String
  code : Nat
deriving DecidableEq

namespace FileError

def missing : FileError := ⟨"No such file or directory", 2⟩

def notDirectory : FileError := ⟨"Not a directory", 20⟩

def isDirectory : FileError := ⟨"Is a directory", 21⟩

def nameTooLong : FileError := ⟨"File name too long", 36⟩

def message (e : FileError) : String := s!"{e.text} (os error {e.code})"

end FileError

class Workspace (m : Type → Type) where
  readText : String → m (Except FileError String)
  writeText : String → String → m (Except FileError Unit)
  say : String → m Unit
  complain : String → m Unit

end Dataflow.Command
