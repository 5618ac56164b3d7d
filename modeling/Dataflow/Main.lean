import Dataflow.Command

/-! # The command on real files and streams -/
namespace Dataflow.Command

def FileError.ofSystem : IO.Error → FileError
  | .noFileOrDirectory _ code text => ⟨text, code.toNat⟩
  | .inappropriateType _ code text => ⟨text, code.toNat⟩
  | .invalidArgument _ code text => ⟨text, code.toNat⟩
  | .permissionDenied _ code text => ⟨text, code.toNat⟩
  | .resourceExhausted _ code text => ⟨text, code.toNat⟩
  | .otherError code text => ⟨text, code.toNat⟩
  | e => ⟨toString e, 5⟩

instance : Workspace IO where
  readText path := do
    try return .ok (← IO.FS.readFile path)
    catch e => return .error (.ofSystem e)
  writeText path text := do
    try
      IO.FS.writeFile path text
      return .ok ()
    catch e => return .error (.ofSystem e)
  say text := IO.print text
  complain text := IO.eprint text

end Dataflow.Command

def main (words : List String) : IO UInt32 := do
  let code : UInt32 ← Dataflow.Command.run words
  if code == 2 then
    IO.eprint Dataflow.Command.usage
  return code
