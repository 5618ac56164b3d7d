import Dataflow.Command.Options
import Dataflow.Command.Workspace
import Dataflow.Pass
import Dataflow.Schema.Decode

/-! # The command

Runs a pass over programs stored as JSON text, one file after the other, and stops at the
first failure. Reports of a program are shown only if all its routines succeed.
-/
namespace Dataflow.Command

structure Failure where
  message : String
  causes : List String
deriving DecidableEq

def Failure.ofError (e : Error) : Failure := ⟨e.message, e.causes.map Error.message⟩

def Failure.lines (f : Failure) : List String :=
  s!"error: {f.message}" :: f.causes.map (fun cause => s!"caused by: {cause}")

variable {m : Type → Type} [Monad m] [Workspace m]

def sayLine (line : String) : m Unit := Workspace.say (line ++ "\n")

abbrev Work (m : Type → Type) (α : Type) := ExceptT Failure m α

def readProgram (path : String) : Work m Program := do
  match ← (Workspace.readText path : m _) with
  | .error e => throw ⟨s!"Failed to read {path}", [e.message]⟩
  | .ok text => match Program.ofText text with
    | .error f => throw ⟨s!"Failed to load {path}", [f.message]⟩
    | .ok p => return p

def writeProgram (path : String) (p : Program) : Work m Unit := do
  match ← (Workspace.writeText path p.toJson.pretty : m _) with
  | .error e => throw ⟨s!"Failed to write {path}", [e.message]⟩
  | .ok () => return

def analyze (o : Options) (pass path : String) : Work m Unit := do
  let p ← readProgram path
  (sayLine s!"Now analyzing {path}" : m Unit)
  let outcome := Pass.optimize .off pass p
  match outcome.result with
  | .error e => throw (.ofError e)
  | .ok reports =>
    reports.forM fun r => (sayLine r.listing : m Unit)
    if o.print then
      outcome.state.routines.forM fun f => (Workspace.say f.listing : m Unit)
    match o.output with
    | some output => writeProgram output outcome.state
    | none => return

def execute (o : Options) : Work m Unit := do
  if o.list then
    Pass.names.forM fun name => (sayLine name : m Unit)
  else match o.pass with
    | none => throw ⟨"no pass given", []⟩
    | some pass =>
      if o.output.isSome && o.programs.length != 1 then
        throw ⟨"--output needs exactly one program", []⟩
      o.programs.forM (analyze o pass)

/-- Runs the words of a command line and gives the exit code. -/
def run (words : List String) : m UInt32 := do
  match readRequest words with
  | .help =>
    Workspace.say usage
    return 0
  | .refused => return 2
  | .run o => match ← (execute o).run with
    | .ok () => return 0
    | .error f =>
      f.lines.forM fun line => Workspace.complain (line ++ "\n")
      return 1

end Dataflow.Command
