import Dataflow.LiveVariable
import Dataflow.NullCheck
import Dataflow.ReachingDefinition
import Dataflow.Solver.Node

/-! # Questions about one routine

Each is answered by solving the routine from scratch, without logging.
-/
namespace Dataflow.Query

def solved {α : Type} [Fact α] (p : Problem α) (f : Routine) : Except Error (NodeAnalysis α) :=
  let o := NodeAnalysis.solve .off f (.ofProblem p)
  o.result.map (fun _ => o.state)

/-- The value on one side of every quad. -/
def values {α : Type} [Fact α] (p : Problem α) (side : Side) (f : Routine) :
    Except Error (List (QuadId × FactSet α)) := do
  let a ← solved p f
  f.quads.mapM fun q => do return (q.id, ← a.get side q.id)

def redundantNullChecks (mode : NullCheck.Mode) (f : Routine) : Except Error (List QuadId) :=
  (NodeAnalysis.solve .off f (.ofProblem (NullCheck.guardedProblem mode))).result

def reachingDefinitions (f : Routine) : Except Error (List (QuadId × FactSet QuadId)) :=
  values ReachingDefinition.problem .input f

/-- The registers live behind each quad. -/
def liveVariables (f : Routine) : Except Error (List (QuadId × FactSet Register)) :=
  values LiveVariable.problem .output f

end Dataflow.Query
