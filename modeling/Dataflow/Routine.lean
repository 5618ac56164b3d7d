import Dataflow.FlowGraph.Neighbors

/-! # Routines and programs -/
namespace Dataflow

structure Routine where
  name : String
  parameters : List Register
  graph : FlowGraph
deriving DecidableEq, Inhabited

namespace Routine

def quads (f : Routine) : List Quad := f.graph.quads

def quad (f : Routine) (id : QuadId) : Except Error Quad := f.graph.quad id

def locations (f : Routine) : Except Error (List Location) := f.graph.locations

def nullChecks (f : Routine) : List Quad := f.quads.filter Quad.isNullCheck

def listing (f : Routine) : String :=
  let parameters := Text.commas (f.parameters.map toString)
  s!"{f.name}({parameters})\n{f.graph}"

instance : ToString Routine := ⟨listing⟩

end Routine

structure Program where
  routines : List Routine
deriving DecidableEq, Inhabited

/-- The first routine of that name. -/
def Program.routine? (p : Program) (name : String) : Option Routine :=
  p.routines.find? (fun f => f.name == name)

end Dataflow
