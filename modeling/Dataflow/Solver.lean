import Dataflow.Solver.Edge
import Dataflow.Solver.Node

/-! # Solvers

An analysis with its storage, over facts of either type.
-/
namespace Dataflow

inductive Solver where
  | nodeRegister (analysis : NodeAnalysis Register)
  | nodeQuad (analysis : NodeAnalysis QuadId)
  | edgeRegister (analysis : EdgeAnalysis Register)
  | edgeQuad (analysis : EdgeAnalysis QuadId)

namespace Solver

/-- Solves a routine and gives the quads that the analysis judges redundant. -/
def solve (level : Level) (f : Routine) : Run Solver (List QuadId)
  | nodeRegister a => (NodeAnalysis.solve level f a).mapState nodeRegister
  | nodeQuad a => (NodeAnalysis.solve level f a).mapState nodeQuad
  | edgeRegister a => (EdgeAnalysis.solve level f a).mapState edgeRegister
  | edgeQuad a => (EdgeAnalysis.solve level f a).mapState edgeQuad

end Solver

end Dataflow
