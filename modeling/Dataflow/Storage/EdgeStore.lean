import Dataflow.Storage.Direction
import Dataflow.Storage.EdgeTable
import Dataflow.Storage.QuadTable

/-! # One value per edge on the solved side

The solved side has a value for every edge, the given side one for all edges together. The
value of the given side along a single edge is out of reach.
-/
namespace Dataflow

structure EdgeStore (α : Type) [Fact α] where
  direction : Direction
  unified : QuadTable (FactSet α)
  edges : EdgeTable (FactSet α)
  entry : FactSet α
  exit : FactSet α
  top : FactSet α

namespace EdgeStore

variable {α : Type} [Fact α]

def ofRoutine (direction : Direction) (f : Routine) (locations : List Location)
    (initial boundary : FactSet α) : EdgeStore α where
  direction := direction
  unified := .ofRoutine f initial
  edges := match direction with
    | .forward => .ofSuccessors locations initial
    | .backward => .ofPredecessors locations initial
  entry := boundary
  exit := boundary
  top := initial.toTop

def singleEdge : Side → String
  | .input => "In along a single predecessor edge"
  | .output => "Out along a single successor edge"

def refusal (verb : String) (side : Side) : Error :=
  .unsupported (verb ++ " " ++ singleEdge side)

def get (s : EdgeStore α) (side : Side) (id : QuadId) (n : Neighbor) :
    Except Error (FactSet α) :=
  if side = s.direction.solved then s.edges.get id n
  else .error (refusal "reading" side)

def set (s : EdgeStore α) (side : Side) (id : QuadId) (n : Neighbor) (a : FactSet α) :
    Except Error (EdgeStore α) :=
  if side = s.direction.solved then do return { s with edges := ← s.edges.set id n a }
  else .error (refusal "setting" side)

/-- The value of a side over all its edges. -/
def getAll (s : EdgeStore α) (side : Side) (id : QuadId) : Except Error (FactSet α) :=
  if side = s.direction.solved then s.edges.meetAll id s.top else s.unified.get id

def setAll (s : EdgeStore α) (side : Side) (id : QuadId) (a : FactSet α) :
    Except Error (EdgeStore α) :=
  if side = s.direction.solved then do return { s with edges := ← s.edges.setAll id a }
  else do return { s with unified := ← s.unified.set id a }

end EdgeStore

end Dataflow
