import Dataflow.Storage.Direction
import Dataflow.Storage.QuadTable

/-! # One In and one Out value per quad, and the boundary values -/
namespace Dataflow

structure NodeStore (α : Type) where
  inputs : QuadTable α
  outputs : QuadTable α
  entry : α
  exit : α

namespace NodeStore

variable {α : Type}

def ofRoutine (f : Routine) (initial boundary : α) : NodeStore α :=
  ⟨.ofRoutine f initial, .ofRoutine f initial, boundary, boundary⟩

def get (s : NodeStore α) : Side → QuadId → Except Error α
  | .input, id => s.inputs.get id
  | .output, id => s.outputs.get id

def set (s : NodeStore α) (side : Side) (id : QuadId) (a : α) : Except Error (NodeStore α) :=
  match side with
  | .input => do return { s with inputs := ← s.inputs.set id a }
  | .output => do return { s with outputs := ← s.outputs.set id a }

end NodeStore

end Dataflow
