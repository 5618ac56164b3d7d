import Dataflow.FactSet
import Dataflow.Routine

/-! # Values by edge

For every quad one value per neighbor on one of its sides. A quad without neighbors there
has a single value, kept at the boundary, so that its value over all edges is never lost.
-/
namespace Dataflow

structure EdgeTable (α : Type) where
  slots : OrderedMap QuadId (OrderedMap Neighbor α)

namespace EdgeTable

variable {α : Type}

def slotsFor (neighbors : List Neighbor) (boundary : Neighbor) (initial : α) :
    OrderedMap Neighbor α :=
  .ofList ((if neighbors.isEmpty then [boundary] else neighbors).map (fun n => (n, initial)))

def ofSuccessors (locations : List Location) (initial : α) : EdgeTable α :=
  ⟨.ofList (locations.map (fun l => (l.id, slotsFor l.successors .exit initial)))⟩

def ofPredecessors (locations : List Location) (initial : α) : EdgeTable α :=
  ⟨.ofList (locations.map (fun l => (l.id, slotsFor l.predecessors .entry initial)))⟩

def edges (v : EdgeTable α) (id : QuadId) : Except Error (OrderedMap Neighbor α) :=
  match v.slots.get? id with
  | some edges => .ok edges
  | none => .error (.unknownQuad id)

def get (v : EdgeTable α) (id : QuadId) (n : Neighbor) : Except Error α := do
  match (← v.edges id).get? n with
  | some a => return a
  | none => .error (.unknownEdge id (toString n))

/-- Sets the value of an edge, and adds the edge if it is new. -/
def set (v : EdgeTable α) (id : QuadId) (n : Neighbor) (a : α) :
    Except Error (EdgeTable α) := do
  let edges ← v.edges id
  return ⟨v.slots.set id (edges.set n a)⟩

def setAll (v : EdgeTable α) (id : QuadId) (a : α) : Except Error (EdgeTable α) := do
  let edges ← v.edges id
  return ⟨v.slots.set id (edges.map (fun _ => a))⟩

/-- Meets the values of all edges of a quad into `a`. -/
def meetAll [Fact α] (v : EdgeTable (FactSet α)) (id : QuadId) (a : FactSet α) :
    Except Error (FactSet α) := do
  let edges ← v.edges id
  return edges.values.foldl FactSet.meet a

end EdgeTable

end Dataflow
