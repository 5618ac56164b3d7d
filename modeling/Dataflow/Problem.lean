import Dataflow.FactSet
import Dataflow.Routine
import Dataflow.Run
import Dataflow.Storage.Direction

/-! # Dataflow problems

A problem says how facts flow and what to conclude from them. For each routine it fixes a
frame: the domain of the facts and the effect of every quad. How many values are stored for
a quad is left to the solvers.
-/
namespace Dataflow

namespace Direction

/-- Locations in the order in which a pass visits them. -/
def arrange : Direction → List Location → List Location
  | forward, locations => locations
  | backward, locations => locations.reverse

/-- The neighbors on the given side. -/
def incoming : Direction → Location → List Neighbor
  | forward, l => l.predecessors
  | backward, l => l.successors

/-- The neighbors on the solved side. -/
def outgoing : Direction → Location → List Neighbor
  | forward, l => l.successors
  | backward, l => l.predecessors

def farEnd : Direction → Neighbor
  | forward => .exit
  | backward => .entry

def meetsFarEnd (d : Direction) (l : Location) : Bool := (d.outgoing l).contains d.farEnd

end Direction

structure Frame (α : Type) [Fact α] where
  domain : OrderedSet α
  transfer : Quad → OrderedSet α → OrderedSet α
  /-- Edges whose value departs from the others, each by a change of the common value. -/
  departures : Quad → List (Neighbor × (OrderedSet α → OrderedSet α))
  /-- Every fact that a boundary or a transfer can bring in. -/
  reach : OrderedSet α

structure Readings (α : Type) [Fact α] where
  ready : Except Error Unit
  input : QuadId → Except Error (FactSet α)
  output : QuadId → Except Error (FactSet α)
  entry : Except Error (FactSet α)

structure Problem (α : Type) [Fact α] where
  direction : Direction
  confluence : Confluence
  /-- The frame before any routine has been prepared. -/
  blank : Frame α
  frame : Routine → Frame α
  boundary : Frame α → FactSet α
  /-- Whether scratch values are to be had before any routine has been prepared. -/
  scratchAtOnce : Bool
  /-- Quads judged redundant, from the final values. -/
  conclude : Level → Routine → Readings α → Run Unit (List QuadId)

namespace Problem

variable {α : Type} [Fact α]

def initial (p : Problem α) (frame : Frame α) : FactSet α := .top frame.domain p.confluence

/-- More passes than can change a value: a value for every neighbor of a quad, and each may
change once per fact. -/
def passLimit (frame : Frame α) (locations : List Location) : Nat :=
  let slots := locations.foldl (fun n l => n + l.predecessors.length + l.successors.length + 1) 0
  slots * (frame.reach.size + 1) + 2

end Problem

end Dataflow
