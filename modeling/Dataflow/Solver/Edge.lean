import Dataflow.Solver.Engine
import Dataflow.Storage.EdgeStore

/-! # Solving with one solved value per edge

As with one value per quad, but each edge on the solved side has a value of its own, and
what flows into a quad is the value of the edge to it.
-/
namespace Dataflow

abbrev EdgeAnalysis (α : Type) [Fact α] := Analysis (EdgeStore α) α

namespace EdgeAnalysis

variable {α : Type} [Fact α]

abbrev ofProblem (p : Problem α) : EdgeAnalysis α := Analysis.ofProblem p

abbrev direction (a : EdgeAnalysis α) : Direction := Analysis.direction a

abbrev scratch (a : EdgeAnalysis α) : Except Error (FactSet α) := Analysis.scratch a

def get (a : EdgeAnalysis α) (side : Side) (id : QuadId) (n : Neighbor) :
    Except Error (FactSet α) := a.read (·.get side id n)

def getAll (a : EdgeAnalysis α) (side : Side) (id : QuadId) : Except Error (FactSet α) :=
  a.read (·.getAll side id)

def set (a : EdgeAnalysis α) (side : Side) (id : QuadId) (n : Neighbor) (v : FactSet α) :
    Except Error (EdgeAnalysis α) := a.write (·.set side id n v)

def setAll (a : EdgeAnalysis α) (side : Side) (id : QuadId) (v : FactSet α) :
    Except Error (EdgeAnalysis α) := a.write (·.setAll side id v)

def entry (a : EdgeAnalysis α) : Except Error (FactSet α) := a.read fun s => .ok s.entry

def exit (a : EdgeAnalysis α) : Except Error (FactSet α) := a.read fun s => .ok s.exit

def setEntry (a : EdgeAnalysis α) (v : FactSet α) : Except Error (EdgeAnalysis α) :=
  a.write fun s => .ok { s with entry := v }

def setExit (a : EdgeAnalysis α) (v : FactSet α) : Except Error (EdgeAnalysis α) :=
  a.write fun s => .ok { s with exit := v }

/-- The frame is that of the new routine even if its locations are not to be had; the values
are then those of the routine before. -/
def prepare (f : Routine) : Run (EdgeAnalysis α) Unit := do
  let a ← Run.get
  let frame := a.problem.frame f
  let a := { a with frame := frame }
  Run.put a
  let locations ← Run.ofExcept f.locations
  Run.put { a with
    store := some (.ofRoutine a.direction f locations (a.problem.initial frame)
      (a.problem.boundary frame)) }

/-- Computes the solved value of a quad from its given value, for all edges alike, and then
lets single edges depart from it. -/
def process (a : EdgeAnalysis α) (q : Quad) : Except Error (EdgeAnalysis α) := do
  let v ← a.getAll a.direction.given q.id
  let v := v.onFacts (a.frame.transfer q)
  let b ← a.setAll a.direction.solved q.id v
  (a.frame.departures q).foldlM
    (fun b d => b.set b.direction.solved q.id d.1 (v.onFacts d.2)) b

/-- The solved values along the edges of a location. -/
def snapshot (a : EdgeAnalysis α) (l : Location) :
    Except Error (OrderedMap Neighbor (FactSet α)) :=
  (a.direction.outgoing l).foldlM
    (fun values n => do return values.set n (← a.get a.direction.solved l.id n)) ∅

abbrev Visit (α : Type) [Fact α] :=
  Dataflow.Visit (EdgeStore α) (OrderedMap Neighbor (FactSet α)) α

def neighborDetail : Neighbor → String
  | .entry => "Entry"
  | .quad id => s!"Quad({id})"
  | .exit => "Exit"

def visitLine (l : Location) (v : Visit α) : String :=
  let met := v.met.detail
  let edges := Text.commas (v.solved.entries.map
    (fun e => neighborDetail e.1 ++ ": " ++ e.2.detail))
  s!"{l.quad} meet: {met} edges: \x7b{edges}\x7d"

def engine : Engine (EdgeStore α) (OrderedMap Neighbor (FactSet α)) α where
  prepare := prepare
  value := getAll
  toward a := get a a.direction.solved
  entry := entry
  exit := exit
  setEntry := setEntry
  setExit := setExit
  setGiven a := setAll a a.direction.given
  writes direction l v :=
    (direction.outgoing l).map fun n a => set a direction.solved l.id n v
  process := process
  solved := snapshot
  differ new old := decide (new.map FactSet.facts ≠ old.map FactSet.facts)
  visitLine _ := visitLine
  passLine name count changed := s!"{name}: edge pass {count} changed: {changed}"

def visit (a : EdgeAnalysis α) (l : Location) : Except Error (Visit α) := engine.visit a l

def visitAt (level : Level) (l : Location) : Run (EdgeAnalysis α) Bool := engine.visitAt level l

def seed (locations : List Location) : Run (EdgeAnalysis α) Unit := engine.seed locations

def pass (level : Level) (locations : List Location) : Run (EdgeAnalysis α) Bool :=
  engine.pass level locations

def iterate (level : Level) (name : String) (locations : List Location) :
    Nat → Nat → Run (EdgeAnalysis α) Unit := engine.iterate level name locations

def settle (level : Level) (locations : List Location) : Run (EdgeAnalysis α) Unit :=
  engine.settle level locations

def readings (a : EdgeAnalysis α) : Readings α := engine.readings a

def conclude (level : Level) (f : Routine) : Run (EdgeAnalysis α) (List QuadId) :=
  engine.conclude level f

def solve (level : Level) (f : Routine) : Run (EdgeAnalysis α) (List QuadId) :=
  engine.solve level f

end EdgeAnalysis

end Dataflow
