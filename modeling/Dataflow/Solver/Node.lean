import Dataflow.Solver.Engine
import Dataflow.Storage.NodeStore

/-! # Solving with one In and one Out value per quad

What flows into a quad are the solved values of its neighbors on the given side. A pass reports a
change if the solved value of some quad is another.
-/
namespace Dataflow

abbrev NodeAnalysis (α : Type) [Fact α] := Analysis (NodeStore (FactSet α)) α

namespace NodeAnalysis

variable {α : Type} [Fact α]

abbrev ofProblem (p : Problem α) : NodeAnalysis α := Analysis.ofProblem p

abbrev direction (a : NodeAnalysis α) : Direction := Analysis.direction a

abbrev scratch (a : NodeAnalysis α) : Except Error (FactSet α) := Analysis.scratch a

def get (a : NodeAnalysis α) (side : Side) (id : QuadId) : Except Error (FactSet α) :=
  a.read (·.get side id)

def set (a : NodeAnalysis α) (side : Side) (id : QuadId) (v : FactSet α) :
    Except Error (NodeAnalysis α) := a.write (·.set side id v)

def entry (a : NodeAnalysis α) : Except Error (FactSet α) := a.read fun s => .ok s.entry

def exit (a : NodeAnalysis α) : Except Error (FactSet α) := a.read fun s => .ok s.exit

def setEntry (a : NodeAnalysis α) (v : FactSet α) : Except Error (NodeAnalysis α) :=
  a.write fun s => .ok { s with entry := v }

def setExit (a : NodeAnalysis α) (v : FactSet α) : Except Error (NodeAnalysis α) :=
  a.write fun s => .ok { s with exit := v }

def prepare (a : NodeAnalysis α) (f : Routine) : NodeAnalysis α :=
  let frame := a.problem.frame f
  { a with
    frame := frame
    store := some (.ofRoutine f (a.problem.initial frame) (a.problem.boundary frame)) }

/-- Computes the solved value of a quad from its given value. -/
def process (a : NodeAnalysis α) (q : Quad) : Except Error (NodeAnalysis α) := do
  let v ← a.get a.direction.given q.id
  a.set a.direction.solved q.id (v.onFacts (a.frame.transfer q))

abbrev Visit (α : Type) [Fact α] := Dataflow.Visit (NodeStore (FactSet α)) (FactSet α) α

def visitLine (direction : Direction) (l : Location) (v : Visit α) : String :=
  let (input, output) := match direction with
    | .forward => (v.met.detail, v.solved.detail)
    | .backward => (v.solved.detail, v.met.detail)
  s!"{l.quad} in: {input} out: {output}"

def engine : Engine (NodeStore (FactSet α)) (FactSet α) α where
  prepare f := Run.change fun a => .ok (prepare a f)
  value := get
  toward a id _ := get a a.direction.solved id
  entry := entry
  exit := exit
  setEntry := setEntry
  setExit := setExit
  setGiven a := set a a.direction.given
  writes direction l v := [fun a => set a direction.solved l.id v]
  process := process
  solved a l := get a a.direction.solved l.id
  differ new old := !new.same old
  visitLine := visitLine
  passLine name count changed := s!"{name}: pass {count} changed: {changed}"

def visit (a : NodeAnalysis α) (l : Location) : Except Error (Visit α) := engine.visit a l

def visitAt (level : Level) (l : Location) : Run (NodeAnalysis α) Bool := engine.visitAt level l

def seed (locations : List Location) : Run (NodeAnalysis α) Unit := engine.seed locations

def pass (level : Level) (locations : List Location) : Run (NodeAnalysis α) Bool :=
  engine.pass level locations

def iterate (level : Level) (name : String) (locations : List Location) :
    Nat → Nat → Run (NodeAnalysis α) Unit := engine.iterate level name locations

def settle (level : Level) (locations : List Location) : Run (NodeAnalysis α) Unit :=
  engine.settle level locations

def readings (a : NodeAnalysis α) : Readings α := engine.readings a

def conclude (level : Level) (f : Routine) : Run (NodeAnalysis α) (List QuadId) :=
  engine.conclude level f

def solve (level : Level) (f : Routine) : Run (NodeAnalysis α) (List QuadId) :=
  engine.solve level f

end NodeAnalysis

end Dataflow
