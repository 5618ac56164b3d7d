import Dataflow.Analysis

/-! # Solving a routine

However the values are stored, passes over all quads, in block order or against it, go on until
one changes no solved value. Then the value at the far boundary is put together from the quads
next to it.
-/
namespace Dataflow

/-- Repeats a round as long as it reports a change, with word of each, and only so many times. -/
def Run.repeatWhile {σ : Type} (round : Run σ Bool) (tell : Nat → Bool → Run σ Unit) :
    Nat → Nat → Run σ Unit
  | 0, _ => pure ()
  | fuel + 1, count => do
    let changed ← round
    tell count changed
    if changed then repeatWhile round tell fuel (count + 1) else pure ()

structure Visit (σ τ α : Type) [Fact α] where
  changed : Bool
  analysis : Analysis σ α
  met : FactSet α
  solved : τ

/-- How a solver gets at the values in a store of type `σ`. The solved values of a location are a
`τ`. -/
structure Engine (σ τ α : Type) [Fact α] where
  prepare : Routine → Run (Analysis σ α) Unit
  /-- The value on a side of a quad, whatever its neighbors. -/
  value : Analysis σ α → Side → QuadId → Except Error (FactSet α)
  /-- The solved value of a quad toward a neighbor. -/
  toward : Analysis σ α → QuadId → Neighbor → Except Error (FactSet α)
  entry : Analysis σ α → Except Error (FactSet α)
  exit : Analysis σ α → Except Error (FactSet α)
  setEntry : Analysis σ α → FactSet α → Except Error (Analysis σ α)
  setExit : Analysis σ α → FactSet α → Except Error (Analysis σ α)
  setGiven : Analysis σ α → QuadId → FactSet α → Except Error (Analysis σ α)
  /-- The writes, one after the other, that set all solved values of a location. -/
  writes : Direction → Location → FactSet α → List (Analysis σ α → Except Error (Analysis σ α))
  /-- Computes the solved values of a quad from its given value. -/
  process : Analysis σ α → Quad → Except Error (Analysis σ α)
  solved : Analysis σ α → Location → Except Error τ
  differ : τ → τ → Bool
  visitLine : Direction → Location → Visit σ τ α → String
  passLine : String → Nat → Bool → String

namespace Engine

variable {σ τ α : Type} [Fact α]

def inflow (e : Engine σ τ α) (a : Analysis σ α) (id : QuadId) : Neighbor →
    Except Error (FactSet α) :=
  a.direction.inflow id (fun k => e.toward a k (.quad id)) (e.entry a) (e.exit a)

def met (e : Engine σ τ α) (a : Analysis σ α) (l : Location) : Except Error (FactSet α) :=
  a.gather (a.direction.incoming l) (e.inflow a l.id)

/-- Meets what flows into a quad, processes it and compares its solved values with those
before. -/
def visit (e : Engine σ τ α) (a : Analysis σ α) (l : Location) : Except Error (Visit σ τ α) := do
  let old ← e.solved a l
  let met ← e.met a l
  let a ← e.setGiven a l.id met
  let a ← e.process a l.quad
  let new ← e.solved a l
  return ⟨e.differ new old, a, met, new⟩

def visitAt (e : Engine σ τ α) (level : Level) (l : Location) : Run (Analysis σ α) Bool := do
  let a ← Run.get
  let v ← Run.ofExcept (e.visit a l)
  Run.put v.analysis
  Run.say level .trace fun _ => e.visitLine a.direction l v
  return v.changed

/-- Sets every solved value to top. -/
def seed (e : Engine σ τ α) (locations : List Location) : Run (Analysis σ α) Unit :=
  locations.forM fun l => do
    let a ← Run.get
    let scratch ← Run.ofExcept a.scratch
    (e.writes a.direction l scratch.toTop).forM Run.change

/-- Visits every location once, and says whether a solved value changed. -/
def pass (e : Engine σ τ α) (level : Level) (locations : List Location) :
    Run (Analysis σ α) Bool := do
  let a ← Run.get
  (a.direction.arrange locations).foldlM
    (fun changed l => do
      let now ← e.visitAt level l
      return changed || now) false

def iterate (e : Engine σ τ α) (level : Level) (name : String) (locations : List Location) :
    Nat → Nat → Run (Analysis σ α) Unit :=
  Run.repeatWhile (e.pass level locations) fun count changed =>
    Run.say level .debug fun _ => e.passLine name count changed

def farValue (e : Engine σ τ α) (a : Analysis σ α) (locations : List Location) :
    Except Error (FactSet α) :=
  a.gather (locations.filter a.direction.meetsFarEnd) fun l => e.toward a l.id a.direction.farEnd

def settle (e : Engine σ τ α) (level : Level) (locations : List Location) :
    Run (Analysis σ α) Unit := do
  let a ← Run.get
  let value ← Run.ofExcept (e.farValue a locations)
  Run.say level .debug fun _ => toString a.direction.farEnd ++ ": " ++ value.detail
  match a.direction with
  | .forward => Run.change (e.setExit · value)
  | .backward => Run.change (e.setEntry · value)

def readings (e : Engine σ τ α) (a : Analysis σ α) : Readings α where
  ready := do
    let _ ← a.stored
  input := e.value a .input
  output := e.value a .output
  entry := e.entry a

def conclude (e : Engine σ τ α) (level : Level) (f : Routine) :
    Run (Analysis σ α) (List QuadId) := fun a =>
  (a.problem.conclude level f (e.readings a)).zoom (fun _ => ()) (fun a _ => a) a

/-- Prepares, iterates until nothing changes, settles the far boundary and concludes. -/
def solve (e : Engine σ τ α) (level : Level) (f : Routine) :
    Run (Analysis σ α) (List QuadId) := do
  e.prepare f
  let locations ← Run.ofExcept f.locations
  e.seed locations
  let a ← Run.get
  e.iterate level f.name locations (Problem.passLimit a.frame locations) 1
  e.settle level locations
  e.conclude level f

end Engine

end Dataflow
