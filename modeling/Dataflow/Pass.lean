import Dataflow.LiveVariable
import Dataflow.NullCheck
import Dataflow.ReachingDefinition
import Dataflow.Schema.Encode
import Dataflow.Solver

/-! # Passes

A pass is a problem with the storage it is solved on, under a name. Quads judged redundant
are taken out of the routine afterwards.
-/
namespace Dataflow.Pass

/-- Every pass, by ascending name. -/
def all : List (String × Solver) :=
  [("edge-null-checks", .edgeRegister (.ofProblem (NullCheck.problem .moveAware))),
    ("edge-reaching-definitions", .edgeQuad (.ofProblem ReachingDefinition.problem)),
    ("live-variables", .nodeRegister (.ofProblem LiveVariable.problem)),
    ("move-null-checks", .nodeRegister (.ofProblem (NullCheck.guardedProblem .moveAware))),
    ("null-checks", .nodeRegister (.ofProblem (NullCheck.guardedProblem .basic))),
    ("reaching-definitions", .nodeQuad (.ofProblem ReachingDefinition.problem))]

def names : List String := all.map (·.1)

def named (name : String) : Except Error Solver :=
  match all.find? (fun p => p.1 == name) with
  | some p => .ok p.2
  | none => .error (.unknownPass name)

/-- What a pass has taken out of a routine, ascending. -/
structure Report where
  routine : String
  removed : List QuadId
deriving DecidableEq

namespace Report

def listing (r : Report) : String :=
  r.removed.foldl (fun text id => s!"{text} {id}") r.routine

def toJson (r : Report) : Json :=
  .object [("function", .text r.routine), ("removed", .ofList .ofUInt64 r.removed)]

end Report

def eraseQuad (level : Level) (id : QuadId) : Run Routine Unit := do
  let f ← Run.get
  let q ← (FlowGraph.eraseQuad id).zoom Routine.graph (fun f graph => { f with graph := graph })
  Run.say level .info fun _ => s!"{f.name}: removed {q}"

/-- Solves a routine, then takes the redundant quads out of it one by one. -/
def run (level : Level) : Run (Solver × Routine) Report := do
  let (_, f) ← Run.get
  let redundant ← ((Solver.solve level f).zoom Prod.fst (fun s solver => (solver, s.2))).mapError
    (.failed s!"Failed to analyze {f.name}")
  let removed := (OrderedSet.ofList redundant).toList
  removed.forM fun id => (eraseQuad level id).zoom Prod.snd (fun s f => (s.1, f))
  return ⟨f.name, removed⟩

/-- Runs a pass over routines in order with one solver, up to the first failure. -/
def runAll (level : Level) (name : String) : Solver → Run (List Routine) (List Report)
  | _, [] => ⟨.ok [], [], []⟩
  | solver, f :: routines =>
    let o := (do
      Run.say level .debug fun _ => s!"running {name} over {f.name}"
      run level : Run (Solver × Routine) Report) (solver, f)
    let (solver, f) := o.state
    match o.result with
    | .error e => ⟨.error e, f :: routines, o.log⟩
    | .ok report =>
      let rest := runAll level name solver routines
      ⟨rest.result.map (report :: ·), f :: rest.state, o.log ++ rest.log⟩

def optimize (level : Level) (name : String) : Run Program (List Report) := do
  let solver ← Run.ofExcept (named name)
  (runAll level name solver).zoom Program.routines (fun _ routines => ⟨routines⟩)

end Dataflow.Pass
