import Dataflow.Problem

/-! # Redundant null checks

Forward over the registers proven not null. A fact survives a join only if every path proves
it, and a check that proves nothing new is redundant.
-/
namespace Dataflow.NullCheck

inductive Mode where
  /-- A definition forgets its register and a check proves its register. -/
  | basic
  /-- Also, a move from a proven register proves its destination. -/
  | moveAware
deriving DecidableEq

/-- Whether the quad copies a proven register. -/
def provesMove (mode : Mode) (q : Quad) (proven : OrderedSet Register) : Bool :=
  mode = .moveAware && q.isMove && !q.used.isEmpty && q.used.all proven.contains

def transfer (mode : Mode) (q : Quad) (proven : OrderedSet Register) : OrderedSet Register :=
  let kept := proven.eraseAll q.defined
  let checked := if q.isNullCheck then kept.insertAll q.used else kept
  if provesMove mode q proven then checked.insertAll q.defined else checked

/-- Parameters and every register that a quad writes or reads. -/
def mentioned (f : Routine) : OrderedSet Register :=
  .ofList (f.parameters ++ f.quads.flatMap (fun q => q.defined ++ q.used))

def frameOn (mode : Mode) (registers : OrderedSet Register) : Frame Register where
  domain := registers
  transfer := transfer mode
  departures _ := []
  reach := registers

def redundant (f : Routine) (values : Readings Register) : Except Error (List QuadId) := do
  let found ← f.nullChecks.filterM fun q => do
    return (← values.input q.id).same (← values.output q.id)
  return (OrderedSet.ofList (found.map Quad.id)).toList

def report (level : Level) (f : Routine) (redundant : List QuadId) : Run Unit Unit := do
  Run.say level .info fun _ => s!"null checks of {f.name}"
  f.nullChecks.forM fun q => Run.say level .info fun _ =>
    if redundant.contains q.id then s!"{q} redundant" else s!"{q} needed"

def conclude (level : Level) (f : Routine) (values : Readings Register) :
    Run Unit (List QuadId) := do
  let ids ← Run.ofExcept (redundant f values)
  report level f ids
  return ids

def problem (mode : Mode) : Problem Register where
  direction := .forward
  confluence := .must
  blank := frameOn mode ∅
  frame f := frameOn mode (mentioned f)
  boundary frame := .bottom frame.domain .must
  scratchAtOnce := false
  conclude := conclude

/-- As `problem`, but nothing is concluded before a routine has been prepared, not even about
a routine without checks. -/
def guardedProblem (mode : Mode) : Problem Register :=
  { problem mode with
    conclude := fun level f values => do
      Run.ofExcept values.ready
      conclude level f values }

end Dataflow.NullCheck
