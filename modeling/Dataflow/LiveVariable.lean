import Dataflow.Problem

/-! # Live variables

Backward. A register is live at a point if some path from there reads it before writing it.
-/
namespace Dataflow.LiveVariable

def transfer (q : Quad) (live : OrderedSet Register) : OrderedSet Register :=
  (live.eraseAll q.defined).insertAll q.used

def frameOn (registers : OrderedSet Register) : Frame Register where
  domain := registers
  transfer := transfer
  departures _ := []
  reach := registers

/-- Nothing is redundant; the log shows what is live behind each quad and at the entry. -/
def conclude (level : Level) (f : Routine) (values : Readings Register) :
    Run Unit (List QuadId) := do
  Run.say level .info fun _ => s!"live variables for {f.name}"
  f.quads.forM fun q => Run.trySay level .debug fun _ => do
    let live := (← values.output q.id).listing
    return s!"{q} live out {live}"
  Run.trySay level .info fun _ => do
    let live := (← values.entry).listing
    return s!"live at entry {live}"
  return []

def problem : Problem Register where
  direction := .backward
  confluence := .may
  blank := frameOn ∅
  frame f := frameOn (.ofList (f.quads.flatMap Quad.used))
  boundary frame := .top frame.domain .may
  scratchAtOnce := false
  conclude := conclude

end Dataflow.LiveVariable
