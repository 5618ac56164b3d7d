import Dataflow.Problem

/-! # Reaching definitions

A definition is a quad that writes a register. It reaches a point if some path to it does not
write the register again.
-/
namespace Dataflow.ReachingDefinition

/-- The quads that define a register, and for every register those that define it. -/
structure Definitions where
  all : OrderedSet QuadId
  sites : OrderedMap Register (OrderedSet QuadId)

namespace Definitions

def blank : Definitions := ⟨∅, ∅⟩

def sitesOf (d : Definitions) (r : Register) : OrderedSet QuadId := (d.sites.get? r).getD ∅

def add (d : Definitions) (id : QuadId) (r : Register) : Definitions :=
  ⟨d.all.insert id, d.sites.set r ((d.sitesOf r).insert id)⟩

def ofRoutine (f : Routine) : Definitions :=
  f.quads.foldl (fun d q => q.defined.foldl (fun d r => d.add q.id r) d) blank

/-- Drops every definition of a register that the quad writes, then adds the quad. -/
def transfer (d : Definitions) (q : Quad) (reaching : OrderedSet QuadId) : OrderedSet QuadId :=
  let kept := q.defined.foldl (fun kept r => kept.eraseAll (d.sitesOf r).toList) reaching
  if q.defined.isEmpty then kept else kept.insert q.id

def frame (d : Definitions) : Frame QuadId where
  domain := d.all
  transfer := d.transfer
  departures _ := []
  reach := d.all

end Definitions

/-- Nothing is redundant; the log shows what reaches each quad. -/
def conclude (level : Level) (f : Routine) (values : Readings QuadId) :
    Run Unit (List QuadId) := do
  Run.say level .info fun _ => s!"reaching definitions for {f.name}"
  f.quads.forM fun q => Run.trySay level .info fun _ => do
    let reaching := (← values.input q.id).listing
    return s!"{q} reached by {reaching}"
  return []

def problem : Problem QuadId where
  direction := .forward
  confluence := .may
  blank := Definitions.blank.frame
  frame f := (Definitions.ofRoutine f).frame
  boundary frame := .top frame.domain .may
  scratchAtOnce := false
  conclude := conclude

end Dataflow.ReachingDefinition
