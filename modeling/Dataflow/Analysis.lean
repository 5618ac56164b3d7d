import Dataflow.Problem

/-! # Analyses

A problem with the values of the routine it is at work on. How these are stored is left open.
-/
namespace Dataflow

/-- What flows into a quad from a neighbor on the given side. -/
def Direction.inflow {β : Type} (d : Direction) (id : QuadId) (quad : QuadId → Except Error β)
    (entry exit : Except Error β) (n : Neighbor) : Except Error β :=
  match d, n with
  | _, .quad k => quad k
  | .forward, .entry => entry
  | .forward, .exit => .error (.graph (.exitPrecedes id))
  | .backward, .exit => exit
  | .backward, .entry => .error (.graph (.entrySucceeds id))

/-- There is no store before a routine has been prepared. -/
structure Analysis (σ α : Type) [Fact α] where
  problem : Problem α
  frame : Frame α
  store : Option σ

namespace Analysis

variable {σ α β : Type} [Fact α]

def ofProblem (p : Problem α) : Analysis σ α := ⟨p, p.blank, none⟩

def direction (a : Analysis σ α) : Direction := a.problem.direction

def stored (a : Analysis σ α) : Except Error σ :=
  match a.store with
  | some s => .ok s
  | none => .error .uninitialized

def read (a : Analysis σ α) (f : σ → Except Error β) : Except Error β := do f (← a.stored)

def write (a : Analysis σ α) (f : σ → Except Error σ) : Except Error (Analysis σ α) := do
  return { a with store := some (← f (← a.stored)) }

/-- A fresh value without facts. -/
def scratch (a : Analysis σ α) : Except Error (FactSet α) := do
  if !a.problem.scratchAtOnce then
    let _ ← a.stored
  return .empty a.frame.domain a.problem.confluence

/-- The meet, from the top, of values that are read one after the other. -/
def gather (a : Analysis σ α) (l : List β) (value : β → Except Error (FactSet α)) :
    Except Error (FactSet α) := do
  let scratch ← a.scratch
  l.foldlM (fun met b => do return met.meet (← value b)) scratch.toTop

end Analysis

end Dataflow
