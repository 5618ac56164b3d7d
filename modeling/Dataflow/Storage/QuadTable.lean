import Dataflow.Routine

/-! # Values by quad

One value for every quad of a routine. Identities that leave few gaps index an array; others
are looked up in a map. Either way the set of quads is fixed, and only their values change.
-/
namespace Dataflow

inductive QuadTable (α : Type) where
  | dense (slots : Array (Option α))
  | sparse (slots : OrderedMap QuadId α)

namespace QuadTable

variable {α : Type}

/-- An array may have this many slots for so many quads, but no more than a word can count. -/
def denseLimit (count : Nat) : Nat := min (4 * count + 64) (UInt64.size - 1)

/-- The slots that reach up to the largest identity, if a word can count them. -/
def slotCount? (g : FlowGraph) : Option Nat :=
  match g.maxQuadId? with
  | some id => if id.toNat + 1 < UInt64.size then some (id.toNat + 1) else none
  | none => some 0

/-- An array with the initial value in the slots of these identities. -/
def denseOf (size : Nat) (ids : List QuadId) (initial : α) : QuadTable α :=
  dense (ids.foldl (fun slots id => slots.setIfInBounds id.toNat (some initial))
    (Array.replicate size none))

/-- A map with the initial value under these identities. -/
def sparseOf (ids : List QuadId) (initial : α) : QuadTable α :=
  sparse (ids.foldl (fun slots id => slots.set id initial) ∅)

def ofRoutine (f : Routine) (initial : α) : QuadTable α :=
  let ids := f.quads.map Quad.id
  match slotCount? f.graph with
  | some size =>
    if size ≤ denseLimit ids.length then denseOf size ids initial else sparseOf ids initial
  | none => sparseOf ids initial

def isDense : QuadTable α → Bool
  | dense _ => true
  | sparse _ => false

def get? : QuadTable α → QuadId → Option α
  | dense slots, id => (slots[id.toNat]?).join
  | sparse slots, id => slots.get? id

def get (v : QuadTable α) (id : QuadId) : Except Error α :=
  match v.get? id with
  | some a => .ok a
  | none => .error (.unknownQuad id)

def set (v : QuadTable α) (id : QuadId) (a : α) : Except Error (QuadTable α) :=
  if (v.get? id).isNone then .error (.unknownQuad id)
  else match v with
    | dense slots => .ok (dense (slots.setIfInBounds id.toNat (some a)))
    | sparse slots => .ok (sparse (slots.set id a))

end QuadTable

end Dataflow
