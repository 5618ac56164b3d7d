import Dataflow.Json.Scalar

/-! # Records

A record is an object with its fields in any order, or a list of them in their own order. In
an object unknown fields are passed over, a field may stand only once, and the first absent
one is missed at the closing brace.
-/
namespace Dataflow.Json

structure Field (α : Type) where
  name : String
  read : Reader α
  /-- The value of a field that an object leaves out. -/
  absent : Option α
  /-- The value of a field that a list stops before. -/
  cutOff : Option α

namespace Field

variable {α : Type}

def required (name : String) (read : Reader α) : Field α := ⟨name, read, none, none⟩

def nullable (name : String) (read : Reader α) : Field (Option α) :=
  ⟨name, .optional read, some none, none⟩

def withDefault (name : String) (read : Reader α) (value : α) : Field α :=
  ⟨name, read, some value, some value⟩

end Field

/-- Fields in their order, read one at a time into a draft `σ` or in a row. -/
structure Bundle (σ α : Type) where
  size : Nat
  blank : σ
  /-- How to take in the field of that name, whose key has just been read. -/
  take? : String → Option (σ → Reader σ)
  finish : σ → Except Mismatch α
  /-- Reads the fields of a list from the given position on. -/
  inRow : String → Nat → Reader α

namespace Bundle

variable {σ τ α β : Type}

def ofField (f : Field α) : Bundle (Option α) α where
  size := 1
  blank := none
  take? name := if name = f.name then some fun draft => do
      if draft.isSome then Reader.unfit (.repeated f.name)
      Reader.colon
      return some (← f.read)
    else none
  finish draft := match draft, f.absent with
    | some value, _ => .ok value
    | none, some value => .ok value
    | none, none => .error (.missing f.name)
  inRow wanted position := do
    if ← Reader.hasItem (position == 0) then f.read
    else match f.cutOff with
      | some value => return value
      | none => Reader.unfit (.tooShort position wanted)

def and (a : Bundle σ α) (b : Bundle τ β) : Bundle (σ × τ) (α × β) where
  size := a.size + b.size
  blank := (a.blank, b.blank)
  take? name := match a.take? name with
    | some take => some fun draft => do return (← take draft.1, draft.2)
    | none => (b.take? name).map fun take draft => do return (draft.1, ← take draft.2)
  finish draft := do return (← a.finish draft.1, ← b.finish draft.2)
  inRow wanted position := do
    let first ← a.inRow wanted position
    return (first, ← b.inRow wanted (position + a.size))

def map (f : α → β) (a : Bundle σ α) : Bundle σ β where
  size := a.size
  blank := a.blank
  take? := a.take?
  finish draft := do return f (← a.finish draft)
  inRow wanted position := do return f (← a.inRow wanted position)

/-- Reads the keys of an object and their values, up to the closing brace. -/
def fields (b : Bundle σ α) : Nat → Bool → σ → Reader σ
  | 0, _, draft => pure draft
  | fuel + 1, first, draft => do
    if ← Reader.hasKey first then
      let name ← Reader.quoted
      match b.take? name with
      | some take => fields b fuel false (← take draft)
      | none =>
        Reader.colon
        Reader.passValue
        fields b fuel false draft
    else return draft

def wantedInRow (b : Bundle σ α) (label : String) : String :=
  if b.size = 1 then s!"{label} with 1 element" else s!"{label} with {b.size} elements"

def read (b : Bundle σ α) (label : String) : Reader α := do
  let c ← Reader.start
  if c = '[' then
    Reader.advance
    let value ← b.inRow (b.wantedInRow label) 0
    Reader.endList
    return value
  else if c = '{' then
    Reader.advance
    let draft ← b.fields (← Reader.fuel) true b.blank
    match b.finish draft with
    | .ok value =>
      Reader.endObject
      return value
    | .error what => Reader.unfit what
  else Reader.refuse c label

end Bundle

end Dataflow.Json
