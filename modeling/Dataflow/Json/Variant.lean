import Dataflow.Json.Record

/-! # Variants

A variant without content is its name, or an object with its name and `null`. A variant with
content is an object with its name as the only key.
-/
namespace Dataflow.Json

inductive Content (α : Type) where
  | bare (value : α)
  | single (read : Reader α)
  | record (read : Reader α)

structure Variant (α : Type) where
  name : String
  content : Content α

namespace Variant

variable {α : Type}

def named (variants : List (Variant α)) (name : String) : Reader (Content α) :=
  match variants.find? (fun v => v.name == name) with
  | some v => pure v.content
  | none => Reader.unfit (.unknownVariant name (variants.map Variant.name))

/-- The content of a variant given by its name alone. -/
def alone : Content α → Reader α
  | .bare value => pure value
  | .single _ => Reader.unfit (.kind .bareVariant "newtype variant")
  | .record _ => Reader.unfit (.kind .bareVariant "struct variant")

/-- The content of a variant behind its name and colon. -/
def inside : Content α → Reader α
  | .bare value => do
    Reader.nothing
    return value
  | .single read => read
  | .record read => read

def read (variants : List (Variant α)) : Reader α := do
  let c ← Reader.start
  if c = '"' then
    let content ← named variants (← Reader.quoted)
    alone content
  else if c = '{' then
    Reader.advance
    if (← Reader.start) = '"' then
      let content ← named variants (← Reader.quoted)
      Reader.colon
      let value ← inside content
      match ← Reader.token with
      | none => Reader.ended .object
      | some '}' =>
        Reader.advance
        return value
      | some _ => Reader.malformed .value
    else Reader.malformed .key
  else Reader.malformed .value

end Variant

end Dataflow.Json
