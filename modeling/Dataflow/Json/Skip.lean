import Dataflow.Json.Escape
import Dataflow.Json.Number

/-! # Passing over a value

A value that nobody asks for must be well formed, but is not converted. The enclosing lists
and objects are kept on a stack, so nesting has no limit.
-/
namespace Dataflow.Json.Reader

inductive Bracket where
  | list
  | object
deriving DecidableEq

namespace Bracket

def closing : Bracket → Char
  | list => ']'
  | object => '}'

def place : Bracket → Place
  | list => .list
  | object => .object

def separator : Bracket → Malformed
  | list => .listSeparator
  | object => .objectSeparator

end Bracket

/-- The key and the colon before a value inside this bracket. -/
def passKey : Bracket → Reader Unit
  | .list => pure ()
  | .object => do
    match ← token with
    | none => ended .object
    | some '"' =>
      passText
      colon
    | some _ => malformed .key

/-- A value without parts, or the bracket that a value opens with. -/
def passStart : Reader (Option Bracket) := do
  match ← token with
  | none => ended .value
  | some 'n' =>
    keyword "null"
    return none
  | some 't' =>
    keyword "true"
    return none
  | some 'f' =>
    keyword "false"
    return none
  | some '"' =>
    passText
    return none
  | some '[' =>
    advance
    return some .list
  | some '{' =>
    advance
    return some .object
  | some c =>
    if c = '-' || isDigit c then
      passNumber
      return none
    else malformed .value

/-- Goes on inside the brackets of the stack. `fresh` says that the innermost one has just been
opened, so that no comma is due. -/
def passRest : Nat → Bool → List Bracket → Reader Unit
  | 0, _, _ => pure ()
  | _ + 1, _, [] => pure ()
  | fuel + 1, fresh, b :: stack => do
    match ← token with
    | none => ended b.place
    | some c =>
      if c = b.closing then
        advance
        passRest fuel false stack
      else
        if !fresh then
          if c = ',' then advance else malformed b.separator
        passKey b
        match ← passStart with
        | some inner => passRest fuel true (inner :: b :: stack)
        | none => passRest fuel false (b :: stack)

def passValue : Reader Unit := do
  let fuel ← fuel
  match ← passStart with
  | some b => passRest fuel true [b]
  | none => pure ()

end Dataflow.Json.Reader
