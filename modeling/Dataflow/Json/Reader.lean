import Dataflow.Json.Basic
import Dataflow.Json.Fault

/-! # Reading JSON text

A reader takes what it needs from the front of the remaining text, so the first problem in
the text is the one reported. Its fuel is the length of the whole text and one more, a bound
on the steps of every loop, since each step takes at least one character.
-/
namespace Dataflow.Json

abbrev Reader (α : Type) := ReaderT Nat (StateT (List Char) (Except Fault)) α

namespace Reader

variable {α β : Type}

def fuel : Reader Nat := read

def fail (f : Fault) : Reader α := fun _ _ => .error f

def ended (inside : Place) : Reader α := fail (.ended inside)

def malformed (why : Malformed) : Reader α := fail (.malformed why)

def unfit (what : Mismatch) : Reader α := fail (.unfit what)

/-- A reader given as a function of the remaining text. -/
def ofRest (f : List Char → Except Fault (α × List Char)) : Reader α := fun _ rest => f rest

def isBlank (c : Char) : Bool := c = ' ' || c = '\n' || c = '\t' || c = '\r'

/-- The next character that is not blank, left in the text. -/
def token : Reader (Option Char) := ofRest fun rest =>
  let rest := rest.dropWhile isBlank
  .ok (rest.head?, rest)

def advance : Reader Unit := ofRest fun rest => .ok ((), rest.tail)

/-- The rest of a keyword whose first letter is known. -/
def spell : List Char → List Char → Except Fault (Unit × List Char)
  | [], rest => .ok ((), rest)
  | _ :: _, [] => .error (.ended .value)
  | c :: word, d :: rest => if c = d then spell word rest else .error (.malformed .keyword)

def keyword (word : String) : Reader Unit := ofRest (spell word.toList)

/-- Reads all of a text: after the value only blanks may follow. -/
def run (r : Reader α) (s : String) : Except Fault α := do
  let text := s.toList
  let (value, rest) ← r (text.length + 1) text
  if (rest.dropWhile isBlank).isEmpty then return value
  else .error (.malformed .trailingText)

/-- Whether another item of a list follows; the closing bracket is left in the text. -/
def hasItem (first : Bool) : Reader Bool := do
  match ← token with
  | none => ended .list
  | some ']' => return false
  | some c =>
    if first then return true
    else if c = ',' then
      advance
      match ← token with
      | none => ended .value
      | some ']' => malformed .trailingComma
      | some _ => return true
    else malformed .listSeparator

def endList : Reader Unit := do
  match ← token with
  | none => ended .list
  | some ']' => advance
  | some ',' =>
    advance
    match ← token with
    | some ']' => malformed .trailingComma
    | _ => malformed .trailingText
  | some _ => malformed .trailingText

/-- Whether another key of an object follows; its quote or the closing brace is left in the
text. -/
def hasKey (first : Bool) : Reader Bool := do
  match ← token with
  | none => ended .object
  | some '}' => return false
  | some c =>
    if first then
      if c = '"' then return true else malformed .key
    else if c = ',' then
      advance
      match ← token with
      | none => ended .value
      | some '"' => return true
      | some '}' => malformed .trailingComma
      | some _ => malformed .key
    else malformed .objectSeparator

def colon : Reader Unit := do
  match ← token with
  | none => ended .object
  | some ':' => advance
  | some _ => malformed .colon

def endObject : Reader Unit := do
  match ← token with
  | none => ended .object
  | some '}' => advance
  | some ',' => malformed .trailingComma
  | some _ => malformed .trailingText

end Reader

end Dataflow.Json
