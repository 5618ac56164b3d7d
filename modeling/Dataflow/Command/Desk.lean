import Dataflow.Collection.OrderedMap
import Dataflow.Command.Workspace

/-! # A workspace in memory

A tree of files and the text written so far. A path is followed step by step, so the first
step that leads nowhere is the one that fails.
-/
namespace Dataflow.Command

/-- The steps that lead from the root to a file or directory. -/
abbrev Place := List String

/-- Files by place. A directory is there as soon as a file lies below it, and so are the
directories down to the one where the command runs. -/
structure Desk where
  here : Place
  files : OrderedMap Place String
  output : String
  complaints : String

namespace Desk

def stepsOf (path : String) : List String := (path.splitOn "/").filter (· != "")

/-- Reads as empty and keeps nothing. -/
def nullDevice : Place := ["dev", "null"]

def ofFiles (here : Place) (files : List (String × String)) : Desk :=
  let placed := files.map (fun file => (here ++ stepsOf file.1, file.2))
  ⟨here, .ofList ((nullDevice, "") :: placed), "", ""⟩

def filesHere (d : Desk) : List (String × String) :=
  (d.files.entries.filter (fun file => d.here.isPrefixOf file.1)).map
    (fun file => ("/".intercalate (file.1.drop d.here.length), file.2))

def isDirectory (d : Desk) (place : Place) : Bool :=
  place.isPrefixOf d.here ||
    d.files.keys.any (fun file => place.isPrefixOf file && place != file)

def nameLimit : Nat := 255

def pathLimit : Nat := 4095

/-- The file at a place, if there is one and no directory. -/
def look (d : Desk) (place : Place) : Except FileError (Option String) :=
  if place.any (fun step => nameLimit < step.utf8ByteSize) then .error .nameTooLong
  else if d.isDirectory place then .error .isDirectory
  else .ok (d.files.get? place)

def isDots (step : String) : Bool := step == "." || step == ".."

def moveDots (place : Place) (step : String) : Place :=
  if step == ".." then place.dropLast else place

/-- One step from directory to directory. -/
def enter (d : Desk) (place : Place) (step : String) : Except FileError Place :=
  if isDots step then .ok (moveDots place step)
  else match d.look (place ++ [step]) with
    | .ok none => .error .missing
    | .ok (some _) => .error .notDirectory
    | .error e => if e = .isDirectory then .ok (place ++ [step]) else .error e

/-- The place that a path names in a directory; none if the path names a directory by the
root or by dots. -/
def locate (d : Desk) (path : String) : Except FileError (Option Place) := do
  if pathLimit < path.utf8ByteSize then
    throw .nameTooLong
  let start := if path.startsWith "/" then [] else d.here
  let steps := stepsOf path
  let place ← steps.dropLast.foldlM d.enter start
  match steps.getLast? with
  | none => return none
  | some name => return if isDots name then none else some (place ++ [name])

def readText (d : Desk) (path : String) : Except FileError String := do
  match ← d.locate path with
  | none => .error .isDirectory
  | some place => match ← d.look place with
    | none => .error .missing
    | some text => if path.endsWith "/" then .error .notDirectory else return text

/-- A path that ends in a slash asks for a directory, and none is made. -/
def writeText (d : Desk) (path text : String) : Except FileError Desk := do
  match ← d.locate path with
  | none => .error .isDirectory
  | some place =>
    if path.endsWith "/" then .error .isDirectory
    else
      let _ ← d.look place
      return if place == nullDevice then d else { d with files := d.files.set place text }

instance : Workspace (StateM Desk) where
  readText path := do return (← get).readText path
  writeText path text := do
    match (← get).writeText path text with
    | .ok d =>
      set d
      return .ok ()
    | .error e => return .error e
  say text := modify fun d => { d with output := d.output ++ text }
  complain text := modify fun d => { d with complaints := d.complaints ++ text }

end Desk

end Dataflow.Command
