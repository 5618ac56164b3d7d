import Dataflow.Location

/-! # What can go wrong

Failures are causes; `message` words a failure and `summary` names its kind.
-/
namespace Dataflow

inductive GraphFault where
  | duplicateBlock (index : BlockIndex)
  | duplicateQuad (id : QuadId)
  | noEntry
  | exitPrecedes (id : QuadId)
  | entrySucceeds (id : QuadId)
  | other (text : String)
deriving DecidableEq

def GraphFault.message : GraphFault → String
  | duplicateBlock index =>
    let number := Text.hex index.toNat
    s!"duplicate block 0x{number}"
  | duplicateQuad id => s!"duplicate quad {id}"
  | noEntry => "no entry block"
  | exitPrecedes id => s!"exit precedes quad {id}"
  | entrySucceeds id => s!"entry succeeds quad {id}"
  | other text => text

inductive Error where
  | unsupported (operation : String)
  | uninitialized
  | unknownQuad (id : QuadId)
  | unknownBlock (index : BlockIndex)
  | unknownEdge (quad : QuadId) (neighbor : String)
  | unknownPass (name : String)
  | graph (fault : GraphFault)
  | plain (text : String)
  | failed (task : String) (cause : Error)
deriving DecidableEq

namespace Error

def message : Error → String
  | unsupported operation => s!"Unsupported operation: {operation}"
  | uninitialized => "Analysis values were accessed before preprocess ran"
  | unknownQuad id => s!"Unknown quad {id}"
  | unknownBlock index =>
    let number := Text.hex index.toNat
    s!"Unknown block 0x{number}"
  | unknownEdge quad neighbor => s!"Quad {quad} has no edge to {neighbor}"
  | unknownPass name => s!"Unknown pass \"{name}\""
  | graph fault =>
    let text := fault.message
    s!"Control flow graph error: {text}"
  | plain text => text
  | failed task _ => task

def summary : Error → String
  | unsupported _ => "An operation forbidden by the storage model was called"
  | uninitialized => "An analysis was queried before preprocess"
  | unknownQuad _ => "A quad id is not part of the control flow graph"
  | unknownBlock _ => "A block index is not part of the control flow graph"
  | unknownEdge _ _ => "A quad has no edge to the requested neighbor"
  | unknownPass _ => "No pass is registered under this name"
  | graph _ => "A malformed control flow graph"
  | plain text => text
  | failed task _ => task

/-- The failures behind a failure, the nearest first. -/
def causes : Error → List Error
  | failed _ cause => cause :: cause.causes
  | _ => []

end Error

end Dataflow
