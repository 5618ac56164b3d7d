/-! # Directions and sides

Information flows forward from the entry or backward from the exit. A quad has a value on
its In side and one on its Out side; the solved side is the one that the transfer computes.
-/
namespace Dataflow

inductive Side where
  | input
  | output
deriving DecidableEq

inductive Direction where
  | forward
  | backward
deriving DecidableEq, Inhabited

namespace Direction

def solved : Direction → Side
  | forward => .output
  | backward => .input

def given : Direction → Side
  | forward => .input
  | backward => .output

end Direction

end Dataflow
