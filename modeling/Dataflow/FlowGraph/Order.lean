import Dataflow.FlowGraph.Basic

/-! # Block order

Blocks in reverse post order of a depth first walk from the entry, then the blocks
that the walk does not reach.
-/
namespace Dataflow.FlowGraph

/-- The walk looks at the top of its stack. A new block stays and its undiscovered
successors go on top, the last one uppermost. A block met again is popped and, the first
time, finished. The block finished last stands first in the result. -/
def walk (g : FlowGraph) :
    Nat → List BlockIndex → List BlockIndex → List BlockIndex → List BlockIndex
  | 0, _, _, finished => finished
  | _ + 1, [], _, finished => finished
  | fuel + 1, top :: stack, discovered, finished =>
    if discovered.contains top then
      walk g fuel stack discovered
        (if finished.contains top then finished else top :: finished)
    else
      let fresh := (g.after top).filter (fun i => !(top :: discovered).contains i)
      walk g fuel (fresh.reverse ++ top :: stack) (top :: discovered) finished

/-- Every block is discovered at most once and every edge pushes at most one block. -/
def walkFuel (g : FlowGraph) : Nat := g.blockList.length + g.edges.length + 1

def reached (g : FlowGraph) : List BlockIndex :=
  match g.entry with
  | some index => g.walk g.walkFuel [index] [] []
  | none => []

def blockOrder (g : FlowGraph) : List BlockIndex :=
  let reached := g.reached
  reached ++ g.blocks.keys.filter (fun i => !reached.contains i)

end Dataflow.FlowGraph
