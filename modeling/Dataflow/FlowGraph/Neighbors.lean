import Dataflow.FlowGraph.Order

/-! # Quad-level neighbors

Inside a block the neighbors of a quad are the quads beside it. At either end of a block
the search goes along the edges and through empty blocks, depth first, and each neighbor
is listed once, where it is first found. The neighbors of one quad are found from its place
in its block, those of all quads by going through the blocks.
-/
namespace Dataflow.FlowGraph

def addNew (found : List Neighbor) (n : Neighbor) : List Neighbor :=
  if found.contains n then found else found ++ [n]

/-- One way of looking out of a block. -/
structure Outlook where
  next : BlockIndex → List BlockIndex
  meets : Block → Option Quad
  ends : BlockIndex → List Neighbor

def backward (g : FlowGraph) : Outlook where
  next := g.before
  meets := Block.last?
  ends index := if g.entry = some index then [.entry] else []

def forward (g : FlowGraph) : Outlook where
  next := g.after
  meets := Block.first?
  ends index := if (g.after index).isEmpty then [.exit] else []

def search (g : FlowGraph) (o : Outlook) :
    Nat → List BlockIndex → List BlockIndex → List Neighbor → List Neighbor
  | 0, _, _, found => found
  | _ + 1, [], _, found => found
  | fuel + 1, index :: pending, visited, found =>
    match (g.blocks.get? index).bind o.meets with
    | some q => search g o fuel pending visited (addNew found (.quad q.id))
    | none =>
      if visited.contains index then search g o fuel pending visited found
      else search g o fuel (o.next index ++ pending) (index :: visited)
        ((o.ends index).foldl addNew found)

/-- Every block is expanded at most once, so every edge is followed at most once. -/
def searchFuel (g : FlowGraph) : Nat := g.edges.length + 1

def lookOut (g : FlowGraph) (o : Outlook) (index : BlockIndex) : List Neighbor :=
  g.search o g.searchFuel (o.next index) [index] (o.ends index)

def entryNeighbors (g : FlowGraph) (index : BlockIndex) : List Neighbor :=
  g.lookOut g.backward index

def exitNeighbors (g : FlowGraph) (index : BlockIndex) : List Neighbor :=
  g.lookOut g.forward index

/-- The locations of a list of quads, given what comes before the first of them and after
the last. -/
def locate (atEnd : List Neighbor) : List Neighbor → List Quad → List Location
  | _, [] => []
  | previous, [q] => [⟨q, previous, atEnd⟩]
  | previous, q :: r :: quads =>
    ⟨q, previous, [.quad r.id]⟩ :: locate atEnd [.quad q.id] (r :: quads)

def locationsOf (g : FlowGraph) (b : Block) : List Location :=
  locate (g.exitNeighbors b.index) (g.entryNeighbors b.index) b.quads

/-- The index of the block that should hold the quad, the block, and the place of the quad in it. -/
def position (g : FlowGraph) (id : QuadId) :
    Except Error (BlockIndex × (b : Block) × Fin b.quads.length) := do
  let index ← g.home id
  let b ← g.block index
  match b.quads.findFinIdx? (fun q => q.id == id) with
  | some n => return ⟨index, b, n⟩
  | none => .error (.unknownQuad id)

def predecessors (g : FlowGraph) (id : QuadId) : Except Error (List Neighbor) := do
  let ⟨index, b, n⟩ ← g.position id
  if 0 < n.val then return [.quad b.quads[n.val - 1].id]
  return g.entryNeighbors index

def successors (g : FlowGraph) (id : QuadId) : Except Error (List Neighbor) := do
  let ⟨index, b, n⟩ ← g.position id
  if h : n.val + 1 < b.quads.length then return [.quad b.quads[n.val + 1].id]
  return g.exitNeighbors index

/-- Every quad with its neighbors, in block order. A graph with blocks needs an entry. -/
def locations (g : FlowGraph) : Except Error (List Location) :=
  if g.blocks.isEmpty then .ok []
  else if g.entry.isNone then .error (.graph .noEntry)
  else .ok ((g.blockOrder.filterMap g.blocks.get?).flatMap g.locationsOf)

end Dataflow.FlowGraph
