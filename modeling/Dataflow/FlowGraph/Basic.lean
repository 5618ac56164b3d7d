import Dataflow.Collection.OrderedMap
import Dataflow.Run

/-! # Flow graphs

Blocks by index, the home block of every quad, the links between blocks, and perhaps an
entry. Each edit changes these parts one by one, and refuses what would break their
agreement.
-/
namespace Dataflow

/-- Nodes and edges, each in the order in which they were first inserted. -/
structure Digraph where
  nodes : List BlockIndex
  edges : List Edge
deriving DecidableEq

namespace Digraph

def empty : Digraph := ⟨[], []⟩

def addNode (d : Digraph) (index : BlockIndex) : Digraph :=
  if d.nodes.contains index then d else { d with nodes := d.nodes ++ [index] }

/-- A new edge brings its ends along. -/
def addEdge (d : Digraph) (e : Edge) : Digraph :=
  if d.edges.contains e then d
  else { (d.addNode e.head).addNode e.tail with edges := d.edges ++ [e] }

end Digraph

structure FlowGraph where
  blocks : OrderedMap BlockIndex Block
  homes : OrderedMap QuadId BlockIndex
  links : Digraph
  entry : Option BlockIndex
deriving DecidableEq

namespace FlowGraph

def empty : FlowGraph := ⟨∅, ∅, .empty, none⟩

instance : EmptyCollection FlowGraph := ⟨empty⟩

instance : Inhabited FlowGraph := ⟨∅⟩

def block (g : FlowGraph) (index : BlockIndex) : Except Error Block :=
  match g.blocks.get? index with
  | some b => .ok b
  | none => .error (.unknownBlock index)

/-- The first identity that is taken already or stands earlier in the list. -/
def firstRepeat? (taken : QuadId → Bool) : List QuadId → List QuadId → Option QuadId
  | _, [] => none
  | seen, id :: ids =>
    if taken id || seen.contains id then some id else firstRepeat? taken (id :: seen) ids

def insertBlock (b : Block) : Run FlowGraph Unit := do
  let g ← Run.get
  if g.blocks.contains b.index then Run.fail (.graph (.duplicateBlock b.index))
  else match firstRepeat? g.homes.contains [] b.ids with
    | some id => Run.fail (.graph (.duplicateQuad id))
    | none => Run.put { g with
        homes := b.ids.foldl (fun homes id => homes.set id b.index) g.homes
        links := g.links.addNode b.index
        blocks := g.blocks.set b.index b }

def insertEdge (e : Edge) : Run FlowGraph Unit := do
  let _ ← Run.look (·.block e.head)
  let _ ← Run.look (·.block e.tail)
  let g ← Run.get
  Run.put { g with links := g.links.addEdge e }

def setEntry (index : BlockIndex) : Run FlowGraph Unit := do
  let _ ← Run.look (·.block index)
  let g ← Run.get
  Run.put { g with entry := some index }

def blockList (g : FlowGraph) : List Block := g.blocks.values

def edges (g : FlowGraph) : List Edge := g.links.edges

/-- Every quad, by ascending block. -/
def quads (g : FlowGraph) : List Quad := g.blockList.flatMap Block.quads

def maxQuadId? (g : FlowGraph) : Option QuadId := g.homes.keys.getLast?

/-- The index of the block that should hold the quad. -/
def home (g : FlowGraph) (id : QuadId) : Except Error BlockIndex :=
  match g.homes.get? id with
  | some index => .ok index
  | none => .error (.unknownQuad id)

/-- The block that holds the quad, and the quad. -/
def find (g : FlowGraph) (id : QuadId) : Except Error (Block × Quad) := do
  let b ← g.block (← g.home id)
  match b.quad? id with
  | some q => return (b, q)
  | none => .error (.unknownQuad id)

def quad (g : FlowGraph) (id : QuadId) : Except Error Quad := do
  let (_, q) ← g.find id
  return q

/-- Takes a quad out of its block, its home first. The block stays, even with no quad left. -/
def eraseQuad (id : QuadId) : Run FlowGraph Quad := do
  let index ← Run.look (·.home id)
  let g ← Run.get
  let g := { g with homes := g.homes.erase id }
  Run.put g
  match (g.blocks.get? index).bind (fun b => (b.quad? id).map (fun q => (b, q))) with
  | none => Run.fail (.unknownQuad id)
  | some (b, q) =>
    Run.put { g with blocks := g.blocks.set index (b.erase id) }
    return q

/-- One entry block, 0, with these quads. -/
def ofQuads (quads : List Quad) : Except Error FlowGraph := Run.final empty do
  insertBlock ⟨0, quads⟩
  setEntry 0

/-- Where the edges out of a block lead. -/
def after (g : FlowGraph) (index : BlockIndex) : List BlockIndex :=
  (g.edges.filter (fun e => e.head == index)).map Edge.tail

/-- Where the edges into a block come from. -/
def before (g : FlowGraph) (index : BlockIndex) : List BlockIndex :=
  (g.edges.filter (fun e => e.tail == index)).map Edge.head

def listing (g : FlowGraph) : String :=
  g.edges.foldl (fun text e => s!"{text}{e}\n")
    (g.blockList.foldl (fun text b => s!"{text}{b}") "")

instance : ToString FlowGraph := ⟨listing⟩

/-- A graph as it is written down. -/
structure Outline where
  entry : Option BlockIndex
  blocks : List Block
  edges : List Edge
deriving DecidableEq, Inhabited

def outline (g : FlowGraph) : Outline := ⟨g.entry, g.blockList, g.edges⟩

/-- Blocks in their order, then edges, then the entry: the first offence is the error. -/
def ofOutline (o : Outline) : Except Error FlowGraph := Run.final empty do
  o.blocks.forM insertBlock
  o.edges.forM insertEdge
  o.entry.forM setEntry

end FlowGraph

end Dataflow
