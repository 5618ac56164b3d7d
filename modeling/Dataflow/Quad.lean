import Dataflow.Operation

/-! # Quads, blocks and edges

A quad is an operation with an identity, a block is a list of quads under an index,
and an edge joins two blocks.
-/
namespace Dataflow

abbrev QuadId := UInt64

abbrev BlockIndex := UInt64

structure Quad where
  id : QuadId
  operation : Operation
deriving DecidableEq, Ord, Inhabited

namespace Quad

def defined (q : Quad) : List Register := q.operation.defined

def used (q : Quad) : List Register := q.operation.used

def isNullCheck (q : Quad) : Bool := q.operation.isNullCheck

def isMove (q : Quad) : Bool := q.operation.isMove

def listing (q : Quad) : String :=
  let number := Text.alignRight 3 ' ' (toString q.id)
  s!"{number}: {q.operation}"

instance : ToString Quad := ⟨listing⟩

end Quad

structure Block where
  index : BlockIndex
  quads : List Quad
deriving DecidableEq, Ord, Inhabited

namespace Block

def quad? (b : Block) (id : QuadId) : Option Quad := b.quads.find? (fun q => q.id == id)

def first? (b : Block) : Option Quad := b.quads.head?

def last? (b : Block) : Option Quad := b.quads.getLast?

def ids (b : Block) : List QuadId := b.quads.map Quad.id

/-- Drops the first quad of that identity and keeps the order of the others. -/
def erase (b : Block) (id : QuadId) : Block :=
  { b with quads := b.quads.eraseP (fun q => q.id == id) }

def listing (b : Block) : String :=
  let number := Text.alignRight 2 '0' (Text.hex b.index.toNat)
  b.quads.foldl (fun text q => s!"{text}{q}\n") s!"[ Block 0x{number} ]\n"

instance : ToString Block := ⟨listing⟩

end Block

structure Edge where
  head : BlockIndex
  tail : BlockIndex
deriving DecidableEq, Ord, Inhabited

namespace Edge

def listing (e : Edge) : String :=
  let head := Text.hex e.head.toNat
  let tail := Text.hex e.tail.toNat
  s!"(0x{head} -> 0x{tail})"

instance : ToString Edge := ⟨listing⟩

end Edge

end Dataflow
