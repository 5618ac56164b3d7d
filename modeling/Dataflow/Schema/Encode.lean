import Dataflow.Json.Basic
import Dataflow.Routine

/-! # The JSON form of programs -/
namespace Dataflow

namespace Json

def ofUInt64 (n : UInt64) : Json := number n.toNat

def ofInt64 (n : Int64) : Json := number n.toInt

def ofOption {α : Type} (encode : α → Json) : Option α → Json
  | none => null
  | some a => encode a

def ofList {α : Type} (encode : α → Json) (l : List α) : Json := list (l.map encode)

/-- A variant with content. -/
def variant (name : String) (content : Json) : Json := object [(name, content)]

/-- A variant that is a record. -/
def recordVariant (name : String) (fields : List (String × Json)) : Json :=
  variant name (object fields)

end Json

open Json

def Register.toJson (r : Register) : Json := text r.name

def Operand.toJson : Operand → Json
  | register r => variant "Register" r.toJson
  | constant n => variant "Constant" (ofInt64 n)

def BinaryOperator.name : BinaryOperator → String
  | add => "Add"
  | sub => "Sub"
  | mul => "Mul"
  | div => "Div"
  | rem => "Rem"
  | and => "And"
  | or => "Or"
  | xor => "Xor"
  | cmp => "Cmp"

def BinaryOperator.toJson (op : BinaryOperator) : Json := text op.name

def Operation.toJson : Operation → Json
  | move dst src => recordVariant "Move" [("dst", dst.toJson), ("src", src.toJson)]
  | new dst className => recordVariant "New" [("dst", dst.toJson), ("class", text className)]
  | nullCheck src => recordVariant "NullCheck" [("src", src.toJson)]
  | binary op dst lhs rhs => recordVariant "Binary"
    [("op", op.toJson), ("dst", dst.toJson), ("lhs", lhs.toJson), ("rhs", rhs.toJson)]
  | load dst base field => recordVariant "Load"
    [("dst", dst.toJson), ("base", base.toJson), ("field", text field)]
  | store base field src => recordVariant "Store"
    [("base", base.toJson), ("field", text field), ("src", src.toJson)]
  | call dst target arguments => recordVariant "Call"
    [("dst", ofOption Register.toJson dst), ("target", text target),
      ("arguments", ofList Operand.toJson arguments)]
  | branch condition => recordVariant "Branch"
    [("condition", ofOption Operand.toJson condition)]
  | ret result => variant "Return" (ofOption Operand.toJson result)
  | nop => text "Nop"

def Quad.toJson (q : Quad) : Json :=
  object [("id", ofUInt64 q.id), ("operation", q.operation.toJson)]

def Block.toJson (b : Block) : Json :=
  object [("index", ofUInt64 b.index), ("quads", ofList Quad.toJson b.quads)]

def Edge.toJson (e : Edge) : Json :=
  object [("head", ofUInt64 e.head), ("tail", ofUInt64 e.tail)]

def Neighbor.toJson : Neighbor → Json
  | entry => text "Entry"
  | quad id => variant "Quad" (ofUInt64 id)
  | exit => text "Exit"

def FlowGraph.Outline.toJson (o : FlowGraph.Outline) : Json :=
  object [("entry", ofOption ofUInt64 o.entry), ("blocks", ofList Block.toJson o.blocks),
    ("edges", ofList Edge.toJson o.edges)]

def FlowGraph.toJson (g : FlowGraph) : Json := g.outline.toJson

def Routine.toJson (f : Routine) : Json :=
  object [("name", text f.name), ("parameters", ofList Register.toJson f.parameters),
    ("control_flow_graph", f.graph.toJson)]

def Program.toJson (p : Program) : Json :=
  object [("functions", ofList Routine.toJson p.routines)]

end Dataflow
