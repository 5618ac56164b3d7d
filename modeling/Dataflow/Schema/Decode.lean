import Dataflow.Json.Variant
import Dataflow.Routine

/-! # Reading programs from JSON text -/
namespace Dataflow

open Json

def Register.reader : Reader Register := do return ⟨← Reader.text⟩

def Operand.reader : Reader Operand := Variant.read
  [⟨"Register", .single do return register (← Register.reader)⟩,
    ⟨"Constant", .single do return constant (← Reader.signed)⟩]

def BinaryOperator.reader : Reader BinaryOperator := Variant.read
  [⟨"Add", .bare add⟩, ⟨"Sub", .bare sub⟩, ⟨"Mul", .bare mul⟩, ⟨"Div", .bare div⟩,
    ⟨"Rem", .bare rem⟩, ⟨"And", .bare and⟩, ⟨"Or", .bare or⟩, ⟨"Xor", .bare xor⟩,
    ⟨"Cmp", .bare cmp⟩]

namespace Operation

def moveFields :=
  ((Bundle.ofField (.required "dst" Register.reader)).and
    (.ofField (.required "src" Operand.reader))).map fun (dst, src) => move dst src

def newFields :=
  ((Bundle.ofField (.required "dst" Register.reader)).and
    (.ofField (.required "class" Reader.text))).map fun (dst, className) => new dst className

def nullCheckFields :=
  (Bundle.ofField (.required "src" Register.reader)).map nullCheck

def binaryFields :=
  (((Bundle.ofField (.required "op" BinaryOperator.reader)).and
    (.ofField (.required "dst" Register.reader))).and
      ((Bundle.ofField (.required "lhs" Operand.reader)).and
        (.ofField (.required "rhs" Operand.reader)))).map
          fun ((op, dst), (lhs, rhs)) => binary op dst lhs rhs

def loadFields :=
  ((Bundle.ofField (.required "dst" Register.reader)).and
    ((Bundle.ofField (.required "base" Register.reader)).and
      (.ofField (.required "field" Reader.text)))).map
        fun (dst, base, field) => load dst base field

def storeFields :=
  ((Bundle.ofField (.required "base" Register.reader)).and
    ((Bundle.ofField (.required "field" Reader.text)).and
      (.ofField (.required "src" Operand.reader)))).map
        fun (base, field, src) => store base field src

def callFields :=
  ((Bundle.ofField (.nullable "dst" Register.reader)).and
    ((Bundle.ofField (.required "target" Reader.text)).and
      (.ofField (.required "arguments" (Reader.list Operand.reader))))).map
        fun (dst, target, arguments) => call dst target arguments

def branchFields :=
  (Bundle.ofField (.nullable "condition" Operand.reader)).map branch

def reader : Reader Operation := Variant.read
  [⟨"Move", .record (moveFields.read "struct variant Operation::Move")⟩,
    ⟨"New", .record (newFields.read "struct variant Operation::New")⟩,
    ⟨"NullCheck", .record (nullCheckFields.read "struct variant Operation::NullCheck")⟩,
    ⟨"Binary", .record (binaryFields.read "struct variant Operation::Binary")⟩,
    ⟨"Load", .record (loadFields.read "struct variant Operation::Load")⟩,
    ⟨"Store", .record (storeFields.read "struct variant Operation::Store")⟩,
    ⟨"Call", .record (callFields.read "struct variant Operation::Call")⟩,
    ⟨"Branch", .record (branchFields.read "struct variant Operation::Branch")⟩,
    ⟨"Return", .single do return ret (← Reader.optional Operand.reader)⟩,
    ⟨"Nop", .bare nop⟩]

end Operation

def Quad.fields :=
  ((Bundle.ofField (.required "id" Reader.unsigned)).and
    (.ofField (.required "operation" Operation.reader))).map fun (id, operation) => Quad.mk id operation

def Quad.reader : Reader Quad := Quad.fields.read "struct Quad"

def Block.fields :=
  ((Bundle.ofField (.required "index" Reader.unsigned)).and
    (.ofField (.required "quads" (Reader.list Quad.reader)))).map fun (index, quads) => Block.mk index quads

def Block.reader : Reader Block := Block.fields.read "struct Block"

def Edge.fields :=
  ((Bundle.ofField (.required "head" Reader.unsigned)).and
    (.ofField (.required "tail" Reader.unsigned))).map fun (head, tail) => Edge.mk head tail

def Edge.reader : Reader Edge := Edge.fields.read "struct Edge"

def Neighbor.reader : Reader Neighbor := Variant.read
  [⟨"Entry", .bare entry⟩, ⟨"Quad", .single do return quad (← Reader.unsigned)⟩,
    ⟨"Exit", .bare exit⟩]

namespace FlowGraph

def Outline.fields :=
  ((Bundle.ofField (.nullable "entry" Reader.unsigned)).and
    ((Bundle.ofField (.required "blocks" (Reader.list Block.reader))).and
      (.ofField (.required "edges" (Reader.list Edge.reader))))).map
        fun (entry, blocks, edges) => Outline.mk entry blocks edges

/-- An outline is read to its end before the graph is built. -/
def reader : Reader FlowGraph := do
  match ofOutline (← Outline.fields.read "struct SerializedGraph") with
  | .ok g => return g
  | .error e => Reader.unfit (.refused e)

end FlowGraph

def Routine.fields :=
  ((Bundle.ofField (.required "name" Reader.text)).and
    ((Bundle.ofField (.withDefault "parameters" (Reader.list Register.reader) [])).and
      (.ofField (.required "control_flow_graph" FlowGraph.reader)))).map
        fun (name, parameters, graph) => Routine.mk name parameters graph

def Routine.reader : Reader Routine := Routine.fields.read "struct Function"

def Program.fields :=
  (Bundle.ofField (.required "functions" (Reader.list Routine.reader))).map Program.mk

def Program.reader : Reader Program := Program.fields.read "struct Program"

def Program.ofText (s : String) : Except Fault Program := Program.reader.run s

end Dataflow
