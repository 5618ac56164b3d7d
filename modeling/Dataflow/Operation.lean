import Dataflow.Register
import Dataflow.Text.Align

/-! # Operations

Each operation writes at most one register and reads a list of registers, in the
order it names them and with repeats.
-/
namespace Dataflow

inductive BinaryOperator where
  | add | sub | mul | div | rem | and | or | xor | cmp
deriving DecidableEq, Ord, Inhabited

namespace BinaryOperator

def mnemonic : BinaryOperator → String
  | add => "ADD"
  | sub => "SUB"
  | mul => "MUL"
  | div => "DIV"
  | rem => "REM"
  | and => "AND"
  | or => "OR"
  | xor => "XOR"
  | cmp => "CMP"

instance : ToString BinaryOperator := ⟨mnemonic⟩

end BinaryOperator

inductive Operation where
  | move (dst : Register) (src : Operand)
  | new (dst : Register) (className : String)
  | nullCheck (src : Register)
  | binary (op : BinaryOperator) (dst : Register) (lhs rhs : Operand)
  | load (dst base : Register) (field : String)
  | store (base : Register) (field : String) (src : Operand)
  | call (dst : Option Register) (target : String) (arguments : List Operand)
  | branch (condition : Option Operand)
  | ret (result : Option Operand)
  | nop
deriving DecidableEq, Ord, Inhabited

namespace Operation

def dst? : Operation → Option Register
  | move dst _ => some dst
  | new dst _ => some dst
  | binary _ dst _ _ => some dst
  | load dst _ _ => some dst
  | call dst _ _ => dst
  | _ => none

def defined (o : Operation) : List Register := o.dst?.toList

def used : Operation → List Register
  | move _ src => src.register?.toList
  | new _ _ => []
  | nullCheck src => [src]
  | binary _ _ lhs rhs => lhs.register?.toList ++ rhs.register?.toList
  | load _ base _ => [base]
  | store base _ src => base :: src.register?.toList
  | call _ _ arguments => arguments.filterMap Operand.register?
  | branch condition => (condition.bind Operand.register?).toList
  | ret result => (result.bind Operand.register?).toList
  | nop => []

def isNullCheck : Operation → Bool
  | nullCheck _ => true
  | _ => false

/-- Only a copy from register to register counts as a move. -/
def isMove : Operation → Bool
  | move _ (.register _) => true
  | _ => false

def listing : Operation → String
  | move dst src => s!"MOVE {dst}, {src}"
  | new dst className => s!"NEW {dst}, {className}"
  | nullCheck src => s!"NULL_CHECK {src}"
  | binary op dst lhs rhs => s!"{op} {dst}, {lhs}, {rhs}"
  | load dst base field => s!"GETFIELD {dst}, {base}.{field}"
  | store base field src => s!"PUTFIELD {base}.{field}, {src}"
  | call dst target arguments =>
    let result := match dst with
      | some dst => s!"{dst}, "
      | none => ""
    let words := Text.commas (arguments.map toString)
    s!"INVOKE {result}{target}({words})"
  | branch (some condition) => s!"IFCMP {condition}"
  | branch none => "GOTO"
  | ret (some result) => s!"RETURN {result}"
  | ret none => "RETURN"
  | nop => "NOP"

instance : ToString Operation := ⟨listing⟩

end Operation

end Dataflow
