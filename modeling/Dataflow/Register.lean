/-! # Registers and operands

Registers are named, and ordered by the code points of their names. An operand is
what an operation reads: a register or a constant.
-/
namespace Dataflow

structure Register where
  name : String
deriving DecidableEq, Inhabited

namespace Register

instance : Ord Register := ⟨fun a b => compare a.name b.name⟩

instance : ToString Register := ⟨name⟩

instance : Std.TransOrd Register where
  eq_swap {a b} := Std.OrientedOrd.eq_swap (a := a.name) (b := b.name)
  isLE_trans {a b c} := Std.TransOrd.isLE_trans (a := a.name) (b := b.name) (c := c.name)

instance : Std.LawfulEqOrd Register where
  compare_self {a} := Std.ReflOrd.compare_self (a := a.name)
  eq_of_compare {a b} h := by
    cases a
    cases b
    exact congrArg mk (Std.LawfulEqOrd.eq_of_compare (α := String) h)

end Register

inductive Operand where
  | register (register : Register)
  | constant (value : Int64)
deriving DecidableEq, Ord, Inhabited

namespace Operand

def register? : Operand → Option Register
  | register r => some r
  | constant _ => none

instance : ToString Operand where
  toString
    | register r => toString r
    | constant n => s!"IConst: {n}"

end Operand

end Dataflow
