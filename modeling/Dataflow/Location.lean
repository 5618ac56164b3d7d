import Dataflow.Quad

/-! # Neighbors and locations

The entry and the exit of a routine are neighbors of quads and no quads themselves.
In the order of neighbors the entry comes first and the exit last.
-/
namespace Dataflow

inductive Neighbor where
  | entry
  | quad (id : QuadId)
  | exit
deriving DecidableEq, Inhabited

namespace Neighbor

def listing : Neighbor → String
  | entry => "entry"
  | quad id => toString id
  | exit => "exit"

instance : ToString Neighbor := ⟨listing⟩

def rank : Neighbor → Nat
  | entry => 0
  | quad id => id.toNat + 1
  | exit => UInt64.size + 1

theorem rank_injective {a b : Neighbor} (h : a.rank = b.rank) : a = b := by
  cases a <;> cases b <;> simp only [rank] at h
  case quad.quad i j => rw [UInt64.toNat_inj.1 (Nat.succ.inj h)]
  case quad.exit i => exact absurd (Nat.succ.inj h) (Nat.ne_of_lt i.toNat_lt)
  case exit.quad i => exact absurd (Nat.succ.inj h).symm (Nat.ne_of_lt i.toNat_lt)
  all_goals first | rfl | cases h

instance : Ord Neighbor := ⟨fun a b => compare a.rank b.rank⟩

instance : Std.TransOrd Neighbor where
  eq_swap {a b} := Std.OrientedOrd.eq_swap (a := a.rank) (b := b.rank)
  isLE_trans {a b c} := Std.TransOrd.isLE_trans (a := a.rank) (b := b.rank) (c := c.rank)

instance : Std.LawfulEqOrd Neighbor where
  compare_self {a} := Std.ReflOrd.compare_self (a := a.rank)
  eq_of_compare h := rank_injective (Std.LawfulEqOrd.eq_of_compare (α := Nat) h)

end Neighbor

/-- A quad and what comes right before and right after it. -/
structure Location where
  quad : Quad
  predecessors : List Neighbor
  successors : List Neighbor
deriving DecidableEq, Inhabited

namespace Location

def id (l : Location) : QuadId := l.quad.id

def followsEntry (l : Location) : Bool := l.predecessors.contains .entry

def precedesExit (l : Location) : Bool := l.successors.contains .exit

end Location

end Dataflow
