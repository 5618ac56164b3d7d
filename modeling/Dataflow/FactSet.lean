import Dataflow.Collection.OrderedSet
import Dataflow.Quad
import Dataflow.Text.Quoted

/-! # Sets of facts

Facts are drawn from a finite domain. Where paths join, a must-set keeps what holds on every
path and a may-set what holds on some path; the top of either is what a join with it leaves
unchanged.
-/
namespace Dataflow

class Fact (α : Type) extends Ord α where
  transitive : Std.TransOrd α
  lawful : Std.LawfulEqOrd α
  display : α → String
  /-- The fact with its type, as log lines show it. -/
  detail : α → String

attribute [instance] Fact.transitive Fact.lawful

instance : Fact Register where
  transitive := inferInstance
  lawful := inferInstance
  display := Register.name
  detail r :=
    let name := Text.quoted r.name
    s!"Register \x7b name: {name} \x7d"

instance : Fact QuadId where
  transitive := inferInstance
  lawful := inferInstance
  display := toString
  detail := toString

inductive Confluence where
  | must
  | may
deriving DecidableEq, Inhabited

def Confluence.detail : Confluence → String
  | must => "Must"
  | may => "May"

structure FactSet (α : Type) [Fact α] where
  facts : OrderedSet α
  domain : OrderedSet α
  confluence : Confluence
deriving DecidableEq

namespace FactSet

variable {α : Type} [Fact α]

def empty (domain : OrderedSet α) (confluence : Confluence) : FactSet α :=
  ⟨∅, domain, confluence⟩

def ofFacts (domain : OrderedSet α) (confluence : Confluence) (facts : List α) : FactSet α :=
  ⟨.ofList facts, domain, confluence⟩

def onFacts (f : OrderedSet α → OrderedSet α) (s : FactSet α) : FactSet α :=
  { s with facts := f s.facts }

def toTop (s : FactSet α) : FactSet α :=
  { s with facts := match s.confluence with
      | .must => s.domain
      | .may => ∅ }

def toBottom (s : FactSet α) : FactSet α :=
  { s with facts := match s.confluence with
      | .must => ∅
      | .may => s.domain }

def top (domain : OrderedSet α) (confluence : Confluence) : FactSet α :=
  (empty domain confluence).toTop

def bottom (domain : OrderedSet α) (confluence : Confluence) : FactSet α :=
  (empty domain confluence).toBottom

/-- Joins as the first set does, whatever the second. -/
def meet (s t : FactSet α) : FactSet α :=
  { s with facts := match s.confluence with
      | .must => s.facts.inter t.facts
      | .may => s.facts.union t.facts }

theorem mem_facts_meet {s t : FactSet α} {a : α} :
    a ∈ (s.meet t).facts ↔ match s.confluence with
      | .must => a ∈ s.facts ∧ a ∈ t.facts
      | .may => a ∈ s.facts ∨ a ∈ t.facts := by
  unfold meet
  cases s.confluence <;> simp

/-- Only facts count when values are compared. -/
def same (s t : FactSet α) : Bool := decide (s.facts = t.facts)

def contains (s : FactSet α) (a : α) : Bool := s.facts.contains a

def insert (s : FactSet α) (a : α) : FactSet α := s.onFacts (·.insert a)

def erase (s : FactSet α) (a : α) : FactSet α := s.onFacts (·.erase a)

def listing (s : FactSet α) : String :=
  let facts := Text.commas (s.facts.toList.map Fact.display)
  s!"[{facts}]"

def detail (s : FactSet α) : String :=
  let facts := Text.commas (s.facts.toList.map Fact.detail)
  let domain := Text.commas (s.domain.toList.map Fact.detail)
  let confluence := s.confluence.detail
  s!"FactSet \x7b facts: \x7b{facts}\x7d, universe: \x7b{domain}\x7d, confluence: {confluence} \x7d"

end FactSet

end Dataflow
