import Dataflow.Proofs.Solving
import Mathlib.Data.List.Chain

/-! # Paths of quads

A path goes from quad to quad along the successors that the graph gives. Facts flow along
such paths, or against them in a backward problem.
-/
namespace Dataflow

section Chains

variable {β : Type} {R : β → β → Prop} {P : β → Prop} {a b : β} {tail : List β}

theorem isChain_cons_and : (a :: tail).IsChain (fun x y => R x y ∧ P y) ↔
    (a :: tail).IsChain R ∧ ∀ y ∈ tail, P y := by
  induction tail generalizing a with
  | nil => simp
  | cons b tail ih =>
    rw [List.isChain_cons_cons, List.isChain_cons_cons, ih, List.forall_mem_cons]
    tauto

/-- What steps lead to is the end of a chain. -/
theorem reflTransGen_iff_isChain : Relation.ReflTransGen (fun x y => R x y ∧ P y) a b ↔
    ∃ tail, (a :: tail).IsChain R ∧ (∀ y ∈ tail, P y) ∧ (a :: tail).getLast? = some b := by
  constructor
  · intro h
    obtain ⟨tail, hchain, hlast⟩ := List.exists_isChain_cons_of_relationReflTransGen h
    obtain ⟨hR, hP⟩ := isChain_cons_and.1 hchain
    exact ⟨tail, hR, hP, by rw [List.getLast?_eq_some_getLast (List.cons_ne_nil _ _), hlast]⟩
  · rintro ⟨tail, hR, hP, hlast⟩
    refine List.relationReflTransGen_of_exists_isChain_cons tail
      (isChain_cons_and.2 ⟨hR, hP⟩) ?_
    exact List.getLast_of_getLast?_eq_some hlast

/-- A chain with one member more at its end. -/
theorem isChain_cons_concat : (a :: (tail ++ [b])).IsChain R ↔
    (a :: tail).IsChain R ∧ ∃ c, (a :: tail).getLast? = some c ∧ R c b := by
  rw [← List.cons_append, List.isChain_append,
    List.getLast?_eq_some_getLast (List.cons_ne_nil a tail)]
  simp

end Chains

namespace FlowGraph

/-- Control can go from the one quad right to the other. -/
def Next (g : FlowGraph) (p q : Quad) : Prop :=
  p ∈ g.quads ∧ q ∈ g.quads ∧ ∃ ns, g.successors p.id = .ok ns ∧ .quad q.id ∈ ns

def AfterEntry (g : FlowGraph) (q : Quad) : Prop :=
  q ∈ g.quads ∧ ∃ ns, g.predecessors q.id = .ok ns ∧ .entry ∈ ns

def BeforeExit (g : FlowGraph) (q : Quad) : Prop :=
  q ∈ g.quads ∧ ∃ ns, g.successors q.id = .ok ns ∧ .exit ∈ ns

/-- The quads of `path` in their order, and then `q`, lie on a path from the entry. -/
def FromEntry (g : FlowGraph) (path : List Quad) (q : Quad) : Prop :=
  (path ++ [q]).IsChain g.Next ∧ ∃ first, (path ++ [q]).head? = some first ∧ g.AfterEntry first

variable {g : FlowGraph} {ls : List Location} {k l : Location}

theorem mem_quads_of_isChain {q : Quad} {path : List Quad} (h : (q :: path).IsChain g.Next)
    (hq : q ∈ g.quads) : ∀ m ∈ q :: path, m ∈ g.quads := by
  induction path generalizing q with
  | nil => simpa using hq
  | cons p path ih =>
    obtain ⟨hnext, hrest⟩ := List.isChain_cons_cons.1 h
    exact List.forall_mem_cons.2 ⟨hq, ih hrest hnext.2.1⟩

theorem fromEntry_nil {q : Quad} : g.FromEntry [] q ↔ g.AfterEntry q := by
  simp [FromEntry]

theorem fromEntry_concat {path : List Quad} {p q : Quad} :
    g.FromEntry (path ++ [p]) q ↔ g.FromEntry path p ∧ g.Next p q := by
  have hhead : (path ++ [p] ++ [q]).head? = (path ++ [p]).head? :=
    List.head?_append_of_ne_nil _ (by simp)
  unfold FromEntry
  rw [List.isChain_append, hhead]
  simp only [List.isChain_singleton, List.getLast?_concat, List.head?_singleton, Option.mem_def,
    Option.some_inj, true_and, forall_eq']
  tauto

theorem Coherent.next_iff (hg : g.Coherent) (h : g.locations = .ok ls) (hk : k ∈ ls)
    (hl : l ∈ ls) : g.Next k.quad l.quad ↔ .quad l.id ∈ k.successors := by
  show _ ∧ _ ∧ (∃ ns, g.successors k.id = .ok ns ∧ .quad l.id ∈ ns) ↔ _
  rw [hg.successors_eq_ok h hk]
  simp [mem_quads_of_location h hk, mem_quads_of_location h hl]

theorem Coherent.next_iff_predecessor (hg : g.Coherent) (h : g.locations = .ok ls) (hk : k ∈ ls)
    (hl : l ∈ ls) : g.Next k.quad l.quad ↔ .quad k.id ∈ l.predecessors := by
  rw [hg.next_iff h hk hl]
  constructor
  · intro hmem
    obtain ⟨m, hm, hid, hpred⟩ := hg.predecessor_of_successor h hk hmem
    rw [hg.location_unique h hm hl hid] at hpred
    exact hpred
  · intro hmem
    obtain ⟨m, hm, hid, hsucc⟩ := hg.successor_of_predecessor h hl hmem
    rw [hg.location_unique h hm hk hid] at hsucc
    exact hsucc

theorem Coherent.afterEntry_iff (hg : g.Coherent) (h : g.locations = .ok ls) (hl : l ∈ ls) :
    g.AfterEntry l.quad ↔ .entry ∈ l.predecessors := by
  show _ ∧ (∃ ns, g.predecessors l.id = .ok ns ∧ .entry ∈ ns) ↔ _
  rw [hg.predecessors_eq_ok h hl]
  simp [mem_quads_of_location h hl]

theorem Coherent.beforeExit_iff (hg : g.Coherent) (h : g.locations = .ok ls) (hl : l ∈ ls) :
    g.BeforeExit l.quad ↔ .exit ∈ l.successors := by
  show _ ∧ (∃ ns, g.successors l.id = .ok ns ∧ .exit ∈ ns) ↔ _
  rw [hg.successors_eq_ok h hl]
  simp [mem_quads_of_location h hl]

/-- Without an entry nothing comes right after it. -/
theorem Coherent.exists_entry (hg : g.Coherent) {q : Quad} (h : g.AfterEntry q) :
    ∃ e, g.entry = some e := by
  obtain ⟨hq, ns, hns, hentry⟩ := h
  obtain ⟨i, b, hb, hq⟩ := mem_quads.1 hq
  obtain ⟨pre, rest, hquads⟩ := List.append_of_mem hq
  cases (hg.predecessors_at hb hquads).symm.trans hns
  obtain ⟨e, he, _⟩ := (entry_mem_predecessorsAt ((quadsAt_eq hb).trans hquads)).1 hentry
  exact ⟨e, he⟩

/-- From the check in front of the loop on, control goes round between the copy and the check
of the copy. -/
theorem next_loopOutline (h : ofOutline loopOutline = .ok g) :
    g.AfterEntry ⟨1, .nullCheck ⟨"x"⟩⟩ ∧
      g.Next ⟨1, .nullCheck ⟨"x"⟩⟩ ⟨2, .move ⟨"y"⟩ (.register ⟨"x"⟩)⟩ ∧
      g.Next ⟨2, .move ⟨"y"⟩ (.register ⟨"x"⟩)⟩ ⟨3, .nullCheck ⟨"y"⟩⟩ ∧
      g.Next ⟨3, .nullCheck ⟨"y"⟩⟩ ⟨2, .move ⟨"y"⟩ (.register ⟨"x"⟩)⟩ := by
  cases h
  refine ⟨⟨?_, [.entry], rfl, List.mem_cons_self⟩, ⟨?_, ?_, [.quad 2], rfl, List.mem_cons_self⟩,
    ⟨?_, ?_, [.quad 3], rfl, List.mem_cons_self⟩, ⟨?_, ?_, [.quad 2], rfl, List.mem_cons_self⟩⟩
  all_goals decide +kernel

end FlowGraph

/-- A relation between quads, read along the flow. -/
def Direction.along (d : Direction) (R : Quad → Quad → Prop) (p q : Quad) : Prop :=
  match d with
  | .forward => R p q
  | .backward => R q p

theorem FlowGraph.Coherent.incoming_iff {g : FlowGraph} (hg : g.Coherent) {ls : List Location}
    (h : g.locations = .ok ls) (d : Direction) {k l : Location} (hk : k ∈ ls) (hl : l ∈ ls) :
    .quad k.id ∈ d.incoming l ↔ d.along g.Next k.quad l.quad := by
  cases d with
  | forward => exact (hg.next_iff_predecessor h hk hl).symm
  | backward => exact (hg.next_iff h hl hk).symm

variable {α : Type} [Fact α]

/-- What is solved at the one quad flows into the other. -/
def Scheme.Feeds (E : Scheme α) (p q : Quad) : Prop :=
  ∃ k ∈ E.locations, ∃ l ∈ E.locations, k.quad = p ∧ l.quad = q ∧
    .quad k.id ∈ E.direction.incoming l

theorem Scheme.Regular.feeds_iff {E : Scheme α} (hE : E.Regular) {l : Location}
    (hl : l ∈ E.locations) {p : Quad} :
    E.Feeds p l.quad ↔ ∃ k ∈ E.locations, k.quad = p ∧ .quad k.id ∈ E.direction.incoming l := by
  constructor
  · rintro ⟨k, hk, m, hm, rfl, hquad, hin⟩
    have hid : m.id = l.id := congrArg Quad.id hquad
    rw [List.inj_on_of_nodup_map hE.nodup hm hl hid] at hin
    exact ⟨k, hk, rfl, hin⟩
  · rintro ⟨k, hk, rfl, hin⟩
    exact ⟨k, hk, l, hl, rfl, rfl, hin⟩

/-- Facts flow where control goes, or where it comes from. -/
theorem Problem.feeds_eq {p : Problem α} {f : Routine} {ls : List Location}
    (hf : f.graph.Coherent) (hls : f.locations = .ok ls) :
    (p.scheme f ls).Feeds = p.direction.along f.graph.Next := by
  funext x y
  apply propext
  constructor
  · rintro ⟨k, hk, l, hl, rfl, rfl, hin⟩
    exact (hf.incoming_iff hls _ hk hl).1 hin
  · intro h
    have hquads : x ∈ f.quads ∧ y ∈ f.quads := by
      cases hd : p.direction with
      | forward =>
        rw [hd] at h
        exact ⟨h.1, h.2.1⟩
      | backward =>
        rw [hd] at h
        exact ⟨h.2.1, h.1⟩
    obtain ⟨k, hk, rfl⟩ := FlowGraph.exists_location_of_quad hls hquads.1
    obtain ⟨l, hl, rfl⟩ := FlowGraph.exists_location_of_quad hls hquads.2
    exact ⟨k, hk, l, hl, rfl, rfl, (hf.incoming_iff hls _ hk hl).2 h⟩

end Dataflow
