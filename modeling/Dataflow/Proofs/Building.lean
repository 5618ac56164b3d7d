import Dataflow.FlowGraph.Basic
import Dataflow.Proofs.Collections
import Dataflow.Proofs.Runs
import Mathlib.Data.List.Nodup
import Mathlib.Logic.Relation

/-! # Graphs as they are built

Every graph comes about by inserting blocks and edges, choosing an entry and erasing quads.
The parts of such a graph agree: homes are exactly the blocks that hold the quads, identities
are never shared, the nodes are the blocks, and edges and the entry name blocks that are there.
While they agree, an edit that is refused changes nothing.
-/
namespace Dataflow

namespace Digraph

variable {d : Digraph} {i j : BlockIndex}

@[simp] theorem addNode_edges (d : Digraph) (i : BlockIndex) : (d.addNode i).edges = d.edges := by
  unfold addNode
  split <;> rfl

theorem addNode_of_mem (h : i ∈ d.nodes) : d.addNode i = d := by
  unfold addNode
  rw [if_pos (List.contains_iff_mem.2 h)]

theorem addNode_of_not_mem (h : i ∉ d.nodes) :
    d.addNode i = { d with nodes := d.nodes ++ [i] } := by
  unfold addNode
  rw [if_neg fun hm => h (List.contains_iff_mem.1 hm)]

theorem mem_nodes_addNode : j ∈ (d.addNode i).nodes ↔ j ∈ d.nodes ∨ j = i := by
  by_cases h : i ∈ d.nodes
  · rw [addNode_of_mem h]
    exact ⟨.inl, fun hj => hj.elim id fun heq => heq ▸ h⟩
  · rw [addNode_of_not_mem h, List.mem_append, List.mem_singleton]

theorem nodup_nodes_addNode (hd : d.nodes.Nodup) : (d.addNode i).nodes.Nodup := by
  by_cases h : i ∈ d.nodes
  · rw [addNode_of_mem h]
    exact hd
  · rw [addNode_of_not_mem h, ← List.concat_eq_append]
    exact hd.concat h

/-- An edge between nodes that are there adds itself only. -/
theorem addEdge_of_mem {e : Edge} (hhead : e.head ∈ d.nodes) (htail : e.tail ∈ d.nodes) :
    d.addEdge e = d ∧ e ∈ d.edges ∨
      d.addEdge e = { d with edges := d.edges ++ [e] } ∧ e ∉ d.edges := by
  unfold addEdge
  rw [addNode_of_mem hhead, addNode_of_mem htail]
  by_cases h : e ∈ d.edges
  · exact .inl ⟨if_pos (List.contains_iff_mem.2 h), h⟩
  · exact .inr ⟨if_neg fun hm => h (List.contains_iff_mem.1 hm), h⟩

end Digraph

namespace FlowGraph

/-- One edit leads from a graph to the next, whether it is done or refused. -/
inductive Edited : FlowGraph → FlowGraph → Prop
  | insertBlock (g : FlowGraph) (b : Block) : Edited g (insertBlock b g).state
  | insertEdge (g : FlowGraph) (e : Edge) : Edited g (insertEdge e g).state
  | setEntry (g : FlowGraph) (index : BlockIndex) : Edited g (setEntry index g).state
  | eraseQuad (g : FlowGraph) (id : QuadId) : Edited g (eraseQuad id g).state

/-- A graph that edits of the empty one lead to. -/
def Built (g : FlowGraph) : Prop := Relation.ReflTransGen Edited ∅ g

theorem Built.edited {g h : FlowGraph} (hg : g.Built) (he : Edited g h) : h.Built := hg.tail he

theorem built_ofQuads {quads : List Quad} {g : FlowGraph} (h : ofQuads quads = .ok g) :
    Built g := by
  obtain ⟨_, hrun⟩ := Run.final_eq_ok.1 h
  rw [← hrun.state]
  exact Run.Keeps.bind (P := Built) (fun g hg => hg.edited (.insertBlock g _))
    (fun _ g hg => hg.edited (.setEntry g 0)) _ .refl

/-- A graph that has been written down can only come back as one that is built. -/
theorem built_ofOutline {o : Outline} {g : FlowGraph} (h : ofOutline o = .ok g) : Built g := by
  have hentry : Run.Keeps Built (o.entry.forM setEntry) := by
    cases o.entry with
    | none => exact fun _ hg => hg
    | some index => exact fun g hg => hg.edited (.setEntry g index)
  obtain ⟨_, hrun⟩ := Run.final_eq_ok.1 h
  rw [← hrun.state]
  exact Run.Keeps.bind (.forM fun b _ g hg => hg.edited (.insertBlock g b))
    (fun _ => .bind (.forM fun e _ g hg => hg.edited (.insertEdge g e)) fun _ => hentry) _ .refl

/-- A check in front of a loop that leads through an empty block and checks a copy. -/
def loopOutline : Outline where
  entry := some 0
  blocks := [⟨0, [⟨1, .nullCheck ⟨"x"⟩⟩]⟩, ⟨1, []⟩,
    ⟨2, [⟨2, .move ⟨"y"⟩ (.register ⟨"x"⟩)⟩, ⟨3, .nullCheck ⟨"y"⟩⟩]⟩]
  edges := [⟨0, 1⟩, ⟨1, 2⟩, ⟨2, 1⟩]

/-- The parts of the graph agree with its blocks. -/
structure Coherent (g : FlowGraph) : Prop where
  index_eq {i : BlockIndex} {b : Block} : g.blocks.get? i = some b → b.index = i
  ids_nodup {i : BlockIndex} {b : Block} : g.blocks.get? i = some b → b.ids.Nodup
  homes_iff {id : QuadId} {i : BlockIndex} :
    g.homes.get? id = some i ↔ ∃ b, g.blocks.get? i = some b ∧ id ∈ b.ids
  nodes_nodup : g.links.nodes.Nodup
  nodes_iff {i : BlockIndex} : i ∈ g.links.nodes ↔ ∃ b, g.blocks.get? i = some b
  edges_nodup : g.edges.Nodup
  edges_known {e : Edge} : e ∈ g.edges →
    (∃ b, g.blocks.get? e.head = some b) ∧ ∃ b, g.blocks.get? e.tail = some b
  entry_known {i : BlockIndex} : g.entry = some i → ∃ b, g.blocks.get? i = some b

theorem coherent_empty : Coherent ∅ where
  index_eq h := by cases h
  ids_nodup h := by cases h
  homes_iff := ⟨fun h => (by cases h), fun ⟨_, h, _⟩ => (by cases h)⟩
  nodes_nodup := List.nodup_nil
  nodes_iff := ⟨fun h => absurd h List.not_mem_nil, fun ⟨_, h⟩ => (by cases h)⟩
  edges_nodup := List.nodup_nil
  edges_known h := absurd h List.not_mem_nil
  entry_known h := by cases h

/-- Nothing is repeated exactly if the list adds new identities only, each once. -/
theorem firstRepeat?_eq_none {taken : QuadId → Bool} {seen ids : List QuadId} :
    firstRepeat? taken seen ids = none ↔
      ids.Nodup ∧ ∀ id ∈ ids, taken id = false ∧ id ∉ seen := by
  induction ids generalizing seen with
  | nil => simp [firstRepeat?]
  | cons id ids ih =>
    rw [firstRepeat?]
    by_cases h : (taken id || seen.contains id) = true
    · rw [if_pos h]
      have hnot : ¬ (taken id = false ∧ id ∉ seen) := by
        rintro ⟨ht, hs⟩
        simp [ht, hs] at h
      simp only [reduceCtorEq, List.nodup_cons, List.mem_cons, forall_eq_or_imp, hnot, false_and,
        and_false]
    · rw [if_neg h, ih]
      have hid : taken id = false ∧ id ∉ seen := by simpa using h
      simp only [List.mem_cons, not_or, List.nodup_cons, forall_eq_or_imp, hid, true_and,
        not_false_eq_true]
      constructor
      · rintro ⟨hnd, hall⟩
        exact ⟨⟨fun hm => (hall id hm).2.1 rfl, hnd⟩,
          fun j hj => ⟨(hall j hj).1, (hall j hj).2.2⟩⟩
      · rintro ⟨⟨hnot, hnd⟩, hall⟩
        refine ⟨hnd, fun j hj => ⟨(hall j hj).1, ?_, (hall j hj).2⟩⟩
        rintro rfl
        exact hnot hj

theorem contains_eq_false_iff {κ α : Type} [Ord κ] {m : OrderedMap κ α} {k : κ} :
    m.contains k = false ↔ m.get? k = none := by
  unfold OrderedMap.contains
  cases m.get? k <;> simp

/-- A block that can be inserted: its index and the identities of its quads are new. -/
structure Admits (g : FlowGraph) (b : Block) : Prop where
  index : g.blocks.get? b.index = none
  nodup : b.ids.Nodup
  free {id : QuadId} : id ∈ b.ids → g.homes.get? id = none

def withBlock (g : FlowGraph) (b : Block) : FlowGraph :=
  { g with
    homes := b.ids.foldl (fun homes id => homes.set id b.index) g.homes
    links := g.links.addNode b.index
    blocks := g.blocks.set b.index b }

theorem insertBlock_cases (b : Block) (g : FlowGraph) :
    (g.Admits b ∧ insertBlock b g = ⟨.ok (), g.withBlock b, []⟩) ∨
      (¬ g.Admits b ∧ ∃ e, insertBlock b g = ⟨.error e, g, []⟩) := by
  unfold insertBlock
  rw [Run.get_bind]
  cases hindex : g.blocks.contains b.index with
  | true =>
    refine .inr ⟨fun h => ?_, _, rfl⟩
    rw [contains_eq_false_iff.2 h.index] at hindex
    cases hindex
  | false =>
    simp only [Bool.false_eq_true, if_false]
    cases hrepeat : firstRepeat? g.homes.contains [] b.ids with
    | some id =>
      refine .inr ⟨fun h => ?_, _, rfl⟩
      have hnone := firstRepeat?_eq_none.2
        ⟨h.nodup, fun id hid => ⟨contains_eq_false_iff.2 (h.free hid), List.not_mem_nil⟩⟩
      rw [hrepeat] at hnone
      cases hnone
    | none =>
      obtain ⟨hnd, hfree⟩ := firstRepeat?_eq_none.1 hrepeat
      exact .inl ⟨⟨contains_eq_false_iff.1 hindex, hnd,
        fun hid => contains_eq_false_iff.1 (hfree _ hid).1⟩, rfl⟩

theorem Coherent.withBlock {g : FlowGraph} {b : Block} (hg : g.Coherent) (hb : g.Admits b) :
    (g.withBlock b).Coherent := by
  have hblocks : ∀ i c, (g.blocks.set b.index b).get? i = some c →
      (i = b.index ∧ c = b) ∨ (i ≠ b.index ∧ g.blocks.get? i = some c) := by
    intro i c hc
    rw [OrderedMap.get?_set] at hc
    by_cases hi : i = b.index
    · rw [if_pos hi] at hc
      exact .inl ⟨hi, (Option.some.inj hc).symm⟩
    · rw [if_neg hi] at hc
      exact .inr ⟨hi, hc⟩
  have hkept : ∀ i, (∃ c, g.blocks.get? i = some c) →
      ∃ c, (g.blocks.set b.index b).get? i = some c := by
    rintro i ⟨c, hc⟩
    rw [OrderedMap.get?_set]
    by_cases hi : i = b.index
    · exact ⟨b, if_pos hi⟩
    · exact ⟨c, by rw [if_neg hi, hc]⟩
  have hedges : (g.withBlock b).edges = g.edges := g.links.addNode_edges b.index
  refine ⟨?_, ?_, ?_, Digraph.nodup_nodes_addNode hg.nodes_nodup, ?_, hedges ▸ hg.edges_nodup, ?_,
    fun hi => hkept _ (hg.entry_known hi)⟩
  · intro i c hc
    rcases hblocks i c hc with ⟨rfl, rfl⟩ | ⟨_, hc⟩
    · rfl
    · exact hg.index_eq hc
  · intro i c hc
    rcases hblocks i c hc with ⟨rfl, rfl⟩ | ⟨_, hc⟩
    · exact hb.nodup
    · exact hg.ids_nodup hc
  · intro id i
    show (b.ids.foldl (fun homes id => homes.set id b.index) g.homes).get? id = some i ↔
      ∃ c, (g.blocks.set b.index b).get? i = some c ∧ id ∈ c.ids
    rw [OrderedMap.get?_foldl_set b.ids (fun id => id) (fun _ => b.index) g.homes id
      (fun _ _ _ => rfl), List.map_id']
    by_cases hid : id ∈ b.ids
    · rw [if_pos hid]
      constructor
      · intro hi
        cases hi
        exact ⟨b, by simp, hid⟩
      · rintro ⟨c, hc, hm⟩
        rcases hblocks i c hc with ⟨rfl, rfl⟩ | ⟨_, hc⟩
        · rfl
        · have hhome := hg.homes_iff.2 ⟨c, hc, hm⟩
          rw [hb.free hid] at hhome
          cases hhome
    · rw [if_neg hid, hg.homes_iff]
      constructor
      · rintro ⟨c, hc, hm⟩
        refine ⟨c, ?_, hm⟩
        rw [OrderedMap.get?_set, if_neg, hc]
        rintro rfl
        rw [hb.index] at hc
        cases hc
      · rintro ⟨c, hc, hm⟩
        rcases hblocks i c hc with ⟨rfl, rfl⟩ | ⟨_, hc⟩
        · exact absurd hm hid
        · exact ⟨c, hc, hm⟩
  · intro i
    show i ∈ (g.links.addNode b.index).nodes ↔ ∃ c, (g.blocks.set b.index b).get? i = some c
    rw [Digraph.mem_nodes_addNode, hg.nodes_iff]
    constructor
    · rintro (hi | rfl)
      · exact hkept i hi
      · exact ⟨b, by simp⟩
    · rintro ⟨c, hc⟩
      rcases hblocks i c hc with ⟨hi, _⟩ | ⟨_, hc⟩
      · exact .inr hi
      · exact .inl ⟨c, hc⟩
  · intro e he
    rw [hedges] at he
    exact ⟨hkept _ (hg.edges_known he).1, hkept _ (hg.edges_known he).2⟩

theorem Coherent.insertBlock {g : FlowGraph} (hg : g.Coherent) (b : Block) :
    (insertBlock b g).state.Coherent := by
  rcases insertBlock_cases b g with ⟨hb, heq⟩ | ⟨_, e, heq⟩
  · rw [heq]
    exact hg.withBlock hb
  · rw [heq]
    exact hg

theorem block_eq_ok {g : FlowGraph} {i : BlockIndex} {b : Block} :
    g.block i = .ok b ↔ g.blocks.get? i = some b := by
  unfold block
  cases g.blocks.get? i with
  | none => exact ⟨fun h => (by cases h), fun h => (by cases h)⟩
  | some c => exact ⟨fun h => by cases h; rfl, fun h => by cases h; rfl⟩

theorem block_cases (g : FlowGraph) (i : BlockIndex) :
    (∃ b, g.block i = .ok b ∧ g.blocks.get? i = some b) ∨
      (g.block i = .error (.unknownBlock i) ∧ g.blocks.get? i = none) := by
  unfold block
  cases g.blocks.get? i with
  | none => exact .inr ⟨rfl, rfl⟩
  | some b => exact .inl ⟨b, rfl, rfl⟩

theorem insertEdge_cases (e : Edge) (g : FlowGraph) :
    (((∃ b, g.blocks.get? e.head = some b) ∧ ∃ b, g.blocks.get? e.tail = some b) ∧
        insertEdge e g = ⟨.ok (), { g with links := g.links.addEdge e }, []⟩) ∨
      ((g.blocks.get? e.head = none ∨ g.blocks.get? e.tail = none) ∧
        ∃ x, insertEdge e g = ⟨.error x, g, []⟩) := by
  unfold insertEdge
  rcases g.block_cases e.head with ⟨b, hb, hhead⟩ | ⟨herror, hhead⟩
  · rcases g.block_cases e.tail with ⟨c, hc, htail⟩ | ⟨herror, htail⟩
    · refine .inl ⟨⟨⟨b, hhead⟩, c, htail⟩, ?_⟩
      simp only [Run.look_bind, hb, hc]
      rfl
    · refine .inr ⟨.inr htail, .unknownBlock e.tail, ?_⟩
      simp only [Run.look_bind, hb, herror]
  · refine .inr ⟨.inl hhead, .unknownBlock e.head, ?_⟩
    simp only [Run.look_bind, herror]

theorem Coherent.insertEdge {g : FlowGraph} (hg : g.Coherent) (e : Edge) :
    (insertEdge e g).state.Coherent := by
  rcases insertEdge_cases e g with ⟨hends, heq⟩ | ⟨_, x, heq⟩
  · rw [heq]
    rcases Digraph.addEdge_of_mem (hg.nodes_iff.2 hends.1) (hg.nodes_iff.2 hends.2) with
      ⟨hlinks, _⟩ | ⟨hlinks, hnew⟩
    · rw [hlinks]
      exact hg
    · rw [hlinks]
      refine { hg with edges_nodup := ?_, edges_known := ?_ }
      · show (g.edges ++ [e]).Nodup
        rw [← List.concat_eq_append]
        exact hg.edges_nodup.concat hnew
      · intro d hd
        rcases List.mem_append.1 hd with hd | hd
        · exact hg.edges_known hd
        · cases List.mem_singleton.1 hd
          exact hends
  · rw [heq]
    exact hg

theorem setEntry_cases (i : BlockIndex) (g : FlowGraph) :
    ((∃ b, g.blocks.get? i = some b) ∧
        setEntry i g = ⟨.ok (), { g with entry := some i }, []⟩) ∨
      (g.blocks.get? i = none ∧ ∃ x, setEntry i g = ⟨.error x, g, []⟩) := by
  unfold setEntry
  rcases g.block_cases i with ⟨b, hb, hi⟩ | ⟨herror, hi⟩
  · refine .inl ⟨⟨b, hi⟩, ?_⟩
    simp only [Run.look_bind, hb]
    rfl
  · refine .inr ⟨hi, .unknownBlock i, ?_⟩
    simp only [Run.look_bind, herror]

theorem Coherent.setEntry {g : FlowGraph} (hg : g.Coherent) (i : BlockIndex) :
    (setEntry i g).state.Coherent := by
  rcases setEntry_cases i g with ⟨hknown, heq⟩ | ⟨_, x, heq⟩
  · rw [heq]
    refine { hg with entry_known := ?_ }
    intro j hj
    cases hj
    exact hknown
  · rw [heq]
    exact hg

theorem home_eq_ok {g : FlowGraph} {id : QuadId} {i : BlockIndex} :
    g.home id = .ok i ↔ g.homes.get? id = some i := by
  unfold home
  cases g.homes.get? id with
  | none => exact ⟨fun h => (by cases h), fun h => (by cases h)⟩
  | some j => exact ⟨fun h => by cases h; rfl, fun h => by cases h; rfl⟩

theorem Coherent.quad?_eq {g : FlowGraph} (hg : g.Coherent) {i : BlockIndex} {b : Block} {q : Quad}
    (hb : g.blocks.get? i = some b) (hq : q ∈ b.quads) : b.quad? q.id = some q := by
  obtain ⟨pre, post, heq⟩ := List.append_of_mem hq
  have hnd : b.ids.Nodup := hg.ids_nodup hb
  rw [Block.ids, heq, List.map_append, List.map_cons] at hnd
  have hpre : ∀ r ∈ pre, r.id ≠ q.id := fun r hr =>
    (List.nodup_append.1 hnd).2.2 r.id (List.mem_map.2 ⟨r, hr, rfl⟩) q.id List.mem_cons_self
  refine List.find?_eq_some_iff_append.2 ⟨by simp, pre, post, heq, fun r hr => ?_⟩
  simpa using hpre r hr

/-- A quad is found in the one block that holds it. -/
theorem Coherent.find_eq_ok {g : FlowGraph} (hg : g.Coherent) {id : QuadId} {b : Block} {q : Quad} :
    g.find id = .ok (b, q) ↔ g.blocks.get? b.index = some b ∧ q ∈ b.quads ∧ q.id = id := by
  constructor
  · intro h
    obtain ⟨i, _, h⟩ := bind_eq_ok.1 h
    obtain ⟨c, hc, h⟩ := bind_eq_ok.1 h
    have hi := block_eq_ok.1 hc
    split at h
    · rename_i r hr
      cases h
      have hid := List.find?_some hr
      exact ⟨by rw [hg.index_eq hi]; exact hi, List.mem_of_find?_eq_some hr, by simpa using hid⟩
    · cases h
  · rintro ⟨hb, hq, rfl⟩
    have hhome : g.homes.get? q.id = some b.index :=
      hg.homes_iff.2 ⟨b, hb, List.mem_map.2 ⟨q, hq, rfl⟩⟩
    refine bind_eq_ok.2 ⟨b.index, home_eq_ok.2 hhome, bind_eq_ok.2 ⟨b, block_eq_ok.2 hb, ?_⟩⟩
    rw [hg.quad?_eq hb hq]
    rfl

end FlowGraph

/-- The block with these quads left out. -/
def Block.without (b : Block) (ids : List QuadId) : Block :=
  { b with quads := b.quads.filter (fun q => !ids.contains q.id) }

@[simp] theorem Block.without_index (b : Block) (ids : List QuadId) :
    (b.without ids).index = b.index := rfl

theorem Block.without_nil (b : Block) : b.without [] = b := by
  simp [Block.without]

theorem Block.without_without (b : Block) (ids others : List QuadId) :
    (b.without ids).without others = b.without (ids ++ others) := by
  simp only [Block.without, List.filter_filter, List.contains_append, Bool.not_or, Bool.and_comm]

theorem Block.without_of_not_mem {b : Block} {id : QuadId} (h : id ∉ b.ids) :
    b.without [id] = b := by
  have hkeep : b.quads.filter (fun q => !([id] : List QuadId).contains q.id) = b.quads := by
    apply List.filter_eq_self.2
    intro q hq
    have hne : q.id ≠ id := fun heq => h (List.mem_map.2 ⟨q, hq, heq⟩)
    simpa using hne
  cases b
  simpa [Block.without] using hkeep

theorem Block.erase_eq_without {b : Block} (h : b.ids.Nodup) (id : QuadId) :
    b.erase id = b.without [id] := by
  have hquads : b.quads.eraseP (fun q => q.id == id) =
      b.quads.filter (fun q => !([id] : List QuadId).contains q.id) := by
    unfold Block.ids at h
    revert h
    induction b.quads with
    | nil => exact fun _ => rfl
    | cons q quads ih =>
      intro h
      obtain ⟨hq, hnd⟩ := List.nodup_cons.1 h
      by_cases hid : q.id = id
      · rw [List.eraseP_cons_of_pos (by simpa using hid), List.filter_cons_of_neg (by simp [hid])]
        refine (List.filter_eq_self.2 fun r hr => ?_).symm
        have hne : r.id ≠ id := fun heq => hq (List.mem_map.2 ⟨r, hr, heq.trans hid.symm⟩)
        simpa using hne
      · rw [List.eraseP_cons_of_neg (by simpa using hid), List.filter_cons_of_pos (by simp [hid]),
          ih hnd]
  unfold Block.erase Block.without
  rw [hquads]

namespace FlowGraph

/-- Erasing leaves the quad out of whatever block holds it, and keeps all else. -/
structure Erased (g : FlowGraph) (ids : List QuadId) (h : FlowGraph) : Prop where
  blocks (i : BlockIndex) : h.blocks.get? i = (g.blocks.get? i).map (·.without ids)
  edges : h.edges = g.edges
  entry : h.entry = g.entry

/-- A quad that has a home is in it, so an erasure that is refused is refused at once. -/
theorem Coherent.eraseQuad_cases {g : FlowGraph} (hg : g.Coherent) (id : QuadId) :
    (∃ b q, g.blocks.get? b.index = some b ∧ q ∈ b.quads ∧ q.id = id ∧
        eraseQuad id g = ⟨.ok q, { g with
          homes := g.homes.erase id
          blocks := g.blocks.set b.index (b.erase id) }, []⟩) ∨
      (g.homes.get? id = none ∧ eraseQuad id g = ⟨.error (.unknownQuad id), g, []⟩) := by
  unfold eraseQuad
  cases hhome : g.homes.get? id with
  | none =>
    have herror : g.home id = .error (.unknownQuad id) := by rw [home, hhome]
    refine .inr ⟨rfl, ?_⟩
    simp only [Run.look_bind, herror]
  | some i =>
    obtain ⟨b, hb, hid⟩ := hg.homes_iff.1 hhome
    obtain ⟨q, hq, rfl⟩ := List.mem_map.1 hid
    have hindex := hg.index_eq hb
    refine .inl ⟨b, q, by rw [hindex]; exact hb, hq, rfl, ?_⟩
    have hfound : (g.blocks.get? i).bind (fun b => (b.quad? q.id).map (fun r => (b, r))) =
        some (b, q) := by
      rw [hb, Option.bind_some, hg.quad?_eq hb hq]
      rfl
    simp only [Run.look_bind, home_eq_ok.2 hhome, Run.get_bind, hfound, hindex]
    rfl

theorem Coherent.eraseQuad_erased {g h : FlowGraph} {id : QuadId} {q : Quad} (hg : g.Coherent)
    (hq : (eraseQuad id).Yields g q h) :
    g.Erased [id] h ∧ h.homes = g.homes.erase id ∧ h.links = g.links := by
  have hresult := hq.result
  rcases hg.eraseQuad_cases id with ⟨b, r, hb, hr, hid, heq⟩ | ⟨_, heq⟩
  · rw [← hq.state, heq]
    refine ⟨⟨fun i => ?_, rfl, rfl⟩, rfl, rfl⟩
    show (g.blocks.set b.index (b.erase id)).get? i = _
    rw [OrderedMap.get?_set]
    by_cases hi : i = b.index
    · rw [if_pos hi, hi, hb, Block.erase_eq_without (hg.ids_nodup hb)]
      rfl
    · rw [if_neg hi]
      cases hc : g.blocks.get? i with
      | none => rfl
      | some c =>
        have hnot : id ∉ c.ids := by
          intro hm
          have hhome := hg.homes_iff.2 ⟨c, hc, hm⟩
          rw [hg.homes_iff.2 ⟨b, hb, List.mem_map.2 ⟨r, hr, hid⟩⟩] at hhome
          exact hi (Option.some.inj hhome).symm
        rw [Option.map_some, Block.without_of_not_mem hnot]
  · rw [heq] at hresult
    cases hresult

theorem Coherent.of_erased {g h : FlowGraph} {id : QuadId} (hg : g.Coherent)
    (he : g.Erased [id] h) (hhomes : h.homes = g.homes.erase id) (hlinks : h.links = g.links) :
    h.Coherent := by
  have hback : ∀ {i : BlockIndex} {c : Block}, h.blocks.get? i = some c →
      ∃ b, g.blocks.get? i = some b ∧ c = b.without [id] := by
    intro i c hc
    rw [he.blocks] at hc
    obtain ⟨b, hb, rfl⟩ := Option.map_eq_some_iff.1 hc
    exact ⟨b, hb, rfl⟩
  have hkept : ∀ {i : BlockIndex}, (∃ c, h.blocks.get? i = some c) ↔
      ∃ b, g.blocks.get? i = some b := by
    intro i
    constructor
    · rintro ⟨c, hc⟩
      obtain ⟨b, hb, _⟩ := hback hc
      exact ⟨b, hb⟩
    · rintro ⟨b, hb⟩
      exact ⟨b.without [id], by rw [he.blocks, hb]; rfl⟩
  have hids : ∀ (b : Block) (j : QuadId), j ∈ (b.without [id]).ids ↔ j ∈ b.ids ∧ j ≠ id := by
    intro b j
    simp only [Block.ids, Block.without, List.mem_map, List.mem_filter]
    constructor
    · rintro ⟨r, ⟨hr, hne⟩, rfl⟩
      exact ⟨⟨r, hr, rfl⟩, by simpa using hne⟩
    · rintro ⟨⟨r, hr, rfl⟩, hne⟩
      exact ⟨r, ⟨hr, by simpa using hne⟩, rfl⟩
  refine ⟨?_, ?_, ?_, by rw [hlinks]; exact hg.nodes_nodup, ?_,
    by rw [he.edges]; exact hg.edges_nodup, ?_, ?_⟩
  · intro i c hc
    obtain ⟨b, hb, rfl⟩ := hback hc
    rw [Block.without_index, hg.index_eq hb]
  · intro i c hc
    obtain ⟨b, hb, rfl⟩ := hback hc
    exact (hg.ids_nodup hb).sublist (List.filter_sublist.map Quad.id)
  · intro j i
    rw [hhomes, OrderedMap.get?_erase]
    constructor
    · intro hj
      by_cases hjd : j = id
      · rw [if_pos hjd] at hj
        cases hj
      · rw [if_neg hjd] at hj
        obtain ⟨b, hb, hm⟩ := hg.homes_iff.1 hj
        exact ⟨b.without [id], by rw [he.blocks, hb]; rfl, (hids b j).2 ⟨hm, hjd⟩⟩
    · rintro ⟨c, hc, hm⟩
      obtain ⟨b, hb, rfl⟩ := hback hc
      obtain ⟨hm, hjd⟩ := (hids b j).1 hm
      rw [if_neg hjd]
      exact hg.homes_iff.2 ⟨b, hb, hm⟩
  · intro i
    rw [hlinks, hg.nodes_iff, hkept]
  · intro e hm
    rw [he.edges] at hm
    exact ⟨hkept.2 (hg.edges_known hm).1, hkept.2 (hg.edges_known hm).2⟩
  · intro i hi
    rw [he.entry] at hi
    exact hkept.2 (hg.entry_known hi)

theorem Coherent.eraseQuad {g : FlowGraph} (hg : g.Coherent) (id : QuadId) :
    (eraseQuad id g).state.Coherent := by
  rcases hg.eraseQuad_cases id with ⟨b, q, _, _, _, heq⟩ | ⟨_, heq⟩
  · have hyields : (FlowGraph.eraseQuad id).Yields g q (FlowGraph.eraseQuad id g).state :=
      Run.yields_of_result (by rw [heq])
    obtain ⟨he, hhomes, hlinks⟩ := hg.eraseQuad_erased hyields
    exact hg.of_erased he hhomes hlinks
  · rw [heq]
    exact hg

theorem Coherent.edited {g h : FlowGraph} (hg : g.Coherent) (he : Edited g h) : h.Coherent := by
  cases he with
  | insertBlock b => exact hg.insertBlock b
  | insertEdge e => exact hg.insertEdge e
  | setEntry index => exact hg.setEntry index
  | eraseQuad id => exact hg.eraseQuad id

/-- The parts of every graph that is built agree. -/
theorem Built.coherent {g : FlowGraph} (h : g.Built) : g.Coherent := by
  induction h with
  | refl => exact coherent_empty
  | tail _ he ih => exact ih.edited he

end FlowGraph

end Dataflow
