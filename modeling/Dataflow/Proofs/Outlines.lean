import Dataflow.Proofs.Refusals
import Mathlib.Data.List.Induction

/-! # From outlines to graphs

An outline is well-formed if its blocks share neither index nor identity and its edges and its
entry name blocks that are listed. The graph of a well-formed outline can be written down at once,
and this is the graph that building gives; no other outline can be built. In particular the outline
of a graph can be built again. What comes out may differ from the graph in the order of its nodes,
and nothing but the nodes themselves tells the difference.
-/
namespace Dataflow.FlowGraph

variable {g h : FlowGraph} {bs : List Block} {b : Block} {es : List Edge}

/-- No two blocks share an index, and no two quads of theirs an identity. -/
structure Separate (bs : List Block) : Prop where
  indices : (bs.map Block.index).Nodup
  ids : (bs.flatMap Block.ids).Nodup

section Blocks

theorem get?_withBlock (g : FlowGraph) (b : Block) (i : BlockIndex) :
    (g.withBlock b).blocks.get? i = if i = b.index then some b else g.blocks.get? i :=
  OrderedMap.get?_set ..

theorem get?_homes_withBlock (g : FlowGraph) (b : Block) (id : QuadId) :
    (g.withBlock b).homes.get? id = if id ∈ b.ids then some b.index else g.homes.get? id := by
  show (b.ids.foldl (fun homes id => homes.set id b.index) g.homes).get? id = _
  rw [OrderedMap.get?_foldl_set b.ids (fun id => id) (fun _ => b.index) g.homes id
    (fun _ _ _ => rfl), List.map_id']

/-- The graph with these blocks and nothing else. -/
def ofBlocks (bs : List Block) : FlowGraph := bs.foldl withBlock ∅

theorem ofBlocks_concat (bs : List Block) (b : Block) :
    ofBlocks (bs ++ [b]) = (ofBlocks bs).withBlock b := by simp [ofBlocks]

theorem known_ofBlocks : (ofBlocks bs).Known = (· ∈ bs.map Block.index) := by
  funext i
  apply propext
  induction bs using List.reverseRecOn with
  | nil => simp [Known, ofBlocks, ← Option.isSome_iff_exists]; rfl
  | append_singleton bs b ih =>
    rw [ofBlocks_concat, Known, get?_withBlock]
    by_cases hi : i = b.index
    · simp [hi]
    · simp only [if_neg hi]
      simpa [hi, Known] using ih

theorem taken_ofBlocks : (ofBlocks bs).Taken = (· ∈ bs.flatMap Block.ids) := by
  funext id
  apply propext
  induction bs using List.reverseRecOn with
  | nil => simp [Taken, ofBlocks, ← Option.isSome_iff_exists]; rfl
  | append_singleton bs b ih =>
    rw [ofBlocks_concat, Taken, get?_homes_withBlock]
    by_cases hid : id ∈ b.ids
    · simp [hid]
    · simp only [if_neg hid]
      simpa [hid, Taken] using ih

theorem edges_ofBlocks : (ofBlocks bs).edges = [] ∧ (ofBlocks bs).entry = none := by
  induction bs using List.reverseRecOn with
  | nil => exact ⟨rfl, rfl⟩
  | append_singleton bs b ih =>
    rw [ofBlocks_concat]
    exact ⟨(Digraph.addNode_edges _ _).trans ih.1, ih.2⟩

/-- A block can be added to others if its index and its identities are new. -/
theorem separate_concat : Separate (bs ++ [b]) ↔ Separate bs ∧ (ofBlocks bs).Admits b := by
  have hindex : (ofBlocks bs).blocks.get? b.index = none ↔ b.index ∉ bs.map Block.index := by
    rw [← not_known_iff, known_ofBlocks]
  have hfree (id : QuadId) : (ofBlocks bs).homes.get? id = none ↔ id ∉ bs.flatMap Block.ids := by
    rw [← not_taken_iff, taken_ofBlocks]
  constructor
  · rintro ⟨hindices, hids⟩
    rw [List.map_append, List.map_singleton, List.nodup_append] at hindices
    rw [List.flatMap_append, List.flatMap_singleton, List.nodup_append] at hids
    refine ⟨⟨hindices.1, hids.1⟩, hindex.2 fun hm => ?_, hids.2.1, fun {id} hid => ?_⟩
    · exact hindices.2.2 _ hm _ List.mem_cons_self rfl
    · exact (hfree id).2 fun hm => hids.2.2 id hm id hid rfl
  · rintro ⟨⟨hindices, hids⟩, hb⟩
    constructor
    · rw [List.map_append, List.map_singleton, ← List.concat_eq_append]
      exact hindices.concat (hindex.1 hb.index)
    · rw [List.flatMap_append, List.flatMap_singleton, List.nodup_append]
      refine ⟨hids, hb.nodup, ?_⟩
      rintro id hold _ hnew rfl
      exact (hfree id).1 (hb.free hnew) hold

theorem yields_insertBlock : (insertBlock b).Yields g () h ↔ g.Admits b ∧ h = g.withBlock b := by
  rcases insertBlock_cases b g with ⟨hb, heq⟩ | ⟨hb, x, heq⟩
  · have hyields : (insertBlock b).Yields g () (g.withBlock b) := ⟨[], heq⟩
    exact ⟨fun hh => ⟨hb, (hh.unique hyields).2⟩, fun hh => hh.2 ▸ hyields⟩
  · exact ⟨fun hh => by simpa [heq] using hh.result, fun hh => absurd hh.1 hb⟩

theorem yields_insertBlocks :
    (bs.forM insertBlock).Yields ∅ () g ↔ Separate bs ∧ g = ofBlocks bs := by
  induction bs using List.reverseRecOn generalizing g with
  | nil =>
    rw [Run.yields_forM_nil]
    exact ⟨fun h => ⟨⟨List.nodup_nil, List.nodup_nil⟩, h⟩, fun h => h.2⟩
  | append_singleton bs b ih =>
    simp only [Run.yields_forM_concat, ih, yields_insertBlock, separate_concat, ofBlocks_concat]
    constructor
    · rintro ⟨_, ⟨hbs, rfl⟩, hb, rfl⟩
      exact ⟨⟨hbs, hb⟩, rfl⟩
    · rintro ⟨⟨hbs, hb⟩, rfl⟩
      exact ⟨_, ⟨hbs, rfl⟩, hb, rfl⟩

theorem Separate.get?_ofBlocks (hbs : Separate bs) {i : BlockIndex} {c : Block} :
    (ofBlocks bs).blocks.get? i = some c ↔ c ∈ bs ∧ c.index = i := by
  induction bs using List.reverseRecOn with
  | nil => exact ⟨fun hc => (by cases hc), fun hc => absurd hc.1 List.not_mem_nil⟩
  | append_singleton bs b ih =>
    obtain ⟨hbs, hb⟩ := separate_concat.1 hbs
    have hnew := not_known_iff.2 hb.index
    rw [known_ofBlocks] at hnew
    rw [ofBlocks_concat, get?_withBlock, List.mem_append, List.mem_singleton]
    by_cases hi : i = b.index
    · rw [if_pos hi, Option.some_inj]
      constructor
      · rintro rfl
        exact ⟨.inr rfl, hi.symm⟩
      · rintro ⟨hc | rfl, rfl⟩
        · exact absurd (List.mem_map.2 ⟨c, hc, hi⟩) hnew
        · rfl
    · rw [if_neg hi, ih hbs]
      constructor
      · rintro ⟨hc, hindex⟩
        exact ⟨.inl hc, hindex⟩
      · rintro ⟨hc | rfl, hindex⟩
        · exact ⟨hc, hindex⟩
        · exact absurd hindex.symm hi

end Blocks

section Edges

/-- The graph with these edges added, repeats left out. -/
def withEdges (g : FlowGraph) (es : List Edge) : FlowGraph :=
  { g with links := es.foldl Digraph.addEdge g.links }

theorem addEdge_edges (d : Digraph) (e : Edge) :
    (d.addEdge e).edges = if e ∈ d.edges then d.edges else d.edges ++ [e] := by
  unfold Digraph.addEdge
  by_cases he : e ∈ d.edges <;> simp [he]

/-- Of equal edges the first one is kept. -/
theorem edges_withEdges (hg : g.edges = []) (es : List Edge) :
    (g.withEdges es).edges = es.eraseDups := by
  show (es.foldl Digraph.addEdge g.links).edges = es.eraseDups
  induction es using List.reverseRecOn with
  | nil => exact hg
  | append_singleton es e ih =>
    rw [List.foldl_concat, addEdge_edges, ih, List.eraseDups_append]
    by_cases he : e ∈ es <;> simp [he, List.removeAll, List.eraseDups_cons]

theorem yields_insertEdge {e : Edge} : (insertEdge e).Yields g () h ↔
    (g.Known e.head ∧ g.Known e.tail) ∧ h = g.withEdges [e] := by
  rcases insertEdge_cases e g with ⟨hends, heq⟩ | ⟨hends, x, heq⟩
  · have hyields : (insertEdge e).Yields g () (g.withEdges [e]) := ⟨[], heq⟩
    exact ⟨fun hh => ⟨hends, (hh.unique hyields).2⟩, fun hh => hh.2 ▸ hyields⟩
  · refine ⟨fun hh => by simpa [heq] using hh.result, fun ⟨⟨hhead, htail⟩, _⟩ => ?_⟩
    rcases hends with hnone | hnone
    · exact absurd hhead (not_known_iff.2 hnone)
    · exact absurd htail (not_known_iff.2 hnone)

theorem yields_insertEdges : (es.forM insertEdge).Yields g () h ↔
    (∀ e ∈ es, g.Known e.head ∧ g.Known e.tail) ∧ h = g.withEdges es := by
  induction es generalizing g with
  | nil =>
    rw [Run.yields_forM_nil]
    exact ⟨fun hh => ⟨fun e he => absurd he List.not_mem_nil, hh⟩, fun hh => hh.2⟩
  | cons e es ih =>
    simp only [Run.yields_forM_cons, yields_insertEdge, ih, List.forall_mem_cons]
    constructor
    · rintro ⟨_, ⟨he, rfl⟩, hes, rfl⟩
      exact ⟨⟨he, hes⟩, rfl⟩
    · rintro ⟨⟨he, hes⟩, rfl⟩
      exact ⟨_, ⟨he, rfl⟩, hes, rfl⟩

theorem yields_setEntry? {entry : Option BlockIndex} : (entry.forM setEntry).Yields g () h ↔
    (∀ i, entry = some i → g.Known i) ∧ h = { g with entry := entry.or g.entry } := by
  cases entry with
  | none =>
    exact ⟨fun hh => ⟨fun i hi => (by cases hi), hh.state.symm⟩,
      fun hh => hh.2 ▸ Run.yields_pure () g⟩
  | some i =>
    rcases setEntry_cases i g with ⟨hi, heq⟩ | ⟨hi, x, heq⟩
    · have hyields : (setEntry i).Yields g () { g with entry := some i } := ⟨[], heq⟩
      constructor
      · intro hh
        refine ⟨fun j hj => ?_, (Run.Yields.unique hh hyields).2⟩
        cases hj
        exact hi
      · rintro ⟨_, rfl⟩
        exact hyields
    · refine ⟨fun hh => ?_, fun hh => absurd (hh.1 i rfl) (not_known_iff.2 hi)⟩
      have hresult : (setEntry i g).result = .ok () := Run.Yields.result hh
      simp [heq] at hresult

end Edges

section Outlines

variable {o : Outline}

namespace Outline

/-- The indices of the blocks that are listed. -/
def indices (o : Outline) : List BlockIndex := o.blocks.map Block.index

/-- Blocks are separate, and edges and the entry name blocks that are listed. -/
structure WellFormed (o : Outline) : Prop where
  blocks : Separate o.blocks
  edges : ∀ e ∈ o.edges, e.head ∈ o.indices ∧ e.tail ∈ o.indices
  entry : ∀ i, o.entry = some i → i ∈ o.indices

/-- The graph with these blocks, edges and entry. -/
def graph (o : Outline) : FlowGraph :=
  { (ofBlocks o.blocks).withEdges o.edges with entry := o.entry }

end Outline

/-- Exactly the well-formed outlines can be built, and what comes out is their graph. -/
theorem ofOutline_eq_ok : ofOutline o = .ok g ↔ o.WellFormed ∧ g = o.graph := by
  have hknown : (ofBlocks o.blocks).Known = (· ∈ o.indices) := known_ofBlocks
  have hlinked : ((ofBlocks o.blocks).withEdges o.edges).Known = (· ∈ o.indices) := known_ofBlocks
  have hgraph : { (ofBlocks o.blocks).withEdges o.edges with
      entry := o.entry.or ((ofBlocks o.blocks).withEdges o.edges).entry } = o.graph := by
    have hnone : ((ofBlocks o.blocks).withEdges o.edges).entry = none := edges_ofBlocks.2
    rw [hnone, Option.or_none]
    rfl
  unfold ofOutline
  rw [Run.final_eq_ok]
  constructor
  · rintro ⟨_, hrun⟩
    obtain ⟨_, k, hblocks, hrun⟩ := hrun.of_bind
    obtain ⟨_, m, hedges, hentry⟩ := hrun.of_bind
    obtain ⟨hseparate, rfl⟩ := yields_insertBlocks.1 hblocks
    obtain ⟨hends, rfl⟩ := yields_insertEdges.1 hedges
    obtain ⟨hstart, rfl⟩ := yields_setEntry?.1 hentry
    rw [hknown] at hends
    rw [hlinked] at hstart
    exact ⟨⟨hseparate, hends, hstart⟩, hgraph⟩
  · rintro ⟨⟨hseparate, hends, hstart⟩, rfl⟩
    have hblocks : (o.blocks.forM insertBlock).Yields ∅ () (ofBlocks o.blocks) :=
      yields_insertBlocks.2 ⟨hseparate, rfl⟩
    have hedges : (o.edges.forM insertEdge).Yields (ofBlocks o.blocks) ()
        ((ofBlocks o.blocks).withEdges o.edges) :=
      yields_insertEdges.2 ⟨by rw [hknown]; exact hends, rfl⟩
    have hentry : (o.entry.forM setEntry).Yields ((ofBlocks o.blocks).withEdges o.edges) ()
        o.graph := yields_setEntry?.2 ⟨by rw [hlinked]; exact hstart, hgraph.symm⟩
    exact ⟨(), hblocks.bind (hedges.bind hentry)⟩

end Outlines

theorem Coherent.mem_blockList (hg : g.Coherent) {b : Block} {i : BlockIndex} :
    b ∈ g.blockList ∧ b.index = i ↔ g.blocks.get? i = some b := by
  rw [blockList, OrderedMap.mem_values_iff]
  constructor
  · rintro ⟨⟨j, hj⟩, rfl⟩
    rw [hg.index_eq hj]
    exact hj
  · intro hi
    exact ⟨⟨i, hi⟩, hg.index_eq hi⟩

/-- The homes of a graph follow from its blocks. -/
theorem Coherent.homes_eq (hg : g.Coherent) (hh : h.Coherent) (hblocks : h.blocks = g.blocks) :
    h.homes = g.homes := by
  apply OrderedMap.ext
  intro id
  apply Option.ext
  intro i
  rw [hh.homes_iff, hg.homes_iff, hblocks]

theorem Coherent.map_index (hg : g.Coherent) : g.blockList.map Block.index = g.blocks.keys := by
  rw [blockList, OrderedMap.values, OrderedMap.keys, List.map_map]
  apply List.map_congr_left
  rintro ⟨i, b⟩ hb
  exact hg.index_eq (OrderedMap.mem_entries_iff.1 hb)

theorem Coherent.wellFormed_outline (hg : g.Coherent) : g.outline.WellFormed := by
  have hmem (i : BlockIndex) : i ∈ g.outline.indices ↔ g.Known i := by
    show i ∈ g.blockList.map Block.index ↔ g.Known i
    rw [hg.map_index, OrderedMap.mem_keys_iff]
    rfl
  refine ⟨⟨?_, ?_⟩, fun e he => ?_, fun i hi => (hmem i).2 (hg.entry_known hi)⟩
  · show (g.blockList.map Block.index).Nodup
    rw [hg.map_index]
    exact g.blocks.keys_nodup
  · have hids := hg.quad_ids_nodup
    rw [quads, List.map_flatMap] at hids
    exact hids
  · rw [hmem, hmem]
    exact hg.edges_known he

/-- The graph with other nodes. -/
def withNodes (g : FlowGraph) (nodes : List BlockIndex) : FlowGraph :=
  { g with links := ⟨nodes, g.edges⟩ }

/-- The outline of a graph can be built, and gives the graph back up to its nodes. -/
theorem Coherent.exists_ofOutline (hg : g.Coherent) :
    ∃ nodes, ofOutline g.outline = .ok (g.withNodes nodes) := by
  have hwell := hg.wellFormed_outline
  have hok := ofOutline_eq_ok.2 ⟨hwell, rfl⟩
  have hblocks : g.outline.graph.blocks = g.blocks := by
    apply OrderedMap.ext
    intro i
    apply Option.ext
    intro b
    show (ofBlocks g.blockList).blocks.get? i = some b ↔ _
    exact hwell.blocks.get?_ofBlocks.trans hg.mem_blockList
  have hedges : g.outline.graph.edges = g.edges :=
    (edges_withEdges edges_ofBlocks.1 g.edges).trans (eraseDups_of_nodup hg.edges_nodup)
  have hhomes := hg.homes_eq (built_ofOutline hok).coherent hblocks
  refine ⟨g.outline.graph.links.nodes, hok.trans (congrArg Except.ok ?_)⟩
  unfold withNodes
  rw [← hedges, ← hblocks, ← hhomes]
  rfl

section Nodes

variable (g) (nodes : List BlockIndex)

@[simp] theorem withNodes_blocks : (g.withNodes nodes).blocks = g.blocks := rfl

@[simp] theorem withNodes_edges : (g.withNodes nodes).edges = g.edges := rfl

@[simp] theorem withNodes_entry : (g.withNodes nodes).entry = g.entry := rfl

@[simp] theorem withNodes_outline : (g.withNodes nodes).outline = g.outline := rfl

theorem search_withNodes (o : Outlook) (fuel : Nat) (pending visited : List BlockIndex)
    (found : List Neighbor) : (g.withNodes nodes).search o fuel pending visited found =
      g.search o fuel pending visited found := by
  induction fuel generalizing pending visited found with
  | zero => rfl
  | succ fuel ih =>
    cases pending with
    | nil => rfl
    | cons index pending => simp only [search, withNodes_blocks, ih]

@[simp] theorem withNodes_blockOrder : (g.withNodes nodes).blockOrder = g.blockOrder :=
  blockOrder_congr rfl rfl rfl

theorem withNodes_lookOut (o : Outlook) (i : BlockIndex) :
    (g.withNodes nodes).lookOut o i = g.lookOut o i := search_withNodes g nodes o _ _ _ _

theorem withNodes_entryNeighbors (i : BlockIndex) :
    (g.withNodes nodes).entryNeighbors i = g.entryNeighbors i :=
  withNodes_lookOut g nodes g.backward i

theorem withNodes_exitNeighbors (i : BlockIndex) :
    (g.withNodes nodes).exitNeighbors i = g.exitNeighbors i := withNodes_lookOut g nodes g.forward i

theorem withNodes_locationsOf (b : Block) :
    (g.withNodes nodes).locationsOf b = g.locationsOf b := by
  unfold locationsOf
  rw [withNodes_entryNeighbors, withNodes_exitNeighbors]

@[simp] theorem withNodes_predecessors (id : QuadId) :
    (g.withNodes nodes).predecessors id = g.predecessors id := by
  have hposition : (g.withNodes nodes).position id = g.position id := rfl
  unfold predecessors
  simp only [hposition, withNodes_entryNeighbors]

@[simp] theorem withNodes_successors (id : QuadId) :
    (g.withNodes nodes).successors id = g.successors id := by
  have hposition : (g.withNodes nodes).position id = g.position id := rfl
  unfold successors
  simp only [hposition, withNodes_exitNeighbors]

@[simp] theorem withNodes_locations : (g.withNodes nodes).locations = g.locations := by
  have hall : (g.withNodes nodes).locationsOf = g.locationsOf :=
    funext (withNodes_locationsOf g nodes)
  unfold locations
  rw [withNodes_blocks, withNodes_entry, withNodes_blockOrder, hall]

/-- Erasing goes on as before, whatever the nodes. -/
theorem eraseQuad_withNodes (id : QuadId) :
    eraseQuad id (g.withNodes nodes) = (eraseQuad id g).mapState (·.withNodes nodes) := by
  have hhome : (g.withNodes nodes).home id = g.home id := rfl
  unfold eraseQuad
  rw [Run.look_bind, Run.look_bind, hhome]
  cases g.home id with
  | error e => rfl
  | ok index =>
    simp only [Run.get_bind, Run.put_bind, withNodes_blocks]
    cases (g.blocks.get? index).bind fun b => (b.quad? id).map fun q => (b, q) with
    | none => rfl
    | some found => rfl

end Nodes

end Dataflow.FlowGraph
