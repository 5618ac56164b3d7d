import Dataflow.Proofs.BlockOrder

/-! # Graphs without cycles

Where all blocks are reached from the entry and no edges lead round, the order of the blocks is
topological. So is the order of the locations: what comes right before a quad is listed before it,
whatever empty blocks lie between.
-/
namespace Dataflow

/-- Nothing flows into a location from itself, or from one that is visited later. -/
structure Direction.Onward (d : Direction) (ls : List Location) : Prop where
  apart {l : Location} : l ∈ ls → .quad l.id ∉ d.incoming l
  ahead : (d.arrange ls).Pairwise (fun k l => .quad l.id ∉ d.incoming k)

namespace FlowGraph

/-- An edge leads from the one block to the other, or several do. -/
abbrev LeadsTo (g : FlowGraph) : BlockIndex → BlockIndex → Prop :=
  Relation.TransGen (fun i j => ⟨i, j⟩ ∈ g.edges)

/-- Every block is reached from the entry, and no block leads back to itself. -/
structure OneWay (g : FlowGraph) : Prop where
  reached {i : BlockIndex} {b : Block} : g.blocks.get? i = some b →
    ∃ e, g.entry = some e ∧ g.Reaches e i
  acyclic (i : BlockIndex) : ¬ g.LeadsTo i i

variable {g : FlowGraph} {ls : List Location} {i j u v : BlockIndex} {b : Block}

theorem OneWay.exists_locations (h : g.OneWay) : ∃ ls, g.locations = .ok ls := by
  rw [exists_locations_iff]
  cases hentry : g.entry with
  | some e => exact .inr (Option.some_ne_none e)
  | none =>
    refine .inl fun i => ?_
    by_contra hknown
    obtain ⟨b, hb⟩ := Option.ne_none_iff_exists'.1 hknown
    obtain ⟨e, he, _⟩ := h.reached hb
    cases hentry.symm.trans he

section Order

variable {front back : List BlockIndex} (hg : g.Coherent) (h : g.OneWay)
  (hsplit : g.blockOrder = front ++ u :: back)

include hg h hsplit

theorem OneWay.mem_back_of_edge (hedge : ⟨u, v⟩ ∈ g.edges) : v ∈ back := by
  obtain ⟨b, hb⟩ := (hg.edges_known hedge).1
  obtain ⟨e, hentry, hu⟩ := h.reached hb
  obtain ⟨front', back', hsplit', hv | hback⟩ := hg.edge_in_order hentry hu hedge
  · have hnodup := g.blockOrder_nodup
    rw [hsplit'] at hnodup hsplit
    obtain ⟨_, rfl⟩ := split_unique_of_nodup hnodup hsplit
    exact hv
  · exact absurd (.head' hedge hback) (h.acyclic u)

/-- Whatever a block leads to comes after it. -/
theorem OneWay.mem_back_of_leadsTo (hpath : g.LeadsTo u v) : v ∈ back := by
  induction hpath with
  | single hedge => exact h.mem_back_of_edge hg hsplit hedge
  | @tail w v _ hedge ih =>
    obtain ⟨middle, last, rfl⟩ := List.append_of_mem ih
    have hlater : g.blockOrder = (front ++ u :: middle) ++ w :: last := by
      rw [hsplit, List.append_assoc, List.cons_append]
    have hv := h.mem_back_of_edge hg hlater hedge
    exact List.mem_append_right middle (List.mem_cons_of_mem w hv)

end Order

theorem OneWay.blockOrder_pairwise (hg : g.Coherent) (h : g.OneWay) :
    g.blockOrder.Pairwise (fun u v => ¬ g.LeadsTo v u) := by
  refine List.pairwise_iff_forall_sublist.2 fun {u v} hpair hpath => ?_
  obtain ⟨front, back, hsplit, hu⟩ := pair_sublist_iff.1 hpair
  have hback := h.mem_back_of_leadsTo hg hsplit hpath
  have hnodup := g.blockOrder_nodup
  rw [hsplit] at hnodup
  exact (List.nodup_append.1 hnodup).2.2 u hu u (List.mem_cons_of_mem v hback) rfl

theorem Glide.eq_or_leadsTo {x y : Point} (h : g.Glide x y) :
    x = y ∨ g.LeadsTo x.block y.block := by
  induction h with
  | refl => exact .inl rfl
  | tail _ hhop ih =>
    rcases ih with rfl | hpath
    · exact .inr (.single hhop.2.1)
    · exact .inr (hpath.tail hhop.2.1)

variable {k l : Location} {rest tail : List Quad}

/-- What comes right before a quad stands there in the same block, or in a block that leads to the
block of the quad. -/
theorem Coherent.leadsTo_of_predecessor (hg : g.Coherent) (hl : g.Located l j tail)
    (hk : g.Located k i rest) (hid : .quad l.id ∈ k.predecessors) :
    (j = i ∧ tail = k.quad :: rest) ∨ g.LeadsTo j i := by
  obtain ⟨⟨block, behind⟩, ⟨q, hq, hx⟩, hglide⟩ := (hk.quad_predecessors l.id).1 hid
  obtain ⟨rfl, _, rfl⟩ := hg.point_unique hx hl.within hq
  rcases hglide.eq_or_leadsTo with heq | hpath
  · cases heq
    exact .inl ⟨rfl, rfl⟩
  · exact .inr hpath

theorem OneWay.not_own_predecessor (hg : g.Coherent) (h : g.OneWay) (hls : g.locations = .ok ls)
    (hl : l ∈ ls) : .quad l.id ∉ l.predecessors := by
  intro hid
  obtain ⟨i, rest, hat⟩ := hg.exists_located hls hl
  rcases hg.leadsTo_of_predecessor hat hat hid with ⟨_, hrest⟩ | hpath
  · exact List.cons_ne_self l.quad rest hrest.symm
  · exact h.acyclic i hpath

theorem OneWay.locationsOf_pairwise (hg : g.Coherent) (h : g.OneWay)
    (hb : g.blocks.get? i = some b) :
    (g.locationsOf b).Pairwise (fun k l => .quad l.id ∉ k.predecessors) := by
  refine List.pairwise_iff_forall_sublist.2 fun {k l} hpair hid => ?_
  obtain ⟨rest, hkat⟩ := hg.located_of_mem hb (hpair.subset (by simp) : k ∈ _)
  obtain ⟨tail, hlat⟩ := hg.located_of_mem hb (hpair.subset (by simp) : l ∈ _)
  rcases hg.leadsTo_of_predecessor hlat hkat hid with ⟨_, rfl⟩ | hpath
  · -- `l` stands right before `k` in the block, so it is not listed after it
    have hquads : [k.quad, l.quad].Sublist b.quads := by
      have hmap := hpair.map Location.quad
      rwa [locationsOf, locate_map_quad] at hmap
    obtain ⟨pre, hpre⟩ : l.quad :: k.quad :: rest <:+ b.quads := by
      rw [← quadsAt_eq hb]
      exact hlat.within
    have hnodup : b.quads.Nodup := (hg.ids_nodup hb).of_map
    rw [← hpre] at hquads hnodup
    exact not_pair_sublist_of_nodup hnodup List.mem_cons_self hquads
  · exact h.acyclic i hpath

theorem OneWay.locations_pairwise (hg : g.Coherent) (h : g.OneWay) (hls : g.locations = .ok ls) :
    ls.Pairwise (fun k l => .quad l.id ∉ k.predecessors) := by
  rw [locations_eq_ok hls]
  refine List.pairwise_flatMap.2 ⟨fun b hb => ?_, List.pairwise_filterMap.2 ?_⟩
  · obtain ⟨i, _, hi⟩ := List.mem_filterMap.1 hb
    exact h.locationsOf_pairwise hg hi
  · refine ((h.blockOrder_pairwise hg).and g.blockOrder_nodup).imp ?_
    rintro i j ⟨hpath, hne⟩ b hb c hc k hk l hl hid
    obtain ⟨rest, hkat⟩ := hg.located_of_mem hb hk
    obtain ⟨tail, hlat⟩ := hg.located_of_mem hc hl
    rcases hg.leadsTo_of_predecessor hlat hkat hid with ⟨heq, _⟩ | hback
    · exact hne heq.symm
    · exact hpath hback

/-- Forward along the order and backward against it. -/
theorem OneWay.onward (hg : g.Coherent) (h : g.OneWay) (hls : g.locations = .ok ls)
    (d : Direction) : d.Onward ls := by
  have hpairwise := h.locations_pairwise hg hls
  cases d with
  | forward => exact ⟨h.not_own_predecessor hg hls, hpairwise⟩
  | backward =>
    have hmutual : ∀ {k l}, k ∈ ls → l ∈ ls → .quad k.id ∈ l.successors →
        .quad l.id ∈ k.predecessors := by
      intro k l hk hl hid
      obtain ⟨m, hm, hmid, hpre⟩ := hg.predecessor_of_successor hls hl hid
      rwa [hg.location_unique hls hm hk hmid] at hpre
    refine ⟨fun hl hid => h.not_own_predecessor hg hls hl (hmutual hl hl hid), ?_⟩
    refine List.pairwise_reverse.2 (hpairwise.imp_of_mem fun hk hl hnot hid => ?_)
    exact hnot (hmutual hk hl hid)

end FlowGraph

end Dataflow
