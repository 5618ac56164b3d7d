import Dataflow.Proofs.BlockPaths
import Dataflow.Proofs.Coherence
import Dataflow.Proofs.Failing
import Dataflow.Proofs.QuadPaths
import Mathlib.Data.List.Perm.Basic

/-! # One quad and all quads

The neighbors of a quad can be asked for one quad, on every graph, or had for all quads at once,
in the order of the blocks, on a graph that has an entry. The one looks for the place of the quad in
its block, the other goes through the quads of the block, and both come to the same.
-/
namespace Dataflow.FlowGraph

variable {g : FlowGraph} {ls : List Location}

theorem map_block_eq {order : List BlockIndex} (h : ∀ i ∈ order, ∃ b, g.block i = .ok b) :
    order.map g.block = (order.filterMap g.blocks.get?).map .ok := by
  induction order with
  | nil => rfl
  | cons i order ih =>
    obtain ⟨⟨b, hb⟩, horder⟩ := List.forall_mem_cons.1 h
    have hget : g.blocks.get? i = some b := by
      unfold block at hb
      split at hb
      · cases hb
        assumption
      · cases hb
    rw [List.map_cons, hb, ih horder, List.filterMap_cons_some hget, List.map_cons]

theorem Coherent.locations_perm (hg : g.Coherent) (h : g.locations = .ok ls) :
    (ls.map Location.quad).Perm g.quads := by
  have hids : ((ls.map Location.quad).map Quad.id).Nodup := by
    rw [List.map_map]
    exact hg.locations_nodup h
  refine (List.perm_ext_iff_of_nodup hids.of_map hg.quad_ids_nodup.of_map).2 fun q => ?_
  rw [List.mem_map]
  constructor
  · rintro ⟨l, hl, rfl⟩
    exact mem_quads_of_location h hl
  · intro hq
    exact exists_location_of_quad h hq

/-- A question that starts from the position of a quad, and has an answer at every place of a block,
is answered for the quads of the graph and for no other identity. -/
theorem Coherent.exists_answer_iff {β : Type} (hg : g.Coherent) {ask : QuadId → Except Error β}
    (hstart : ∀ {id y}, ask id = .ok y → ∃ x, g.position id = .ok x)
    (hat : ∀ {i b pre q rest}, g.blocks.get? i = some b → b.quads = pre ++ q :: rest →
      ∃ y, ask q.id = .ok y) {id : QuadId} :
    (∃ y, ask id = .ok y) ↔ id ∈ g.quads.map Quad.id := by
  constructor
  · rintro ⟨y, hy⟩
    obtain ⟨x, hx⟩ := hstart hy
    obtain ⟨i, hi, _⟩ := bind_eq_ok.1 hx
    exact hg.mem_homes_keys.1 (OrderedMap.mem_keys_iff.2 ⟨i, home_eq_ok.1 hi⟩)
  · intro hid
    obtain ⟨q, hq, rfl⟩ := List.mem_map.1 hid
    obtain ⟨i, b, hb, hq⟩ := mem_quads.1 hq
    obtain ⟨pre, rest, hquads⟩ := List.append_of_mem hq
    exact hat hb hquads

theorem Coherent.exists_predecessors_iff (hg : g.Coherent) {id : QuadId} :
    (∃ ns, g.predecessors id = .ok ns) ↔ id ∈ g.quads.map Quad.id := by
  refine hg.exists_answer_iff (fun h => ?_) fun hb hquads => ⟨_, hg.predecessors_at hb hquads⟩
  obtain ⟨x, hx, _⟩ := bind_eq_ok.1 h
  exact ⟨x, hx⟩

theorem Coherent.exists_successors_iff (hg : g.Coherent) {id : QuadId} :
    (∃ ns, g.successors id = .ok ns) ↔ id ∈ g.quads.map Quad.id := by
  refine hg.exists_answer_iff (fun h => ?_) fun hb hquads => ⟨_, hg.successors_at hb hquads⟩
  obtain ⟨x, hx, _⟩ := bind_eq_ok.1 h
  exact ⟨x, hx⟩

/-- On a graph that has been built, the locations can be had if there is an entry or no block.
They are those of all quads, each once, by the order of the blocks and inside a block by the order
of its quads, and their neighbors are what the graph answers for the quad alone. It answers for
the quads of its blocks and for no other identity, and by the place of the quad. With blocks and
no entry there are no locations. -/
theorem locations_agree_with_queries {g : FlowGraph} (built : g.Built) :
    (g.blockList = [] ∨ g.entry ≠ none → ∃ (ls : List Location) (bs : List Block),
      g.locations = .ok ls ∧ g.blockOrder.map g.block = bs.map .ok ∧
      ls.map Location.quad = bs.flatMap Block.quads ∧
      (ls.map Location.quad).Perm g.quads ∧ (ls.map Location.id).Nodup ∧
      ∀ l ∈ ls, g.predecessors l.id = .ok l.predecessors ∧
        g.successors l.id = .ok l.successors) ∧
    (∀ i b pre q rest, g.blocks.get? i = some b → b.quads = pre ++ q :: rest →
      g.predecessors q.id = .ok (g.predecessorsAt i pre) ∧
        g.successors q.id = .ok (g.successorsAt i rest)) ∧
    (∀ id, ((∃ ns, g.predecessors id = .ok ns) ↔ id ∈ g.quads.map Quad.id) ∧
      ((∃ ns, g.successors id = .ok ns) ↔ id ∈ g.quads.map Quad.id)) ∧
    (g.blockList ≠ [] → g.entry = none →
      ∃ x, g.locations = .error (.graph x) ∧ x.message = "no entry block") := by
  have hg := built.coherent
  refine ⟨fun hentry => ?_, fun i b pre q rest hb hquads => ?_, fun id => ?_, fun hb hentry => ?_⟩
  · obtain ⟨ls, hls⟩ : ∃ ls, g.locations = .ok ls := by
      cases hx : g.locations with
      | ok ls => exact ⟨ls, rfl⟩
      | error x =>
        obtain ⟨hb, hnone⟩ := exists_error_iff.1 ⟨x, hx⟩
        rcases hentry with h | h
        · exact absurd h hb
        · exact absurd hnone h
    exact ⟨ls, _, hls, map_block_eq fun i hi => hg.exists_block_of_order hi,
      locations_map_quad hls, hg.locations_perm hls, hg.locations_nodup hls,
      fun l hl => ⟨hg.predecessors_eq_ok hls hl, hg.successors_eq_ok hls hl⟩⟩
  · exact ⟨hg.predecessors_at hb hquads, hg.successors_at hb hquads⟩
  · exact ⟨hg.exists_predecessors_iff, hg.exists_successors_iff⟩
  · obtain ⟨x, hx⟩ := exists_error_iff.2 ⟨hb, hentry⟩
    obtain ⟨rfl, _⟩ := locations_eq_error hx
    exact ⟨_, hx, rfl⟩

/-- The entry is empty, so the one block that it does not reach comes last, although its quad is
a neighbor of the other. Without the entry single quads are still answered for. -/
theorem ring_locations_agree_with_queries :
    ∃ g k ls ns x, ofOutline ringOutline = .ok g ∧
      ofOutline { ringOutline with entry := none } = .ok k ∧
      g.locations = .ok ls ∧ ls.map Location.quad = [⟨7, .nop⟩, ⟨5, .nop⟩] ∧
      (∀ l ∈ ls, l.id = 7 → g.predecessors 7 = .ok l.predecessors) ∧
      (¬ ∃ ns, g.predecessors 6 = .ok ns) ∧
      k.locations = .error (.graph x) ∧ x.message = "no entry block" ∧
      k.successors 5 = .ok ns := by
  obtain ⟨g, hg, hentry, horder, hids⟩ : ∃ g, ofOutline ringOutline = .ok g ∧
      g.entry = some 1 ∧ g.blockOrder.map g.block =
        [⟨1, []⟩, ⟨2, []⟩, ⟨3, [⟨7, .nop⟩]⟩, ⟨0, [⟨5, .nop⟩]⟩].map .ok ∧
      g.quads.map Quad.id = [5, 7] := ⟨_, rfl, rfl, rfl, rfl⟩
  obtain ⟨k, hk, hblocks, hnone, hkids⟩ : ∃ k,
      ofOutline { ringOutline with entry := none } = .ok k ∧ k.blockList ≠ [] ∧
      k.entry = none ∧ k.quads.map Quad.id = [5, 7] := ⟨_, rfl, by decide +kernel, rfl, rfl⟩
  obtain ⟨hlisted, _, hasked, _⟩ := locations_agree_with_queries (built_ofOutline hg)
  obtain ⟨_, _, hkasked, hrefused⟩ := locations_agree_with_queries (built_ofOutline hk)
  obtain ⟨ls, bs, hls, hbs, hquads, _, _, hsame⟩ := hlisted (.inr (by simp [hentry]))
  obtain ⟨x, hx, hmessage⟩ := hrefused hblocks hnone
  obtain ⟨ns, hns⟩ := (hkasked 5).2.2 (by simp [hkids])
  have hblocks' : bs = [⟨1, []⟩, ⟨2, []⟩, ⟨3, [⟨7, .nop⟩]⟩, ⟨0, [⟨5, .nop⟩]⟩] :=
    List.map_injective_iff.2 (fun _ _ h => Except.ok.inj h) (hbs.symm.trans horder)
  refine ⟨g, k, ls, ns, x, hg, hk, hls, by rw [hquads, hblocks']; rfl, fun l hl hid => ?_, ?_, hx,
    hmessage, hns⟩
  · rw [← hid]
    exact (hsame l hl).1
  · rw [(hasked 6).1, hids]
    decide

end Dataflow.FlowGraph
