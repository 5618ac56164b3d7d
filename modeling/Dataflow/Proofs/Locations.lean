import Dataflow.Proofs.Points
import Dataflow.Routine
import Mathlib.Data.List.Nodup

/-! # The locations of a graph

Every quad has exactly one location, and a location stands for a point of the graph.
-/
namespace Dataflow.FlowGraph

theorem locate_map_quad (last : List Neighbor) :
    ∀ (first : List Neighbor) (quads : List Quad),
      (locate last first quads).map Location.quad = quads
  | _, [] => rfl
  | _, [_] => rfl
  | _, q :: r :: quads => by rw [locate, List.map_cons, locate_map_quad]

/-- The location of each quad of a list tells what stands beside it. -/
theorem mem_locate {last : List Neighbor} {l : Location} {first : List Neighbor}
    {quads : List Quad} (h : l ∈ locate last first quads) :
    ∃ pre rest, quads = pre ++ l.quad :: rest ∧
      l.predecessors = (match pre.getLast? with
        | some p => [.quad p.id]
        | none => first) ∧
      l.successors = match rest.head? with
        | some s => [.quad s.id]
        | none => last := by
  fun_induction locate last first quads with
  | case1 => exact absurd h List.not_mem_nil
  | case2 first q =>
    cases List.mem_singleton.1 h
    exact ⟨[], [], rfl, rfl, rfl⟩
  | case3 first q r quads ih =>
    rcases List.mem_cons.1 h with rfl | h
    · exact ⟨[], r :: quads, rfl, rfl, rfl⟩
    · obtain ⟨pre, rest, hquads, hpre, hsucc⟩ := ih h
      refine ⟨q :: pre, rest, by rw [hquads]; rfl, ?_, hsucc⟩
      rw [hpre]
      cases hlast : pre.getLast? with
      | none =>
        rw [List.getLast?_eq_none_iff.1 hlast]
        rfl
      | some p =>
        obtain ⟨init, rfl⟩ := List.getLast?_eq_some_iff.1 hlast
        have hcons : (q :: (init ++ [p])).getLast? = some p := by
          rw [← List.cons_append, List.getLast?_concat]
        rw [hcons]

theorem quadsAt_eq {g : FlowGraph} {i : BlockIndex} {b : Block} (h : g.blocks.get? i = some b) :
    g.quadsAt i = b.quads := by
  unfold quadsAt
  rw [h]

theorem exists_block_of_within {g : FlowGraph} {i : BlockIndex} {q : Quad} {rest : List Quad}
    (h : g.Within ⟨i, q :: rest⟩) : ∃ b, g.blocks.get? i = some b := by
  cases hb : g.blocks.get? i with
  | some b => exact ⟨b, rfl⟩
  | none =>
    unfold Within quadsAt at h
    simp only [hb] at h
    exact absurd (List.suffix_nil.1 h) (List.cons_ne_nil q rest)

theorem Coherent.located_of_mem {g : FlowGraph} (hg : g.Coherent) {i : BlockIndex} {b : Block}
    (hb : g.blocks.get? i = some b) {l : Location} (hl : l ∈ g.locationsOf b) :
    ∃ rest, g.Located l i rest := by
  obtain ⟨pre, rest, hquads, hpre, hsucc⟩ := mem_locate hl
  rw [hg.index_eq hb] at hpre hsucc
  exact ⟨rest, located (by rw [quadsAt_eq hb, hquads]) hpre hsucc⟩

/-- A quad of one identity stands at one point only. -/
theorem Coherent.point_unique {g : FlowGraph} (hg : g.Coherent) {i j : BlockIndex} {q r : Quad}
    {rest tail : List Quad} (hq : g.Within ⟨i, q :: rest⟩) (hr : g.Within ⟨j, r :: tail⟩)
    (hid : q.id = r.id) : i = j ∧ q = r ∧ rest = tail := by
  obtain ⟨b, hb⟩ := exists_block_of_within hq
  obtain ⟨c, hc⟩ := exists_block_of_within hr
  obtain ⟨pre, hpre⟩ : q :: rest <:+ b.quads := by rw [← quadsAt_eq hb]; exact hq
  obtain ⟨init, hinit⟩ : r :: tail <:+ c.quads := by rw [← quadsAt_eq hc]; exact hr
  have hqb : q ∈ b.quads := hpre ▸ List.mem_append_right pre List.mem_cons_self
  have hrc : r ∈ c.quads := hinit ▸ List.mem_append_right init List.mem_cons_self
  have hhome := hg.homes_iff.2 ⟨b, hb, List.mem_map.2 ⟨q, hqb, rfl⟩⟩
  rw [hid, hg.homes_iff.2 ⟨c, hc, List.mem_map.2 ⟨r, hrc, rfl⟩⟩] at hhome
  cases hhome
  rw [hb] at hc
  cases hc
  -- the identities are distinct, so the parts before the two quads have the same length
  have hi : b.ids[pre.length]? = some q.id := by
    rw [Block.ids, ← hpre]
    simp
  have hj : b.ids[init.length]? = some q.id := by
    rw [Block.ids, ← hinit, hid]
    simp
  have hlen : pre.length = init.length :=
    (List.getElem?_inj (List.getElem?_eq_some_iff.1 hi).1 (hg.ids_nodup hb)).1 (hi.trans hj.symm)
  obtain ⟨_, heq⟩ := List.append_inj (hpre.trans hinit.symm) hlen
  exact ⟨rfl, (List.cons.inj heq).1, (List.cons.inj heq).2⟩

/-- The walk looks at nothing but the edges. -/
theorem walk_congr {g h : FlowGraph} (hedges : h.edges = g.edges) (fuel : Nat)
    (stack discovered finished : List BlockIndex) :
    h.walk fuel stack discovered finished = g.walk fuel stack discovered finished := by
  have hafter : h.after = g.after := by
    funext i
    rw [after, after, hedges]
  induction fuel generalizing stack discovered finished with
  | zero => rfl
  | succ fuel ih =>
    cases stack with
    | nil => rfl
    | cons top stack => simp only [walk, hafter, ih]

theorem blockOrder_congr {g h : FlowGraph} (hkeys : h.blocks.keys = g.blocks.keys)
    (hedges : h.edges = g.edges) (hentry : h.entry = g.entry) : h.blockOrder = g.blockOrder := by
  have hcount : ∀ k : FlowGraph, k.blockList.length = k.blocks.keys.length := by
    intro k
    simp only [blockList, OrderedMap.values, OrderedMap.keys, List.length_map]
  have hreached : h.reached = g.reached := by
    unfold reached
    rw [hentry]
    cases g.entry with
    | none => rfl
    | some index =>
      rw [walkFuel, walkFuel, hcount, hcount, hkeys, hedges]
      exact walk_congr hedges _ _ _ _
  rw [blockOrder, blockOrder, hreached, hkeys]

theorem walk_nodup {g : FlowGraph} (fuel : Nat) {stack discovered finished : List BlockIndex}
    (h : finished.Nodup) : (g.walk fuel stack discovered finished).Nodup := by
  induction fuel generalizing stack discovered finished with
  | zero => exact h
  | succ fuel ih =>
    cases stack with
    | nil => exact h
    | cons top stack =>
      rw [walk]
      split
      · apply ih
        split
        · exact h
        · rename_i hnew
          exact List.nodup_cons.2 ⟨fun hm => hnew (List.contains_iff_mem.2 hm), h⟩
      · exact ih h

theorem reached_nodup (g : FlowGraph) : g.reached.Nodup := by
  unfold reached
  cases g.entry with
  | none => exact List.nodup_nil
  | some i => exact walk_nodup _ List.nodup_nil

theorem blockOrder_nodup (g : FlowGraph) : g.blockOrder.Nodup := by
  refine List.nodup_append.2 ⟨g.reached_nodup, g.blocks.keys_nodup.filter _, ?_⟩
  rintro i hi _ hj rfl
  have hnot := (List.mem_filter.1 hj).2
  rw [List.contains_iff_mem.2 hi] at hnot
  cases hnot

theorem mem_blockOrder {g : FlowGraph} {i : BlockIndex} {b : Block}
    (h : g.blocks.get? i = some b) : i ∈ g.blockOrder := by
  by_cases hi : i ∈ g.reached
  · exact List.mem_append_left _ hi
  · refine List.mem_append_right _ (List.mem_filter.2 ⟨OrderedMap.mem_keys_iff.2 ⟨b, h⟩, ?_⟩)
    have hnot : g.reached.contains i = false := by simpa using hi
    rw [hnot]
    rfl

theorem locations_eq_ok {g : FlowGraph} {ls : List Location} (h : g.locations = .ok ls) :
    ls = (g.blockOrder.filterMap g.blocks.get?).flatMap g.locationsOf := by
  unfold locations at h
  split at h
  · rename_i hempty
    have hnone : ∀ i, g.blocks.get? i = none := by
      intro i
      cases hb : g.blocks.get? i with
      | none => rfl
      | some b =>
        have hm := OrderedMap.mem_entries_iff.2 hb
        rw [List.isEmpty_iff.1 hempty] at hm
        exact absurd hm List.not_mem_nil
    cases h
    rw [List.filterMap_eq_nil_iff.2 fun i _ => hnone i]
    rfl
  · split at h
    · cases h
    · cases h
      rfl

/-- A graph has locations if it has no block at all or has an entry. -/
theorem exists_locations_iff {g : FlowGraph} :
    (∃ ls, g.locations = .ok ls) ↔ (∀ i, g.blocks.get? i = none) ∨ g.entry ≠ none := by
  unfold locations
  by_cases hempty : g.blocks.isEmpty = true
  · have hnone := OrderedMap.isEmpty_iff.1 hempty
    simp [hempty, hnone]
  · have hnone : ¬ ∀ i, g.blocks.get? i = none := fun h => hempty (OrderedMap.isEmpty_iff.2 h)
    rw [if_neg hempty]
    cases hentry : g.entry with
    | none => simp [hnone]
    | some i => simp

theorem exists_locations_of_entry {g : FlowGraph} {e : BlockIndex} (h : g.entry = some e) :
    ∃ ls, g.locations = .ok ls :=
  exists_locations_iff.2 (.inr (by rw [h]; exact Option.some_ne_none e))

theorem locations_eq_error {g : FlowGraph} {x : Error} (h : g.locations = .error x) :
    x = .graph .noEntry ∧ g.entry = none := by
  unfold locations at h
  split at h
  · cases h
  · split at h
    · rename_i hentry
      cases h
      exact ⟨rfl, Option.isNone_iff_eq_none.1 hentry⟩
    · cases h

theorem mem_locations {g : FlowGraph} {ls : List Location} (h : g.locations = .ok ls)
    {l : Location} : l ∈ ls ↔ ∃ i b, g.blocks.get? i = some b ∧ l ∈ g.locationsOf b := by
  rw [locations_eq_ok h, List.mem_flatMap]
  constructor
  · rintro ⟨b, hb, hl⟩
    obtain ⟨i, _, hi⟩ := List.mem_filterMap.1 hb
    exact ⟨i, b, hi, hl⟩
  · rintro ⟨i, b, hb, hl⟩
    exact ⟨b, List.mem_filterMap.2 ⟨i, mem_blockOrder hb, hb⟩, hl⟩

/-- Each location stands at a point. -/
theorem Coherent.exists_located {g : FlowGraph} (hg : g.Coherent) {ls : List Location}
    (h : g.locations = .ok ls) {l : Location} (hl : l ∈ ls) : ∃ i rest, g.Located l i rest := by
  obtain ⟨i, b, hb, hm⟩ := (mem_locations h).1 hl
  obtain ⟨rest, hrest⟩ := hg.located_of_mem hb hm
  exact ⟨i, rest, hrest⟩

theorem exists_location_of_mem {g : FlowGraph} {ls : List Location} (h : g.locations = .ok ls)
    {i : BlockIndex} {b : Block} (hb : g.blocks.get? i = some b) {q : Quad} (hq : q ∈ b.quads) :
    ∃ l ∈ ls, l.quad = q := by
  have hm : q ∈ (g.locationsOf b).map Location.quad := by
    unfold locationsOf
    rw [locate_map_quad]
    exact hq
  obtain ⟨l, hl, rfl⟩ := List.mem_map.1 hm
  exact ⟨l, (mem_locations h).2 ⟨i, b, hb, hl⟩, rfl⟩

/-- Each point before a quad has its location. -/
theorem Coherent.exists_location {g : FlowGraph} (hg : g.Coherent) {ls : List Location}
    (h : g.locations = .ok ls) {i : BlockIndex} {q : Quad} {rest : List Quad}
    (hq : g.Within ⟨i, q :: rest⟩) : ∃ l ∈ ls, l.quad = q ∧ g.Located l i rest := by
  obtain ⟨b, hb⟩ := exists_block_of_within hq
  have hm : q ∈ b.quads := by
    rw [← quadsAt_eq hb]
    exact hq.subset List.mem_cons_self
  obtain ⟨l, hl, rfl⟩ := exists_location_of_mem h hb hm
  obtain ⟨j, tail, hj⟩ := hg.exists_located h hl
  obtain ⟨rfl, _, rfl⟩ := hg.point_unique hq hj.within rfl
  exact ⟨l, hl, rfl, hj⟩

theorem locations_map_quad {g : FlowGraph} {ls : List Location} (h : g.locations = .ok ls) :
    ls.map Location.quad = (g.blockOrder.filterMap g.blocks.get?).flatMap Block.quads := by
  rw [locations_eq_ok h, List.map_flatMap]
  congr 1
  funext b
  exact locate_map_quad _ _ _

/-- No two locations share their identity. -/
theorem Coherent.locations_nodup {g : FlowGraph} (hg : g.Coherent) {ls : List Location}
    (h : g.locations = .ok ls) : (ls.map Location.id).Nodup := by
  have hids : ls.map Location.id =
      (g.blockOrder.filterMap g.blocks.get?).flatMap Block.ids := by
    have hmap : ls.map Location.id = (ls.map Location.quad).map Quad.id := by
      rw [List.map_map]
      rfl
    rw [hmap, locations_map_quad h, List.map_flatMap]
    rfl
  rw [hids]
  refine List.nodup_flatMap.2 ⟨fun b hb => ?_, ?_⟩
  · obtain ⟨i, _, hi⟩ := List.mem_filterMap.1 hb
    exact hg.ids_nodup hi
  · refine List.pairwise_filterMap.2 (g.blockOrder_nodup.imp ?_)
    intro i j hij b hb c hc id hid hid'
    have hi := hg.homes_iff.2 ⟨b, hb, hid⟩
    rw [hg.homes_iff.2 ⟨c, hc, hid'⟩] at hi
    exact hij (Option.some.inj hi).symm

theorem Coherent.location_unique {g : FlowGraph} (hg : g.Coherent) {ls : List Location}
    (h : g.locations = .ok ls) {l k : Location} (hl : l ∈ ls) (hk : k ∈ ls) (hid : l.id = k.id) :
    l = k := List.inj_on_of_nodup_map (hg.locations_nodup h) hl hk hid

section Positions

variable {g : FlowGraph} {i : BlockIndex} {b : Block} {pre rest : List Quad} {q : Quad}

/-- A quad stands behind those of its block that come before it. -/
theorem Coherent.position_eq_ok (hg : g.Coherent) (hb : g.blocks.get? i = some b)
    (hquads : b.quads = pre ++ q :: rest) :
    ∃ h, g.position q.id = .ok ⟨i, b, pre.length, h⟩ := by
  have hlen : pre.length < b.quads.length := by simp [hquads]
  have hat : b.quads[pre.length] = q := by simp [hquads]
  have hhome : g.homes.get? q.id = some i :=
    hg.homes_iff.2 ⟨b, hb, List.mem_map.2 ⟨q, hat ▸ List.getElem_mem hlen, rfl⟩⟩
  have hfind : b.quads.findFinIdx? (fun r => r.id == q.id) = some ⟨pre.length, hlen⟩ := by
    refine List.findFinIdx?_eq_some_iff.2 ⟨by simp [hat], fun j hj hid => ?_⟩
    -- an earlier quad has another identity
    have hids : b.ids[j.val]? = b.ids[pre.length]? := by
      simpa [Block.ids, List.getElem?_eq_getElem hlen, hat] using hid
    have heq := (List.getElem?_inj (by simp [Block.ids]) (hg.ids_nodup hb)).1 hids
    exact absurd heq (Nat.ne_of_lt hj)
  refine ⟨hlen, bind_eq_ok.2 ⟨i, home_eq_ok.2 hhome, bind_eq_ok.2 ⟨b, block_eq_ok.2 hb, ?_⟩⟩⟩
  simp only [hfind]
  rfl

theorem Coherent.predecessors_at (hg : g.Coherent) (hb : g.blocks.get? i = some b)
    (hquads : b.quads = pre ++ q :: rest) : g.predecessors q.id = .ok (g.predecessorsAt i pre) := by
  obtain ⟨hlen, hposition⟩ := hg.position_eq_ok hb hquads
  refine bind_eq_ok.2 ⟨_, hposition, ?_⟩
  rcases List.eq_nil_or_concat pre with rfl | ⟨init, p, rfl⟩
  · rfl
  · simp [predecessorsAt, hquads, pure, Except.pure]

theorem Coherent.successors_at (hg : g.Coherent) (hb : g.blocks.get? i = some b)
    (hquads : b.quads = pre ++ q :: rest) : g.successors q.id = .ok (g.successorsAt i rest) := by
  obtain ⟨hlen, hposition⟩ := hg.position_eq_ok hb hquads
  refine bind_eq_ok.2 ⟨_, hposition, ?_⟩
  cases rest with
  | nil => simp [successorsAt, hquads, pure, Except.pure]
  | cons r rest => simp [successorsAt, hquads, pure, Except.pure]

/-- What the listing has for a quad is what the graph answers for its identity. -/
theorem Coherent.predecessors_eq_ok (hg : g.Coherent) {ls : List Location}
    (h : g.locations = .ok ls) {l : Location} (hl : l ∈ ls) :
    g.predecessors l.id = .ok l.predecessors := by
  obtain ⟨i, b, hb, hm⟩ := (mem_locations h).1 hl
  obtain ⟨pre, rest, hquads, hpre, _⟩ := mem_locate hm
  rw [hg.index_eq hb] at hpre
  rw [hpre]
  exact hg.predecessors_at hb hquads

theorem Coherent.successors_eq_ok (hg : g.Coherent) {ls : List Location}
    (h : g.locations = .ok ls) {l : Location} (hl : l ∈ ls) :
    g.successors l.id = .ok l.successors := by
  obtain ⟨i, b, hb, hm⟩ := (mem_locations h).1 hl
  obtain ⟨pre, rest, hquads, _, hsucc⟩ := mem_locate hm
  rw [hg.index_eq hb] at hsucc
  rw [hsucc]
  exact hg.successors_at hb hquads

end Positions

/-- Whatever comes right before a quad has the quad right after it. -/
theorem Coherent.successor_of_predecessor {g : FlowGraph} (hg : g.Coherent) {ls : List Location}
    (h : g.locations = .ok ls) {l : Location} (hl : l ∈ ls) {id : QuadId}
    (hid : .quad id ∈ l.predecessors) : ∃ k ∈ ls, k.id = id ∧ .quad l.id ∈ k.successors := by
  obtain ⟨i, rest, hat⟩ := hg.exists_located h hl
  obtain ⟨x, ⟨q, rfl, hq⟩, hglide⟩ := (hat.quad_predecessors id).1 hid
  obtain ⟨k, hk, rfl, hkat⟩ := hg.exists_location h hq
  exact ⟨k, hk, rfl, (hkat.quad_successors l.id).2
    ⟨_, ⟨l.quad, rest, rfl, rfl, hat.within⟩, hglide⟩⟩

theorem Coherent.predecessor_of_successor {g : FlowGraph} (hg : g.Coherent) {ls : List Location}
    (h : g.locations = .ok ls) {l : Location} (hl : l ∈ ls) {id : QuadId}
    (hid : .quad id ∈ l.successors) : ∃ k ∈ ls, k.id = id ∧ .quad l.id ∈ k.predecessors := by
  obtain ⟨i, rest, hat⟩ := hg.exists_located h hl
  obtain ⟨y, ⟨q, tail, rfl, hy, hq⟩, hglide⟩ := (hat.quad_successors id).1 hid
  obtain ⟨j, _⟩ := y
  cases hy
  obtain ⟨k, hk, rfl, hkat⟩ := hg.exists_location h hq
  exact ⟨k, hk, rfl, (hkat.quad_predecessors l.id).2
    ⟨⟨i, rest⟩, ⟨l.quad, rfl, hat.within⟩, hglide⟩⟩

end Dataflow.FlowGraph
