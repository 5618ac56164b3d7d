import Dataflow.Proofs.Failing

/-! # The order of the blocks

The walk from the entry keeps every block that it has discovered and not finished on its stack,
below whatever it still has to look at on behalf of that block. So when a block is finished, what
comes after it has been finished before or is a block that the walk is still inside of, and such
a block leads back to it. Read from the last block finished to the first, this is a reverse post
order.
-/
namespace Dataflow.FlowGraph

abbrev Reaches (g : FlowGraph) : BlockIndex → BlockIndex → Prop :=
  Relation.ReflTransGen fun i j => ⟨i, j⟩ ∈ g.edges

/-- What stands above the uppermost `i` of a stack. -/
def above (stack : List BlockIndex) (i : BlockIndex) : List BlockIndex :=
  stack.takeWhile (fun j => j != i)

section Above

variable {stack fresh : List BlockIndex} {i top : BlockIndex}

@[simp] theorem above_cons_self : above (i :: stack) i = [] := by simp [above]

theorem above_cons_of_ne (h : i ≠ top) : above (top :: stack) i = top :: above stack i := by
  simp [above, h.symm]

theorem above_append (h : i ∉ fresh) : above (fresh ++ stack) i = fresh ++ above stack i := by
  refine List.takeWhile_append_of_pos fun j hj => ?_
  have hne : j ≠ i := fun heq => h (heq ▸ hj)
  simpa using hne

end Above

/-- What holds at every moment of the walk from `e`. -/
structure Walks (g : FlowGraph) (e : BlockIndex) (stack discovered finished : List BlockIndex) :
    Prop where
  reaches {i : BlockIndex} : i ∈ stack ∨ i ∈ discovered → g.Reaches e i
  discovered_of_finished {i : BlockIndex} : i ∈ finished → i ∈ discovered
  mem_stack {i : BlockIndex} : i ∈ discovered → i ∉ finished → i ∈ stack
  /-- A block that the walk is inside of leads to all that stands above it, and what comes after
  it has been discovered or stands there. -/
  inside {i : BlockIndex} : i ∈ discovered → i ∉ finished →
    (∀ j ∈ above stack i, g.Reaches i j) ∧ ∀ j ∈ g.after i, j ∈ discovered ∨ j ∈ above stack i
  /-- What comes after a finished block was finished earlier or leads back to it. -/
  back {i : BlockIndex} {later earlier : List BlockIndex} : finished = later ++ i :: earlier →
    ∀ j ∈ g.after i, j ∈ discovered ∧ (j ∈ earlier ∨ g.Reaches j i)
  /-- The walk starts with `e` alone and finishes it last. -/
  bottom : (stack = [] ∧ finished.head? = some e) ∨
    ∃ others, stack = others ++ [e] ∧ e ∉ others ∧ e ∉ finished ∧ (others = [] ∨ e ∈ discovered)

namespace Walks

variable {g : FlowGraph} {e i top : BlockIndex} {stack discovered finished : List BlockIndex}

theorem start (g : FlowGraph) (e : BlockIndex) : g.Walks e [e] [] [] where
  reaches hi := by
    rcases hi with hi | hi
    · cases List.mem_singleton.1 hi
      exact .refl
    · exact absurd hi List.not_mem_nil
  discovered_of_finished hi := absurd hi List.not_mem_nil
  mem_stack hi := absurd hi List.not_mem_nil
  inside hi := absurd hi List.not_mem_nil
  back h := absurd h.symm (List.append_ne_nil_of_right_ne_nil _ (List.cons_ne_nil _ _))
  bottom := .inr ⟨[], rfl, List.not_mem_nil, List.not_mem_nil, .inl rfl⟩

/-- A block that is about to be finished stands on top of all that the walk is inside of. -/
theorem back_of_top (h : g.Walks e (top :: stack) discovered finished) (htop : top ∈ discovered)
    (hnew : top ∉ finished) {j : BlockIndex} (hj : j ∈ g.after top) :
    j ∈ discovered ∧ (j ∈ finished ∨ g.Reaches j top) := by
  have hdisc : j ∈ discovered := by simpa using (h.inside htop hnew).2 j hj
  refine ⟨hdisc, ?_⟩
  by_cases hfin : j ∈ finished
  · exact .inl hfin
  · by_cases heq : j = top
    · exact .inr (heq ▸ .refl)
    · refine .inr ((h.inside hdisc hfin).1 top ?_)
      rw [above_cons_of_ne heq]
      exact List.mem_cons_self

/-- A block met again is popped, and finished the first time. -/
theorem pop (h : g.Walks e (top :: stack) discovered finished) (htop : top ∈ discovered) :
    g.Walks e stack discovered (if finished.contains top then finished else top :: finished) := by
  generalize hdone : (if finished.contains top then finished else top :: finished) = done
  have hmem : ∀ i, i ∈ done ↔ i = top ∨ i ∈ finished := by
    intro i
    rw [← hdone]
    split
    · rename_i hold
      exact ⟨.inr, fun hi => hi.elim (fun heq => heq ▸ List.contains_iff_mem.1 hold) fun hi => hi⟩
    · exact List.mem_cons
  refine ⟨fun hi => ?_, fun hi => ?_, fun hi hnot => ?_, fun hi hnot => ?_, fun hsplit j hj => ?_,
    ?_⟩
  · exact h.reaches (hi.imp_left (List.mem_cons_of_mem top))
  · rcases (hmem _).1 hi with rfl | hi
    · exact htop
    · exact h.discovered_of_finished hi
  · rw [hmem, not_or] at hnot
    exact (List.mem_cons.1 (h.mem_stack hi hnot.2)).resolve_left hnot.1
  · rw [hmem, not_or] at hnot
    obtain ⟨hreaches, hafter⟩ := h.inside hi hnot.2
    rw [above_cons_of_ne hnot.1] at hreaches hafter
    refine ⟨fun j hj => hreaches j (List.mem_cons_of_mem top hj), fun j hj => ?_⟩
    rcases hafter j hj with hdisc | habove
    · exact .inl hdisc
    · rcases List.mem_cons.1 habove with rfl | habove
      · exact .inl htop
      · exact .inr habove
  · rw [← hdone] at hsplit
    split at hsplit
    · exact h.back hsplit j hj
    · rename_i hnew
      rcases List.cons_eq_append_iff.1 hsplit with ⟨rfl, htail⟩ | ⟨later, rfl, htail⟩
      · cases htail
        exact h.back_of_top htop (fun hm => hnew (List.contains_iff_mem.2 hm)) hj
      · exact h.back htail j hj
  · rcases h.bottom with ⟨hnil, _⟩ | ⟨others, hstack, hnot, hfin, hentry⟩
    · cases hnil
    · rcases List.cons_eq_append_iff.1 hstack with ⟨rfl, hlast⟩ | ⟨others, rfl, hrest⟩
      · cases hlast
        refine .inl ⟨rfl, ?_⟩
        rw [← hdone, if_neg fun hm => hfin (List.contains_iff_mem.1 hm)]
        rfl
      · rw [List.mem_cons, not_or] at hnot
        refine .inr ⟨others, hrest, hnot.2, ?_, .inr (hentry.resolve_left (List.cons_ne_nil _ _))⟩
        rw [hmem, not_or]
        exact ⟨hnot.1, hfin⟩

/-- A new block stays, and what comes after it and is new goes on top. -/
theorem discover (h : g.Walks e (top :: stack) discovered finished) :
    g.Walks e (((g.after top).filter (fun i => !(top :: discovered).contains i)).reverse ++
      top :: stack) (top :: discovered) finished := by
  generalize hfresh :
    ((g.after top).filter (fun i => !(top :: discovered).contains i)).reverse = fresh
  have hmem : ∀ i, i ∈ fresh ↔ i ∈ g.after top ∧ i ∉ top :: discovered := by
    intro i
    rw [← hfresh]
    simp
  have hreach : ∀ i ∈ fresh, g.Reaches top i :=
    fun i hi => .single (mem_after.1 ((hmem i).1 hi).1)
  have hstart : g.Reaches e top := h.reaches (.inl List.mem_cons_self)
  refine ⟨fun hi => ?_, fun hi => List.mem_cons_of_mem top (h.discovered_of_finished hi),
    fun hi hnot => ?_, fun {i} hi hnot => ?_, fun hsplit j hj => ?_, ?_⟩
  · rcases hi with hi | hi
    · rcases List.mem_append.1 hi with hi | hi
      · exact hstart.trans (hreach _ hi)
      · exact h.reaches (.inl hi)
    · rcases List.mem_cons.1 hi with rfl | hi
      · exact hstart
      · exact h.reaches (.inr hi)
  · refine List.mem_append_right fresh ?_
    rcases List.mem_cons.1 hi with rfl | hi
    · exact List.mem_cons_self
    · exact h.mem_stack hi hnot
  · -- only new blocks are put on top, so all that the walk is inside of stays where it is
    rw [above_append fun hm => ((hmem i).1 hm).2 hi]
    by_cases heq : i = top
    · subst heq
      rw [above_cons_self, List.append_nil]
      refine ⟨hreach, fun j hj => ?_⟩
      by_cases hold : j ∈ i :: discovered
      · exact .inl hold
      · exact .inr ((hmem j).2 ⟨hj, hold⟩)
    · obtain ⟨hreaches, hafter⟩ := h.inside ((List.mem_cons.1 hi).resolve_left heq) hnot
      refine ⟨fun j hj => ?_, fun j hj => ?_⟩
      · rcases List.mem_append.1 hj with hj | hj
        · refine (hreaches top ?_).trans (hreach j hj)
          rw [above_cons_of_ne heq]
          exact List.mem_cons_self
        · exact hreaches j hj
      · exact (hafter j hj).imp (List.mem_cons_of_mem top) (List.mem_append_right fresh)
  · obtain ⟨hdisc, hback⟩ := h.back hsplit j hj
    exact ⟨List.mem_cons_of_mem top hdisc, hback⟩
  · rcases h.bottom with ⟨hnil, _⟩ | ⟨others, hstack, hnot, hfin, hentry⟩
    · cases hnil
    · have hdisc : e ∈ top :: discovered := by
        rcases hentry with rfl | hentry
        · cases hstack
          exact List.mem_cons_self
        · exact List.mem_cons_of_mem top hentry
      refine .inr ⟨fresh ++ others, by rw [hstack, List.append_assoc], ?_, hfin, .inr hdisc⟩
      rw [List.mem_append, not_or]
      exact ⟨fun hm => ((hmem e).1 hm).2 hdisc, hnot⟩

theorem head?_finished (h : g.Walks e [] discovered finished) : finished.head? = some e := by
  rcases h.bottom with ⟨_, hhead⟩ | ⟨others, hstack, _⟩
  · exact hhead
  · exact absurd hstack.symm (List.append_ne_nil_of_right_ne_nil _ (List.cons_ne_nil _ _))

theorem mem_finished (h : g.Walks e [] discovered finished) : i ∈ finished ↔ g.Reaches e i := by
  have hall : ∀ {j}, j ∈ discovered → j ∈ finished := by
    intro j hj
    by_contra hnot
    exact List.not_mem_nil (h.mem_stack hj hnot)
  constructor
  · exact fun hi => h.reaches (.inr (h.discovered_of_finished hi))
  · intro hi
    induction hi with
    | refl => exact List.mem_of_mem_head? h.head?_finished
    | tail _ hedge ih =>
      obtain ⟨later, earlier, hsplit⟩ := List.append_of_mem ih
      exact hall (h.back hsplit _ (mem_after.2 hedge)).1

end Walks

variable {g : FlowGraph} {e : BlockIndex}

theorem Coherent.known_of_reaches (hg : g.Coherent) (hentry : g.entry = some e) {i : BlockIndex}
    (h : g.Reaches e i) : ∃ b, g.blocks.get? i = some b := by
  cases h with
  | refl => exact hg.entry_known hentry
  | tail _ hedge => exact (hg.edges_known hedge).2

def unseen (g : FlowGraph) (discovered : List BlockIndex) : Nat :=
  g.blocks.keys.countP (fun i => !discovered.contains i)

theorem unseen_cons_lt {discovered : List BlockIndex} {i : BlockIndex} {b : Block}
    (hknown : g.blocks.get? i = some b) (hi : i ∉ discovered) :
    g.unseen (i :: discovered) < g.unseen discovered := by
  have hpay := countP_unvisited_cons g.blocks.keys id hi
  have hpos : 0 < g.blocks.keys.countP (fun j => id j == i) :=
    List.countP_pos_iff.2 ⟨i, OrderedMap.mem_keys_iff.2 ⟨b, hknown⟩, beq_self_eq_true i⟩
  unfold unseen
  exact Nat.lt_of_lt_of_eq (Nat.lt_add_of_pos_left hpos) hpay

/-- The fuel lets the walk end: a block pushed is paid for by its edge, and that the block below
it is met once more by its discovery. -/
theorem Coherent.exists_walks (hg : g.Coherent) (hentry : g.entry = some e) (fuel : Nat)
    {stack discovered finished : List BlockIndex} (h : g.Walks e stack discovered finished)
    (hfuel : stack.length + g.unseen discovered + g.spare Edge.head discovered ≤ fuel) :
    ∃ all, g.Walks e [] all (g.walk fuel stack discovered finished) := by
  induction fuel generalizing stack discovered finished with
  | zero =>
    have hnil : stack = [] := List.length_eq_zero_iff.1 (by omega)
    subst hnil
    exact ⟨discovered, h⟩
  | succ fuel ih =>
    cases stack with
    | nil => exact ⟨discovered, h⟩
    | cons top stack =>
      rw [List.length_cons] at hfuel
      rw [walk]
      split
      · rename_i hold
        exact ih (h.pop (List.contains_iff_mem.1 hold)) (by omega)
      · rename_i hnew
        have htop : top ∉ discovered := fun hm => hnew (List.contains_iff_mem.2 hm)
        obtain ⟨b, hb⟩ := hg.known_of_reaches hentry (h.reaches (.inl List.mem_cons_self))
        have hblock := unseen_cons_lt hb htop
        have hedges := spare_cons g Edge.head htop
        rw [← length_after] at hedges
        have hfresh := List.length_filter_le (fun i => !(top :: discovered).contains i)
          (g.after top)
        refine ih h.discover ?_
        rw [List.length_append, List.length_reverse, List.length_cons]
        omega

theorem Coherent.exists_walks_reached (hg : g.Coherent) (hentry : g.entry = some e) :
    ∃ all, g.Walks e [] all g.reached := by
  have hblocks : g.unseen [] = g.blockList.length := by
    simp [unseen, blockList, OrderedMap.keys, OrderedMap.values]
  have hedges : g.spare Edge.head [] = g.edges.length := by simp [spare]
  rw [reached, hentry]
  refine hg.exists_walks hentry g.walkFuel (.start g e) ?_
  rw [hblocks, hedges, walkFuel, List.length_singleton]
  omega

section Before

variable {β : Type} {l front back front' back' : List β} {v u : β}

theorem pair_sublist_iff : [v, u].Sublist l ↔ ∃ front back, l = front ++ u :: back ∧ v ∈ front := by
  constructor
  · intro h
    obtain ⟨front, back, rfl, hv, hu⟩ := List.cons_sublist_iff.1 h
    obtain ⟨middle, back, rfl⟩ := List.append_of_mem (List.singleton_sublist.1 hu)
    exact ⟨front ++ middle, back, (List.append_assoc _ _ _).symm, List.mem_append_left _ hv⟩
  · rintro ⟨front, back, rfl, hv⟩
    exact (List.singleton_sublist.2 hv).append (List.singleton_sublist.2 List.mem_cons_self)

theorem split_unique_of_nodup (hnodup : (front ++ u :: back).Nodup)
    (h : front ++ u :: back = front' ++ u :: back') : front = front' ∧ back = back' := by
  obtain ⟨_, hnot, hapart⟩ := List.nodup_append.1 hnodup
  have hfront : u ∉ front := fun hu => hapart u hu u List.mem_cons_self rfl
  obtain ⟨hfronts, _, hbacks⟩ :=
    (List.append_cons_inj_of_notMem hfront (List.nodup_cons.1 hnot).1).1 h
  exact ⟨hfronts, hbacks⟩

theorem not_pair_sublist_of_nodup (hnodup : (front ++ u :: back).Nodup) (hv : v ∈ back) :
    ¬ [v, u].Sublist (front ++ u :: back) := by
  intro h
  obtain ⟨front', back', hsplit, hv'⟩ := pair_sublist_iff.1 h
  obtain ⟨rfl, _⟩ := split_unique_of_nodup hnodup hsplit
  exact (List.nodup_append.1 hnodup).2.2 v hv' v (List.mem_cons_of_mem u hv) rfl

end Before

/-- The head of an edge stands before its tail, or the tail leads back to it. -/
theorem Coherent.edge_in_order (hg : g.Coherent) (hentry : g.entry = some e) {u v : BlockIndex}
    (hu : g.Reaches e u) (hedge : ⟨u, v⟩ ∈ g.edges) :
    ∃ front back, g.blockOrder = front ++ u :: back ∧ (v ∈ back ∨ g.Reaches v u) := by
  obtain ⟨all, hwalks⟩ := hg.exists_walks_reached hentry
  obtain ⟨front, back, hsplit⟩ := List.append_of_mem (hwalks.mem_finished.2 hu)
  refine ⟨front, back ++ g.blocks.keys.filter (fun i => !g.reached.contains i), ?_, ?_⟩
  · rw [blockOrder, ← List.cons_append, ← List.append_assoc, ← hsplit]
  · exact (hwalks.back hsplit v (mem_after.2 hedge)).2.imp_left (List.mem_append_left _)

theorem Coherent.mem_blockOrder_iff (hg : g.Coherent) {i : BlockIndex} :
    i ∈ g.blockOrder ↔ ∃ b, g.blocks.get? i = some b := by
  constructor
  · intro hi
    obtain ⟨b, hb⟩ := hg.exists_block_of_order hi
    exact ⟨b, block_eq_ok.1 hb⟩
  · rintro ⟨b, hb⟩
    exact mem_blockOrder hb

theorem keys_ascending (g : FlowGraph) (p : BlockIndex → Bool) :
    (g.blocks.keys.filter p).Pairwise (· < ·) :=
  (g.blocks.keys_pairwise.imp Std.compare_eq_lt.1).filter p

/-- The order of the blocks names every block once. It starts with the entry and all that the
entry leads to, in reverse post order: an edge that runs against the order closes a cycle, so
without cycles the order is topological. The other blocks follow by their numbers. -/
theorem block_order_is_reverse_post_order {g : FlowGraph} (built : g.Built) :
    g.blockOrder.Nodup ∧ (∀ i, i ∈ g.blockOrder ↔ ∃ b, g.blocks.get? i = some b) ∧
    (g.entry = none → g.blockOrder.Pairwise (· < ·)) ∧
    ∀ e, g.entry = some e → ∃ reached rest, g.blockOrder = reached ++ rest ∧
      reached.head? = some e ∧ (∀ i, i ∈ reached ↔ g.Reaches e i) ∧
      rest.Pairwise (· < ·) ∧
      (∀ i, i ∈ rest ↔ (∃ b, g.blocks.get? i = some b) ∧ ¬ g.Reaches e i) ∧
      (∀ u v, g.Reaches e u → ⟨u, v⟩ ∈ g.edges → [v, u].Sublist g.blockOrder → g.Reaches v u) ∧
      ((∀ i, g.Reaches e i → ¬ Relation.TransGen (fun i j => ⟨i, j⟩ ∈ g.edges) i i) →
        ∀ u v, g.Reaches e u → ⟨u, v⟩ ∈ g.edges → [u, v].Sublist g.blockOrder) := by
  have hg := built.coherent
  refine ⟨g.blockOrder_nodup, fun i => hg.mem_blockOrder_iff, fun hnone => ?_, fun e hentry => ?_⟩
  · rw [blockOrder, reached, hnone]
    exact g.keys_ascending _
  obtain ⟨all, hwalks⟩ := hg.exists_walks_reached hentry
  refine ⟨g.reached, _, rfl, hwalks.head?_finished, fun i => hwalks.mem_finished,
    g.keys_ascending _, fun i => ?_, fun u v hu hedge hpair => ?_, fun hacyclic u v hu hedge => ?_⟩
  · rw [List.mem_filter, OrderedMap.mem_keys_iff, ← hwalks.mem_finished]
    simp
  · obtain ⟨front, back, hsplit, hv | hback⟩ := hg.edge_in_order hentry hu hedge
    · have hnodup := g.blockOrder_nodup
      rw [hsplit] at hnodup hpair
      exact absurd hpair (not_pair_sublist_of_nodup hnodup hv)
    · exact hback
  · obtain ⟨front, back, hsplit, hv | hback⟩ := hg.edge_in_order hentry hu hedge
    · rw [hsplit]
      exact ((List.singleton_sublist.2 hv).cons_cons u).trans (List.sublist_append_right _ _)
    · exact absurd (.head' hedge hback) (hacyclic u hu)

/-- Two ways from the entry `2` meet in block `5`, block `7` closes two cycles, and the entry does
not lead to `1` and `9`. -/
def crossingOutline : Outline where
  entry := some 2
  blocks := [⟨9, []⟩, ⟨7, []⟩, ⟨5, []⟩, ⟨3, []⟩, ⟨2, []⟩, ⟨1, []⟩]
  edges := [⟨2, 3⟩, ⟨2, 5⟩, ⟨3, 5⟩, ⟨5, 7⟩, ⟨7, 7⟩, ⟨7, 3⟩, ⟨9, 2⟩, ⟨1, 5⟩]

theorem crossing_blocks_in_order : ∃ g h,
    ofOutline crossingOutline = .ok g ∧
    ofOutline { crossingOutline with edges := [⟨2, 3⟩, ⟨2, 5⟩, ⟨3, 5⟩, ⟨5, 7⟩] } = .ok h ∧
    g.blockOrder = [2, 5, 7, 3, 1, 9] ∧ g.Reaches 5 3 ∧ [3, 5].Sublist h.blockOrder := by
  obtain ⟨g, hg, hentry, horder, htree, hback⟩ : ∃ g, ofOutline crossingOutline = .ok g ∧
      g.entry = some 2 ∧ g.blockOrder = [2, 5, 7, 3, 1, 9] ∧ ⟨2, 3⟩ ∈ g.edges ∧ ⟨3, 5⟩ ∈ g.edges :=
    ⟨_, rfl, rfl, by decide +kernel, by decide +kernel, by decide +kernel⟩
  obtain ⟨h, hh, hentry', hup, htree', hcross⟩ : ∃ h,
      ofOutline { crossingOutline with edges := [⟨2, 3⟩, ⟨2, 5⟩, ⟨3, 5⟩, ⟨5, 7⟩] } = .ok h ∧
      h.entry = some 2 ∧ (∀ e ∈ h.edges, e.head < e.tail) ∧ ⟨2, 3⟩ ∈ h.edges ∧ ⟨3, 5⟩ ∈ h.edges :=
    ⟨_, rfl, rfl, by decide +kernel, by decide +kernel, by decide +kernel⟩
  obtain ⟨_, _, _, hcyclic⟩ := block_order_is_reverse_post_order (built_ofOutline hg)
  obtain ⟨_, _, _, _, _, _, _, hcycle, _⟩ := hcyclic 2 hentry
  obtain ⟨_, _, _, hacyclic⟩ := block_order_is_reverse_post_order (built_ofOutline hh)
  obtain ⟨_, _, _, _, _, _, _, _, htopological⟩ := hacyclic 2 hentry'
  refine ⟨g, h, hg, hh, horder, hcycle 3 5 (.single htree) hback ?_,
    htopological (fun i _ hloop => ?_) 3 5 (.single htree') hcross⟩
  · rw [horder]
    decide
  · have hlt : ∀ {j}, Relation.TransGen (fun i j => ⟨i, j⟩ ∈ h.edges) i j → i < j := by
      intro j hpath
      induction hpath with
      | single hedge => exact hup _ hedge
      | tail _ hedge ih => exact UInt64.lt_trans ih (hup _ hedge)
    exact UInt64.lt_irrefl i (hlt hloop)

end Dataflow.FlowGraph
