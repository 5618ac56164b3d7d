import Dataflow.FlowGraph.Neighbors
import Dataflow.Proofs.Building

/-! # What a search out of a block finds

The search keeps one set of blocks that it has been through, over all its branches. What it
finds is nevertheless all that can be seen from the block: the ends of the graph and the
first quads met, through any run of blocks that hold none.
-/
namespace Dataflow.FlowGraph

theorem mem_after {g : FlowGraph} {i j : BlockIndex} : j ∈ g.after i ↔ ⟨i, j⟩ ∈ g.edges := by
  simp only [after, List.mem_map, List.mem_filter, beq_iff_eq]
  constructor
  · rintro ⟨e, ⟨he, rfl⟩, rfl⟩
    exact he
  · intro he
    exact ⟨⟨i, j⟩, ⟨he, rfl⟩, rfl⟩

theorem mem_before {g : FlowGraph} {i j : BlockIndex} : j ∈ g.before i ↔ ⟨j, i⟩ ∈ g.edges := by
  simp only [before, List.mem_map, List.mem_filter, beq_iff_eq]
  constructor
  · rintro ⟨e, ⟨he, rfl⟩, rfl⟩
    exact he
  · intro he
    exact ⟨⟨j, i⟩, ⟨he, rfl⟩, rfl⟩

theorem length_after (g : FlowGraph) (i : BlockIndex) :
    (g.after i).length = g.edges.countP (fun e => e.head == i) := by
  simp only [after, List.length_map, List.countP_eq_length_filter]

theorem mem_addNew {found : List Neighbor} {m n : Neighbor} :
    n ∈ addNew found m ↔ n ∈ found ∨ n = m := by
  unfold addNew
  split
  · rename_i h
    constructor
    · exact .inl
    · rintro (hn | rfl)
      · exact hn
      · exact List.contains_iff_mem.1 h
  · simp

theorem mem_foldl_addNew {found news : List Neighbor} {n : Neighbor} :
    n ∈ news.foldl addNew found ↔ n ∈ found ∨ n ∈ news := by
  induction news generalizing found with
  | nil => simp
  | cons m news ih => rw [List.foldl_cons, ih, mem_addNew, List.mem_cons, or_assoc]

/-- The quad that the outlook meets in a block, if the block holds any. -/
def meeting (g : FlowGraph) (o : Outlook) (i : BlockIndex) : Option Quad :=
  (g.blocks.get? i).bind o.meets

/-- A neighbor can be seen from a block along the outlook. -/
inductive Sees (g : FlowGraph) (o : Outlook) : BlockIndex → Neighbor → Prop
  | ends {i : BlockIndex} {n : Neighbor} : n ∈ o.ends i → Sees g o i n
  | meets {i j : BlockIndex} {q : Quad} :
      j ∈ o.next i → g.meeting o j = some q → Sees g o i (.quad q.id)
  | through {i j : BlockIndex} {n : Neighbor} :
      j ∈ o.next i → g.meeting o j = none → Sees g o j n → Sees g o i n

/-- What stands before the search in a block that it has still to look at. -/
def Offers (g : FlowGraph) (o : Outlook) (seen : Neighbor → Prop) (j : BlockIndex) : Prop :=
  (∀ q, g.meeting o j = some q → seen (.quad q.id)) ∧
    (g.meeting o j = none → ∀ n, Sees g o j n → seen n)

theorem search_sound {g : FlowGraph} {o : Outlook} (seen : Neighbor → Prop) (fuel : Nat)
    {pending visited : List BlockIndex} {found : List Neighbor}
    (hfound : ∀ n ∈ found, seen n) (hpending : ∀ j ∈ pending, g.Offers o seen j)
    {n : Neighbor} (hn : n ∈ g.search o fuel pending visited found) : seen n := by
  induction fuel generalizing pending visited found with
  | zero => exact hfound n hn
  | succ fuel ih =>
    cases pending with
    | nil => exact hfound n hn
    | cons j pending =>
      obtain ⟨hmeet, hthrough⟩ := hpending j List.mem_cons_self
      have hrest : ∀ k ∈ pending, g.Offers o seen k :=
        fun k hk => hpending k (List.mem_cons_of_mem j hk)
      rw [search] at hn
      split at hn
      · rename_i q hq
        refine ih (fun m hm => ?_) hrest hn
        rcases mem_addNew.1 hm with hm | rfl
        · exact hfound m hm
        · exact hmeet q hq
      · rename_i hnone
        split at hn
        · exact ih hfound hrest hn
        · refine ih (fun m hm => ?_) (fun k hk => ?_) hn
          · rcases mem_foldl_addNew.1 hm with hm | hm
            · exact hfound m hm
            · exact hthrough hnone m (.ends hm)
          · rcases List.mem_append.1 hk with hk | hk
            · exact ⟨fun q hq => hthrough hnone _ (.meets hk hq),
                fun hempty m hm => hthrough hnone m (.through hk hempty hm)⟩
            · exact hrest k hk

/-- All that a visited block shows has been found, or is still to be looked at. -/
def Explored (g : FlowGraph) (o : Outlook) (pending visited : List BlockIndex)
    (found : List Neighbor) : Prop :=
  ∀ i ∈ visited, (∀ n ∈ o.ends i, n ∈ found) ∧ ∀ j ∈ o.next i, j ∈ pending ∨
    (∃ q, g.meeting o j = some q ∧ .quad q.id ∈ found) ∨ (g.meeting o j = none ∧ j ∈ visited)

theorem Explored.mem_of_sees {g : FlowGraph} {o : Outlook} {visited : List BlockIndex}
    {found : List Neighbor} (h : g.Explored o [] visited found) {i : BlockIndex} {n : Neighbor}
    (hn : Sees g o i n) (hi : i ∈ visited) : n ∈ found := by
  induction hn with
  | ends hn => exact (h _ hi).1 _ hn
  | meets hj hq =>
    rcases (h _ hi).2 _ hj with hp | ⟨r, hr, hm⟩ | ⟨hnone, _⟩
    · exact absurd hp List.not_mem_nil
    · rw [hq] at hr
      cases hr
      exact hm
    · rw [hq] at hnone
      cases hnone
  | through hj hnone _ ih =>
    rcases (h _ hi).2 _ hj with hp | ⟨r, hr, _⟩ | ⟨_, hv⟩
    · exact absurd hp List.not_mem_nil
    · rw [hnone] at hr
      cases hr
    · exact ih hv

/-- Of what belongs to blocks not yet visited, a visit takes away what belongs to its block. -/
theorem countP_unvisited_cons {β : Type} (l : List β) (source : β → BlockIndex)
    {visited : List BlockIndex} {i : BlockIndex} (hi : i ∉ visited) :
    l.countP (fun b => source b == i) + l.countP (fun b => !(i :: visited).contains (source b)) =
      l.countP (fun b => !visited.contains (source b)) := by
  induction l with
  | nil => rfl
  | cons b l ih =>
    simp only [List.countP_cons]
    by_cases hb : source b = i
    · have hnot : visited.contains i = false := by simpa using hi
      simp only [hb, beq_self_eq_true, List.contains_cons, Bool.true_or, Bool.not_true, hnot,
        Bool.false_eq_true, Bool.not_false, if_true, if_false] at ih ⊢
      omega
    · have hne : (source b == i) = false := by simpa using hb
      simp only [hne, List.contains_cons, Bool.false_or, Bool.false_eq_true, if_false] at ih ⊢
      omega

/-- The number of edges that leave a block not yet visited, along the outlook. -/
def spare (g : FlowGraph) (source : Edge → BlockIndex) (visited : List BlockIndex) : Nat :=
  g.edges.countP (fun e => !visited.contains (source e))

theorem spare_cons (g : FlowGraph) (source : Edge → BlockIndex) {visited : List BlockIndex}
    {i : BlockIndex} (hi : i ∉ visited) :
    g.edges.countP (fun e => source e == i) + g.spare source (i :: visited) =
      g.spare source visited := countP_unvisited_cons g.edges source hi

theorem search_complete {g : FlowGraph} {o : Outlook} {source : Edge → BlockIndex}
    (hsource : ∀ i, (o.next i).length = g.edges.countP (fun e => source e == i)) (fuel : Nat)
    {pending visited : List BlockIndex} {found : List Neighbor}
    (h : g.Explored o pending visited found)
    (hfuel : pending.length + g.spare source visited ≤ fuel) :
    ∃ all, (∀ i ∈ visited, i ∈ all) ∧
      g.Explored o [] all (g.search o fuel pending visited found) := by
  -- each round takes one block off the list, and a block put on it is paid for by its edge
  induction fuel generalizing pending visited found with
  | zero =>
    have hp : pending = [] := List.length_eq_zero_iff.1 (by omega)
    subst hp
    exact ⟨visited, fun i hi => hi, h⟩
  | succ fuel ih =>
    cases pending with
    | nil => exact ⟨visited, fun i hi => hi, h⟩
    | cons j pending =>
      rw [List.length_cons] at hfuel
      rw [search]
      split
      · rename_i q hq
        refine ih (fun i hi => ⟨fun n hn => mem_addNew.2 (.inl ((h i hi).1 n hn)), fun k hk => ?_⟩)
          (by omega)
        rcases (h i hi).2 k hk with hp | ⟨r, hr, hm⟩ | hv
        · rcases List.mem_cons.1 hp with rfl | hp
          · exact .inr (.inl ⟨q, hq, mem_addNew.2 (.inr rfl)⟩)
          · exact .inl hp
        · exact .inr (.inl ⟨r, hr, mem_addNew.2 (.inl hm)⟩)
        · exact .inr (.inr hv)
      · rename_i hnone
        split
        · rename_i hseen
          refine ih (fun i hi => ⟨(h i hi).1, fun k hk => ?_⟩) (by omega)
          rcases (h i hi).2 k hk with hp | hm | hv
          · rcases List.mem_cons.1 hp with rfl | hp
            · exact .inr (.inr ⟨hnone, List.contains_iff_mem.1 hseen⟩)
            · exact .inl hp
          · exact .inr (.inl hm)
          · exact .inr (.inr hv)
        · rename_i hnew
          have hj : j ∉ visited := fun hm => hnew (List.contains_iff_mem.2 hm)
          have hnext : g.Explored o (o.next j ++ pending) (j :: visited)
              ((o.ends j).foldl addNew found) := by
            intro i hi
            rcases List.mem_cons.1 hi with rfl | hi
            · exact ⟨fun n hn => mem_foldl_addNew.2 (.inr hn),
                fun k hk => .inl (List.mem_append_left pending hk)⟩
            · refine ⟨fun n hn => mem_foldl_addNew.2 (.inl ((h i hi).1 n hn)), fun k hk => ?_⟩
              rcases (h i hi).2 k hk with hp | ⟨r, hr, hm⟩ | ⟨hk, hv⟩
              · rcases List.mem_cons.1 hp with rfl | hp
                · exact .inr (.inr ⟨hnone, List.mem_cons_self⟩)
                · exact .inl (List.mem_append_right _ hp)
              · exact .inr (.inl ⟨r, hr, mem_foldl_addNew.2 (.inl hm)⟩)
              · exact .inr (.inr ⟨hk, List.mem_cons_of_mem j hv⟩)
          have hpay := spare_cons g source hj
          obtain ⟨all, hall, hdone⟩ := ih hnext (by rw [List.length_append, hsource]; omega)
          exact ⟨all, fun i hi => hall i (List.mem_cons_of_mem j hi), hdone⟩

theorem mem_lookOut {g : FlowGraph} {o : Outlook} (source : Edge → BlockIndex)
    (hsource : ∀ i, (o.next i).length = g.edges.countP (fun e => source e == i))
    {i : BlockIndex} {n : Neighbor} : n ∈ g.lookOut o i ↔ Sees g o i n := by
  constructor
  · intro hn
    refine search_sound (Sees g o i) g.searchFuel (fun m hm => .ends hm) (fun j hj => ?_) hn
    exact ⟨fun q hq => .meets hj hq, fun hnone m hm => .through hj hnone hm⟩
  · intro hn
    have hstart : g.Explored o (o.next i) [i] (o.ends i) := by
      intro j hj
      cases List.mem_singleton.1 hj
      exact ⟨fun m hm => hm, fun k hk => .inl hk⟩
    have hpay := spare_cons g source (i := i) List.not_mem_nil
    have hall : g.spare source [] = g.edges.length := by simp [spare]
    obtain ⟨all, hmem, hdone⟩ := search_complete hsource g.searchFuel hstart
      (by rw [hsource, hpay, hall]; exact Nat.le_succ _)
    exact hdone.mem_of_sees hn (hmem i (List.mem_singleton.2 rfl))

/-- The neighbors behind a block are all that can be seen backward. -/
theorem mem_entryNeighbors {g : FlowGraph} {i : BlockIndex} {n : Neighbor} :
    n ∈ g.entryNeighbors i ↔ Sees g g.backward i n :=
  mem_lookOut Edge.tail fun i => by
    simp only [backward, before, List.length_map, List.countP_eq_length_filter]

theorem mem_exitNeighbors {g : FlowGraph} {i : BlockIndex} {n : Neighbor} :
    n ∈ g.exitNeighbors i ↔ Sees g g.forward i n :=
  mem_lookOut Edge.head g.length_after

end Dataflow.FlowGraph
