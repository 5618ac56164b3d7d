import Dataflow.Proofs.Outlines

/-! # The first offence of an outline

An outline that is not well-formed is refused with the first thing that is wrong with it, in the
order in which it is read: the blocks one by one, each compared with those before it, then the edges
one by one, then the entry. A well-formed one gives a graph that lists its blocks by index, and its
edges without repeats.
-/
namespace Dataflow.FlowGraph

variable {g : FlowGraph} {bs : List Block} {es : List Edge} {o : Outline} {x : Error}

/-- What is wrong, with nothing wrong before it. -/
inductive Outline.FirstOffence (o : Outline) : Error → Prop
  | block {pre post : List Block} {b : Block} {x : Error} : o.blocks = pre ++ b :: post →
      Separate pre → BlockOffence (· ∈ pre.map Block.index) (· ∈ pre.flatMap Block.ids) b x →
      FirstOffence o x
  | edge {pre post : List Edge} {e : Edge} {x : Error} : Separate o.blocks →
      o.edges = pre ++ e :: post → (∀ d ∈ pre, d.head ∈ o.indices ∧ d.tail ∈ o.indices) →
      EdgeOffence (· ∈ o.indices) e x → FirstOffence o x
  | entry {i : BlockIndex} : Separate o.blocks →
      (∀ e ∈ o.edges, e.head ∈ o.indices ∧ e.tail ∈ o.indices) → o.entry = some i →
      i ∉ o.indices → FirstOffence o (.unknownBlock i)

theorem insertBlocks_eq_error : (bs.forM insertBlock ∅).result = .error x ↔
    ∃ pre b post, bs = pre ++ b :: post ∧ Separate pre ∧
      BlockOffence (· ∈ pre.map Block.index) (· ∈ pre.flatMap Block.ids) b x := by
  simp only [Run.forM_eq_error, yields_insertBlocks, insertBlock_eq_error]
  constructor
  · rintro ⟨pre, b, post, _, rfl, ⟨hpre, rfl⟩, hb⟩
    rw [known_ofBlocks, taken_ofBlocks] at hb
    exact ⟨pre, b, post, rfl, hpre, hb⟩
  · rintro ⟨pre, b, post, rfl, hpre, hb⟩
    rw [← known_ofBlocks, ← taken_ofBlocks] at hb
    exact ⟨pre, b, post, _, rfl, ⟨hpre, rfl⟩, hb⟩

theorem insertEdges_eq_error : (es.forM insertEdge g).result = .error x ↔
    ∃ pre e post, es = pre ++ e :: post ∧ (∀ d ∈ pre, g.Known d.head ∧ g.Known d.tail) ∧
      EdgeOffence g.Known e x := by
  simp only [Run.forM_eq_error, yields_insertEdges, insertEdge_eq_error]
  constructor
  · rintro ⟨pre, e, post, _, rfl, ⟨hpre, rfl⟩, he⟩
    exact ⟨pre, e, post, rfl, hpre, he⟩
  · rintro ⟨pre, e, post, rfl, hpre, he⟩
    exact ⟨pre, e, post, _, rfl, ⟨hpre, rfl⟩, he⟩

theorem setEntry?_eq_error {entry : Option BlockIndex} :
    (entry.forM setEntry g).result = .error x ↔
      ∃ i, entry = some i ∧ ¬ g.Known i ∧ x = .unknownBlock i := by
  cases entry with
  | none => exact ⟨fun h => (by cases h), fun ⟨_, h, _⟩ => (by cases h)⟩
  | some i =>
    refine setEntry_eq_error.trans ⟨fun h => ⟨i, rfl, h⟩, ?_⟩
    rintro ⟨_, ⟨⟩, h⟩
    exact h

theorem ofOutline_eq_error : ofOutline o = .error x ↔ o.FirstOffence x := by
  have hknown : (ofBlocks o.blocks).Known = (· ∈ o.indices) := known_ofBlocks
  have hlinked : ((ofBlocks o.blocks).withEdges o.edges).Known = (· ∈ o.indices) := known_ofBlocks
  unfold ofOutline
  rw [Run.final_eq_error, Run.bind_eq_error]
  constructor
  · rintro (hblocks | ⟨_, _, hblocks, hrest⟩)
    · obtain ⟨pre, b, post, heq, hpre, hb⟩ := insertBlocks_eq_error.1 hblocks
      exact .block heq hpre hb
    obtain ⟨hseparate, rfl⟩ := yields_insertBlocks.1 hblocks
    rcases Run.bind_eq_error.1 hrest with hedges | ⟨_, _, hedges, hentry⟩
    · obtain ⟨pre, e, post, heq, hpre, he⟩ := insertEdges_eq_error.1 hedges
      rw [hknown] at hpre he
      exact .edge hseparate heq hpre he
    obtain ⟨hends, rfl⟩ := yields_insertEdges.1 hedges
    obtain ⟨i, hi, hnot, rfl⟩ := setEntry?_eq_error.1 hentry
    rw [hknown] at hends
    rw [hlinked] at hnot
    exact .entry hseparate hends hi hnot
  · intro h
    -- up to the offence each part succeeds, and leaves the graph that is known for it
    have hinserted (hseparate : Separate o.blocks) :
        (o.blocks.forM insertBlock).Yields ∅ () (ofBlocks o.blocks) :=
      yields_insertBlocks.2 ⟨hseparate, rfl⟩
    cases h with
    | block heq hpre hb => exact .inl (insertBlocks_eq_error.2 ⟨_, _, _, heq, hpre, hb⟩)
    | edge hseparate heq hpre he =>
      have hedges : (o.edges.forM insertEdge (ofBlocks o.blocks)).result = .error x :=
        insertEdges_eq_error.2 ⟨_, _, _, heq, by rw [hknown]; exact hpre, by rw [hknown]; exact he⟩
      exact .inr ⟨(), _, hinserted hseparate, Run.bind_eq_error.2 (.inl hedges)⟩
    | @entry i hseparate hends hi hnot =>
      have hedges : (o.edges.forM insertEdge).Yields (ofBlocks o.blocks) ()
          ((ofBlocks o.blocks).withEdges o.edges) :=
        yields_insertEdges.2 ⟨by rw [hknown]; exact hends, rfl⟩
      have hentry := setEntry?_eq_error.2 ⟨i, hi, by rw [hlinked]; exact hnot, rfl⟩
      exact .inr ⟨(), _, hinserted hseparate, Run.bind_eq_error.2 (.inr ⟨(), _, hedges, hentry⟩)⟩

theorem Outline.WellFormed.blockList_graph (ho : o.WellFormed) :
    o.graph.blockList = o.blocks.mergeSort (fun b c => b.index ≤ c.index) := by
  have hg : o.graph.Coherent := (built_ofOutline (ofOutline_eq_ok.2 ⟨ho, rfl⟩)).coherent
  have hmem (b : Block) : b ∈ o.graph.blockList ↔ b ∈ o.blocks := by
    have hat : o.graph.blocks.get? b.index = some b ↔ b ∈ o.blocks ∧ b.index = b.index :=
      ho.blocks.get?_ofBlocks
    simpa [← hg.mem_blockList] using hat
  have hperm : o.graph.blockList.Perm (o.blocks.mergeSort (fun b c => b.index ≤ c.index)) := by
    refine .trans ?_ (List.mergeSort_perm ..).symm
    apply (List.perm_ext_iff_of_nodup ?_ ho.blocks.indices.of_map).2 hmem
    apply List.Nodup.of_map Block.index
    rw [hg.map_index]
    exact o.graph.blocks.keys_nodup
  have hsorted : o.graph.blockList.Pairwise (fun b c => decide (b.index ≤ c.index) = true) := by
    have hkeys := o.graph.blocks.keys_pairwise
    rw [← hg.map_index, List.pairwise_map] at hkeys
    refine hkeys.imp fun {b c} hlt => ?_
    exact decide_eq_true (UInt64.le_of_lt (by simpa using Std.compare_eq_lt.1 hlt))
  refine hperm.eq_of_pairwise ?_ hsorted (List.pairwise_mergeSort ?_ ?_ o.blocks)
  · -- blocks with one index are one block
    intro b c hb hc hbc hcb
    have hindex : b.index = c.index := UInt64.le_antisymm (by simpa using hbc) (by simpa using hcb)
    exact List.inj_on_of_nodup_map ho.blocks.indices ((hmem b).1 hb)
      (List.mem_mergeSort.1 hc) hindex
  · intro b c d hbc hcd
    simp only [decide_eq_true_eq] at hbc hcd ⊢
    exact UInt64.le_trans hbc hcd
  · intro b c
    simpa using UInt64.le_total b.index c.index

/-- An outline can be built if and only if it is well-formed. The graph then lists its blocks by
index and its edges without later repeats, and has its entry; otherwise the error is that of the
first offence. -/
theorem outlines_build_iff_wellFormed (o : Outline) :
    ((∃ g, ofOutline o = .ok g) ↔ o.WellFormed) ∧
    (∀ g, ofOutline o = .ok g →
      g.blockList = o.blocks.mergeSort (fun b c => b.index ≤ c.index) ∧
      g.edges = o.edges.eraseDups ∧ g.entry = o.entry) ∧
    ∀ x, ofOutline o = .error x ↔ o.FirstOffence x := by
  simp only [ofOutline_eq_ok, exists_and_left, exists_eq, and_true, true_and]
  refine ⟨?_, fun x => ofOutline_eq_error⟩
  rintro g ⟨ho, rfl⟩
  exact ⟨ho.blockList_graph, edges_withEdges edges_ofBlocks.1 o.edges, rfl⟩

/-- The second block repeats the quad of the first and one of its own, the third block the index of
the first, and the edge and the entry lead nowhere. -/
def tangledOutline : Outline where
  entry := some 9
  blocks := [⟨3, [⟨1, .nop⟩]⟩, ⟨1, [⟨2, .nop⟩, ⟨1, .nop⟩, ⟨2, .nop⟩]⟩, ⟨3, []⟩]
  edges := [⟨7, 8⟩]

theorem tangle_refused_at_first_repeat :
    tangledOutline.FirstOffence (.graph (.duplicateQuad 1)) ∧
    ofOutline tangledOutline = .error (.graph (.duplicateQuad 1)) ∧
    ∃ g, ofOutline loopOutline = .ok g ∧ g.edges = loopOutline.edges.eraseDups := by
  have hfirst : tangledOutline.FirstOffence (.graph (.duplicateQuad 1)) := by
    have hsplit : tangledOutline.blocks = [⟨3, [⟨1, .nop⟩]⟩] ++
        ⟨1, [⟨2, .nop⟩, ⟨1, .nop⟩, ⟨2, .nop⟩]⟩ :: [⟨3, []⟩] := rfl
    have hids : Block.ids ⟨1, [⟨2, .nop⟩, ⟨1, .nop⟩, ⟨2, .nop⟩]⟩ = [2] ++ 1 :: [2] := rfl
    exact .block hsplit ⟨by simp, by simp [Block.ids]⟩
      (.quad (by simp) hids (by simp) (by simp [Block.ids]) (by simp [Block.ids]))
  refine ⟨hfirst, ((outlines_build_iff_wellFormed _).2.2 _).2 hfirst, ?_⟩
  obtain ⟨g, hg⟩ : ∃ g, ofOutline loopOutline = .ok g := ⟨_, rfl⟩
  exact ⟨g, hg, ((outlines_build_iff_wellFormed _).2.1 g hg).2.1⟩

end Dataflow.FlowGraph
