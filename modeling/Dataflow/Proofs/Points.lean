import Dataflow.Proofs.LookingOut
import Mathlib.Logic.Relation

/-! # Points of a graph

A point is a place in a block, given by the quads still to come there. From the end of a
block the flow hops to the start of any next block, so it glides through blocks without
quads. One quad comes right before another exactly if the flow glides from behind the first
to the front of the second, whatever blocks lie between.
-/
namespace Dataflow.FlowGraph

/-- The quads of a block; an unknown block has none. -/
def quadsAt (g : FlowGraph) (i : BlockIndex) : List Quad :=
  match g.blocks.get? i with
  | some b => b.quads
  | none => []

structure Point where
  block : BlockIndex
  rest : List Quad

def start (g : FlowGraph) (i : BlockIndex) : Point := ⟨i, g.quadsAt i⟩

def Within (g : FlowGraph) (x : Point) : Prop := x.rest <:+ g.quadsAt x.block

def Hop (g : FlowGraph) (x y : Point) : Prop :=
  x.rest = [] ∧ ⟨x.block, y.block⟩ ∈ g.edges ∧ y.rest = g.quadsAt y.block

abbrev Glide (g : FlowGraph) : Point → Point → Prop := Relation.ReflTransGen g.Hop

/-- The point right behind a quad. -/
def Behind (g : FlowGraph) (id : QuadId) (x : Point) : Prop :=
  ∃ q : Quad, q.id = id ∧ g.Within ⟨x.block, q :: x.rest⟩

/-- The point right before a quad. -/
def Before (g : FlowGraph) (id : QuadId) (x : Point) : Prop :=
  ∃ (q : Quad) (rest : List Quad), q.id = id ∧ x.rest = q :: rest ∧ g.Within x

section Suffix
variable {α : Type}

private theorem eq_of_suffix {l m n : List α} (hl : l <:+ n) (hm : m <:+ n)
    (h : l.length = m.length) : l = m :=
  (List.suffix_of_suffix_length_le hl hm (Nat.le_of_eq h)).eq_of_length h

theorem head_unique_of_suffix {a b : α} {l n : List α} (ha : a :: l <:+ n) (hb : b :: l <:+ n) :
    a = b := (List.cons.inj (eq_of_suffix ha hb rfl)).1

theorem ne_of_cons_suffix {a : α} {l n : List α} (h : a :: l <:+ n) : l ≠ n := by
  rintro rfl
  exact Nat.not_succ_le_self _ h.length_le

end Suffix

theorem within_start (g : FlowGraph) (i : BlockIndex) : g.Within (g.start i) :=
  List.suffix_refl _

theorem Within.tail {g : FlowGraph} {i : BlockIndex} {q : Quad} {rest : List Quad}
    (h : g.Within ⟨i, q :: rest⟩) : g.Within ⟨i, rest⟩ := (List.suffix_cons q rest).trans h

theorem hop_start {g : FlowGraph} {i j : BlockIndex} (h : ⟨i, j⟩ ∈ g.edges) :
    g.Hop ⟨i, []⟩ (g.start j) := ⟨rfl, h, rfl⟩

theorem Glide.eq_of_rest {g : FlowGraph} {x y : Point} (h : g.Glide x y) (hx : x.rest ≠ []) :
    x = y := by
  rcases h.cases_head with rfl | ⟨z, hz, _⟩
  · rfl
  · exact absurd hz.1 hx

/-- The flow comes to the inside of a block from there only. -/
theorem Glide.eq_of_inside {g : FlowGraph} {x y : Point} (h : g.Glide x y)
    (hy : y.rest ≠ g.quadsAt y.block) : x = y := by
  rcases h.cases_tail with rfl | ⟨z, _, hz⟩
  · rfl
  · exact absurd hz.2.2 hy

theorem Before.unique {g : FlowGraph} {i : BlockIndex} {q : Quad} {rest : List Quad} {id : QuadId}
    (h : g.Before id ⟨i, q :: rest⟩) : q.id = id := by
  obtain ⟨r, _, rfl, heq, _⟩ := h
  rw [(List.cons.inj heq).1]

theorem Behind.unique {g : FlowGraph} {i : BlockIndex} {q : Quad} {rest : List Quad} {id : QuadId}
    (h : g.Behind id ⟨i, rest⟩) (hq : g.Within ⟨i, q :: rest⟩) : q.id = id := by
  obtain ⟨r, rfl, hr⟩ := h
  rw [head_unique_of_suffix hq hr]

theorem meeting_backward (g : FlowGraph) (i : BlockIndex) :
    g.meeting g.backward i = (g.quadsAt i).getLast? := by
  unfold meeting quadsAt
  cases g.blocks.get? i <;> rfl

theorem meeting_forward (g : FlowGraph) (i : BlockIndex) :
    g.meeting g.forward i = (g.quadsAt i).head? := by
  unfold meeting quadsAt
  cases g.blocks.get? i <;> rfl

/-- What is seen backward from a block is what glides to its start. -/
theorem sees_backward_quad {g : FlowGraph} {i : BlockIndex} {id : QuadId} :
    Sees g g.backward i (.quad id) ↔ ∃ x, g.Behind id x ∧ g.Glide x (g.start i) := by
  constructor
  · intro h
    generalize hn : Neighbor.quad id = n at h
    induction h with
    | @ends i n h =>
      subst hn
      have hends : g.backward.ends i = if g.entry = some i then [.entry] else [] := rfl
      rw [hends] at h
      split at h <;> simp at h
    | @meets i j q hj hq =>
      cases hn
      rw [meeting_backward] at hq
      obtain ⟨init, hinit⟩ := List.getLast?_eq_some_iff.1 hq
      exact ⟨⟨j, []⟩, ⟨q, rfl, init, hinit.symm⟩, .single (hop_start (mem_before.1 hj))⟩
    | @through i j n hj hnone _ ih =>
      obtain ⟨x, hx, hglide⟩ := ih hn
      rw [meeting_backward, List.getLast?_eq_none_iff] at hnone
      refine ⟨x, hx, hglide.tail ⟨hnone, mem_before.1 hj, rfl⟩⟩
  · rintro ⟨x, ⟨q, rfl, hq⟩, hglide⟩
    -- along the glide, either nothing has happened yet or the start of a block is reached
    have hreach : ∀ y, g.Glide x y → y = x ∨
        (y.rest = g.quadsAt y.block ∧ Sees g g.backward y.block (.quad q.id)) := by
      intro y hy
      induction hy with
      | refl => exact .inl rfl
      | @tail y z _ hhop ih =>
        obtain ⟨hempty, hedge, hrest⟩ := hhop
        refine .inr ⟨hrest, ?_⟩
        rcases ih with rfl | ⟨hstart, hsees⟩
        · rw [hempty] at hq
          obtain ⟨init, hinit⟩ := hq
          refine .meets (mem_before.2 hedge) ?_
          rw [meeting_backward]
          exact List.getLast?_eq_some_iff.2 ⟨init, hinit.symm⟩
        · refine .through (mem_before.2 hedge) ?_ hsees
          rw [meeting_backward, ← hstart, hempty]
          rfl
    rcases hreach _ hglide with heq | ⟨_, hsees⟩
    · rw [← heq] at hq
      exact absurd rfl (ne_of_cons_suffix hq)
    · exact hsees

theorem sees_backward_entry {g : FlowGraph} {i : BlockIndex} :
    Sees g g.backward i .entry ↔ ∃ e, g.entry = some e ∧ g.Glide (g.start e) (g.start i) := by
  have hends : ∀ i, g.backward.ends i = if g.entry = some i then [.entry] else [] := fun _ => rfl
  constructor
  · intro h
    generalize hn : Neighbor.entry = n at h
    induction h with
    | @ends i n h =>
      rw [hends] at h
      split at h
      · rename_i he
        exact ⟨i, he, .refl⟩
      · exact absurd h List.not_mem_nil
    | meets => cases hn
    | @through i j n hj hnone _ ih =>
      obtain ⟨e, he, hglide⟩ := ih hn
      rw [meeting_backward, List.getLast?_eq_none_iff] at hnone
      exact ⟨e, he, hglide.tail ⟨hnone, mem_before.1 hj, rfl⟩⟩
  · rintro ⟨e, he, hglide⟩
    have hreach : ∀ y, g.Glide (g.start e) y →
        y.rest = g.quadsAt y.block ∧ Sees g g.backward y.block .entry := by
      intro y hy
      induction hy with
      | refl => exact ⟨rfl, .ends (by rw [hends, start, if_pos he]; exact List.mem_singleton.2 rfl)⟩
      | @tail y z _ hhop ih =>
        obtain ⟨hempty, hedge, hrest⟩ := hhop
        refine ⟨hrest, .through (mem_before.2 hedge) ?_ ih.2⟩
        rw [meeting_backward, ← ih.1, hempty]
        rfl
    exact (hreach _ hglide).2

theorem not_sees_backward_exit {g : FlowGraph} {i : BlockIndex} : ¬ Sees g g.backward i .exit := by
  intro h
  generalize hn : Neighbor.exit = n at h
  induction h with
  | @ends i n h =>
    subst hn
    have hends : g.backward.ends i = if g.entry = some i then [.entry] else [] := rfl
    rw [hends] at h
    split at h <;> simp at h
  | meets => cases hn
  | through _ _ _ ih => exact ih hn

/-- What is seen forward from a block is where the flow glides from its end. -/
theorem sees_forward_quad {g : FlowGraph} {i : BlockIndex} {id : QuadId} :
    Sees g g.forward i (.quad id) ↔ ∃ y, g.Before id y ∧ g.Glide ⟨i, []⟩ y := by
  constructor
  · intro h
    generalize hn : Neighbor.quad id = n at h
    induction h with
    | @ends i n h =>
      subst hn
      have hends : g.forward.ends i = if (g.after i).isEmpty then [.exit] else [] := rfl
      rw [hends] at h
      split at h <;> simp at h
    | @meets i j q hj hq =>
      cases hn
      rw [meeting_forward] at hq
      obtain ⟨rest, hrest⟩ := List.head?_eq_some_iff.1 hq
      exact ⟨g.start j, ⟨q, rest, rfl, hrest, g.within_start j⟩,
        .single (hop_start (mem_after.1 hj))⟩
    | @through i j n hj hnone _ ih =>
      obtain ⟨y, hy, hglide⟩ := ih hn
      rw [meeting_forward, List.head?_eq_none_iff] at hnone
      exact ⟨y, hy, .head ⟨rfl, mem_after.1 hj, hnone.symm⟩ hglide⟩
  · rintro ⟨y, ⟨q, rest, rfl, hy, _⟩, hglide⟩
    have hreach : ∀ x, g.Glide x y → x.rest = [] → Sees g g.forward x.block (.quad q.id) := by
      intro x hx
      induction hx using Relation.ReflTransGen.head_induction_on with
      | refl =>
        intro hempty
        rw [hy] at hempty
        cases hempty
      | @head x z hhop hz ih =>
        intro _
        obtain ⟨_, hedge, hrest⟩ := hhop
        by_cases hempty : z.rest = []
        · refine .through (mem_after.2 hedge) ?_ (ih hempty)
          rw [meeting_forward, ← hrest, hempty]
          rfl
        · cases Glide.eq_of_rest hz hempty
          refine .meets (mem_after.2 hedge) ?_
          rw [meeting_forward, ← hrest, hy]
          rfl
    exact hreach _ hglide rfl

theorem sees_forward_exit {g : FlowGraph} {i : BlockIndex} :
    Sees g g.forward i .exit ↔ ∃ j, g.Glide ⟨i, []⟩ ⟨j, []⟩ ∧ g.after j = [] := by
  have hends : ∀ i, g.forward.ends i = if (g.after i).isEmpty then [.exit] else [] := fun _ => rfl
  constructor
  · intro h
    generalize hn : Neighbor.exit = n at h
    induction h with
    | @ends i n h =>
      rw [hends] at h
      split at h
      · rename_i hafter
        exact ⟨i, .refl, List.isEmpty_iff.1 hafter⟩
      · exact absurd h List.not_mem_nil
    | meets => cases hn
    | @through i j n hj hnone _ ih =>
      obtain ⟨k, hglide, hk⟩ := ih hn
      rw [meeting_forward, List.head?_eq_none_iff] at hnone
      exact ⟨k, .head ⟨rfl, mem_after.1 hj, hnone.symm⟩ hglide, hk⟩
  · rintro ⟨j, hglide, hj⟩
    have hreach : ∀ x, g.Glide x ⟨j, []⟩ → x.rest = [] → Sees g g.forward x.block .exit := by
      intro x hx
      induction hx using Relation.ReflTransGen.head_induction_on with
      | refl => exact fun _ => .ends (by rw [hends, hj]; exact List.mem_singleton.2 rfl)
      | @head x z hhop hz ih =>
        intro _
        obtain ⟨_, hedge, hrest⟩ := hhop
        have hempty : z.rest = [] := by
          by_contra hne
          cases Glide.eq_of_rest hz hne
          exact hne rfl
        refine .through (mem_after.2 hedge) ?_ (ih hempty)
        rw [meeting_forward, ← hrest, hempty]
        rfl
    exact hreach _ hglide rfl

theorem not_sees_forward_entry {g : FlowGraph} {i : BlockIndex} :
    ¬ Sees g g.forward i .entry := by
  intro h
  generalize hn : Neighbor.entry = n at h
  induction h with
  | @ends i n h =>
    subst hn
    have hends : g.forward.ends i = if (g.after i).isEmpty then [.exit] else [] := rfl
    rw [hends] at h
    split at h <;> simp at h
  | meets => cases hn
  | through _ _ _ ih => exact ih hn

/-- The neighbors that a location lists are those of its quad, at its point. -/
structure Located (g : FlowGraph) (l : Location) (i : BlockIndex) (rest : List Quad) : Prop where
  within : g.Within ⟨i, l.quad :: rest⟩
  quad_predecessors (id : QuadId) : .quad id ∈ l.predecessors ↔
    ∃ x, g.Behind id x ∧ g.Glide x ⟨i, l.quad :: rest⟩
  entry_predecessors : .entry ∈ l.predecessors ↔
    ∃ e, g.entry = some e ∧ g.Glide (g.start e) ⟨i, l.quad :: rest⟩
  exit_predecessors : .exit ∉ l.predecessors
  quad_successors (id : QuadId) : .quad id ∈ l.successors ↔
    ∃ y, g.Before id y ∧ g.Glide ⟨i, rest⟩ y
  exit_successors : .exit ∈ l.successors ↔
    ∃ j, g.Glide ⟨i, rest⟩ ⟨j, []⟩ ∧ g.after j = []
  entry_successors : .entry ∉ l.successors

/-- What comes before a quad that has these quads of its block before it. -/
def predecessorsAt (g : FlowGraph) (i : BlockIndex) (pre : List Quad) : List Neighbor :=
  match pre.getLast? with
  | some p => [.quad p.id]
  | none => g.entryNeighbors i

/-- What comes after a quad that has these quads of its block after it. -/
def successorsAt (g : FlowGraph) (i : BlockIndex) (rest : List Quad) : List Neighbor :=
  match rest.head? with
  | some s => [.quad s.id]
  | none => g.exitNeighbors i

section Sides
variable {g : FlowGraph} {i : BlockIndex} {q : Quad} {pre rest : List Quad}

theorem quad_mem_predecessorsAt (h : g.quadsAt i = pre ++ q :: rest) {id : QuadId} :
    .quad id ∈ g.predecessorsAt i pre ↔ ∃ x, g.Behind id x ∧ g.Glide x ⟨i, q :: rest⟩ := by
  rcases List.eq_nil_or_concat pre with rfl | ⟨init, p, rfl⟩
  · have hstart : g.start i = ⟨i, q :: rest⟩ := by rw [start, h]; rfl
    rw [← hstart, ← sees_backward_quad]
    exact mem_entryNeighbors
  · have hp : g.Within ⟨i, p :: q :: rest⟩ := ⟨init, by rw [h]; simp⟩
    have hlist : g.predecessorsAt i (init.concat p) = [.quad p.id] := by simp [predecessorsAt]
    rw [hlist, List.mem_singleton, Neighbor.quad.injEq]
    constructor
    · rintro rfl
      exact ⟨⟨i, q :: rest⟩, ⟨p, rfl, hp⟩, .refl⟩
    · rintro ⟨x, hx, hglide⟩
      cases Glide.eq_of_inside hglide (ne_of_cons_suffix hp)
      exact (hx.unique hp).symm

theorem entry_mem_predecessorsAt (h : g.quadsAt i = pre ++ q :: rest) :
    .entry ∈ g.predecessorsAt i pre ↔
      ∃ e, g.entry = some e ∧ g.Glide (g.start e) ⟨i, q :: rest⟩ := by
  rcases List.eq_nil_or_concat pre with rfl | ⟨init, p, rfl⟩
  · have hstart : g.start i = ⟨i, q :: rest⟩ := by rw [start, h]; rfl
    rw [← hstart, ← sees_backward_entry]
    exact mem_entryNeighbors
  · have hp : g.Within ⟨i, p :: q :: rest⟩ := ⟨init, by rw [h]; simp⟩
    have hlist : g.predecessorsAt i (init.concat p) = [.quad p.id] := by simp [predecessorsAt]
    rw [hlist, List.mem_singleton]
    constructor
    · intro heq
      cases heq
    · rintro ⟨e, _, hglide⟩
      have heq := Glide.eq_of_inside hglide (ne_of_cons_suffix hp)
      obtain ⟨rfl, hquads⟩ := Point.mk.inj heq
      exact absurd hquads.symm (ne_of_cons_suffix hp)

theorem exit_not_mem_predecessorsAt : .exit ∉ g.predecessorsAt i pre := by
  unfold predecessorsAt
  cases pre.getLast? with
  | some p => simp
  | none => exact fun hm => not_sees_backward_exit (mem_entryNeighbors.1 hm)

theorem quad_mem_successorsAt (h : g.Within ⟨i, rest⟩) {id : QuadId} :
    .quad id ∈ g.successorsAt i rest ↔ ∃ y, g.Before id y ∧ g.Glide ⟨i, rest⟩ y := by
  cases rest with
  | nil =>
    rw [← sees_forward_quad]
    exact mem_exitNeighbors
  | cons s rest =>
    show .quad id ∈ [Neighbor.quad s.id] ↔ _
    rw [List.mem_singleton, Neighbor.quad.injEq]
    constructor
    · rintro rfl
      exact ⟨⟨i, s :: rest⟩, ⟨s, rest, rfl, rfl, h⟩, .refl⟩
    · rintro ⟨y, hy, hglide⟩
      cases Glide.eq_of_rest hglide (List.cons_ne_nil s rest)
      exact hy.unique.symm

theorem exit_mem_successorsAt :
    .exit ∈ g.successorsAt i rest ↔ ∃ j, g.Glide ⟨i, rest⟩ ⟨j, []⟩ ∧ g.after j = [] := by
  cases rest with
  | nil =>
    rw [← sees_forward_exit]
    exact mem_exitNeighbors
  | cons s rest =>
    show .exit ∈ [Neighbor.quad s.id] ↔ _
    constructor
    · intro hm
      cases List.mem_singleton.1 hm
    · rintro ⟨j, hglide, _⟩
      cases Glide.eq_of_rest hglide (List.cons_ne_nil s rest)

theorem entry_not_mem_successorsAt : .entry ∉ g.successorsAt i rest := by
  unfold successorsAt
  cases rest.head? with
  | some s => simp
  | none => exact fun hm => not_sees_forward_entry (mem_exitNeighbors.1 hm)

end Sides

theorem located {g : FlowGraph} {l : Location} {i : BlockIndex} {pre rest : List Quad}
    (hquads : g.quadsAt i = pre ++ l.quad :: rest)
    (hpre : l.predecessors = g.predecessorsAt i pre)
    (hsucc : l.successors = g.successorsAt i rest) : g.Located l i rest := by
  have hwithin : g.Within ⟨i, l.quad :: rest⟩ := ⟨pre, hquads.symm⟩
  refine ⟨hwithin, fun id => ?_, ?_, ?_, fun id => ?_, ?_, ?_⟩
  · rw [hpre]
    exact quad_mem_predecessorsAt hquads
  · rw [hpre]
    exact entry_mem_predecessorsAt hquads
  · rw [hpre]
    exact exit_not_mem_predecessorsAt
  · rw [hsucc]
    exact quad_mem_successorsAt hwithin.tail
  · rw [hsucc]
    exact exit_mem_successorsAt
  · rw [hsucc]
    exact entry_not_mem_successorsAt

end Dataflow.FlowGraph
