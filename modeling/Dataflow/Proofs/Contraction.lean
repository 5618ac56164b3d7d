import Dataflow.Proofs.BlockPaths
import Dataflow.Proofs.Failing
import Dataflow.Proofs.Idempotence

/-! # What erasing a quad does to its neighbors

Where a quad is gone the flow goes on from the point before it to the point behind it. So a glide
of the new graph is a slide of the old one, that hops and passes the quad as often as it comes by.
All that matters of a slide is how it comes to the quad for the first time and how it goes on from
there after the last: the neighbors of the quad become neighbors of each other.
-/
namespace Dataflow.FlowGraph

open Pass.Eliminated (left left_cons_of_mem left_cons_of_not_mem)

variable {g h : FlowGraph} {id : QuadId} {i j k : BlockIndex} {c q r : Quad}
  {rest tail after : List Quad} {x y z : Point}

theorem left_cons_of_ne (hid : q.id ≠ id) : left [id] (q :: rest) = q :: left [id] rest :=
  left_cons_of_not_mem fun hm => hid (List.mem_singleton.1 hm)

/-- The flow hops, or passes the quad that is to go. -/
inductive Slip (g : FlowGraph) (id : QuadId) : Point → Point → Prop
  | hop {x y : Point} : g.Hop x y → Slip g id x y
  | pass {i : BlockIndex} {q : Quad} {rest : List Quad} :
      q.id = id → Slip g id ⟨i, q :: rest⟩ ⟨i, rest⟩

abbrev Slide (g : FlowGraph) (id : QuadId) : Point → Point → Prop :=
  Relation.ReflTransGen (g.Slip id)

theorem Slide.within (hslide : g.Slide id x y) (hx : g.Within x) : g.Within y := by
  induction hslide with
  | refl => exact hx
  | tail _ hslip ih =>
    cases hslip with
    | hop hhop => exact ⟨[], hhop.2.2⟩
    | pass => exact ih.tail

namespace Point

/-- What becomes of a point when the quad goes. -/
def without (x : Point) (id : QuadId) : Point := ⟨x.block, left [id] x.rest⟩

/-- The quad is not the next to come. -/
def Clear (x : Point) (id : QuadId) : Prop := ∀ q ∈ x.rest.head?, q.id ≠ id

theorem clear_cons (hid : q.id ≠ id) : Clear ⟨i, q :: rest⟩ id := by
  intro r hr
  cases hr
  exact hid

theorem Clear.rest_eq_nil (hx : x.Clear id) (hleft : left [id] x.rest = []) : x.rest = [] := by
  obtain ⟨i, rest⟩ := x
  cases rest with
  | nil => rfl
  | cons q rest =>
    rw [left_cons_of_ne (hx q rfl)] at hleft
    cases hleft

theorem Clear.exists_rest (hx : x.Clear id) (hleft : left [id] x.rest = q :: rest) :
    ∃ tail, x.rest = q :: tail := by
  obtain ⟨i, quads⟩ := x
  cases quads with
  | nil => cases hleft
  | cons r tail =>
    rw [left_cons_of_ne (hx r rfl)] at hleft
    obtain ⟨rfl, _⟩ := List.cons.inj hleft
    exact ⟨tail, rfl⟩

end Point

/-- From every point the flow slides past the quad, if that comes next. -/
theorem exists_clear (g : FlowGraph) (id : QuadId) (x : Point) :
    ∃ y, g.Slide id x y ∧ y.without id = x.without id ∧ y.Clear id := by
  obtain ⟨i, rest⟩ := x
  induction rest with
  | nil => exact ⟨⟨i, []⟩, .refl, rfl, fun q hq => by cases hq⟩
  | cons q rest ih =>
    by_cases hid : q.id = id
    · obtain ⟨y, hslide, hsame, hclear⟩ := ih
      refine ⟨y, .head (.pass hid) hslide, hsame.trans ?_, hclear⟩
      rw [Point.without, Point.without, left_cons_of_mem (List.mem_singleton.2 hid)]
    · exact ⟨⟨i, q :: rest⟩, .refl, rfl, Point.clear_cons hid⟩

theorem Erased.start_without (he : g.Erased [id] h) (i : BlockIndex) :
    (g.start i).without id = h.start i := congrArg (Point.mk i) (he.quadsAt_eq i).symm

theorem Erased.within_without (he : g.Erased [id] h) (hx : g.Within x) :
    h.Within (x.without id) := by
  show left [id] x.rest <:+ h.quadsAt x.block
  rw [he.quadsAt_eq]
  exact List.IsSuffix.filter _ hx

theorem Erased.glide_of_slide (he : g.Erased [id] h) (hslide : g.Slide id x y) :
    h.Glide (x.without id) (y.without id) := by
  induction hslide with
  | refl => exact .refl
  | @tail y z _ hslip ih =>
    cases hslip with
    | hop hhop =>
      obtain ⟨hempty, hedge, hrest⟩ := hhop
      refine ih.tail ⟨?_, he.edges ▸ hedge, ?_⟩
      · show left [id] y.rest = []
        rw [hempty]
        rfl
      · show left [id] z.rest = h.quadsAt z.block
        rw [hrest, he.quadsAt_eq]
        rfl
    | @pass i q rest hid =>
      have hsame : Point.without ⟨i, q :: rest⟩ id = Point.without ⟨i, rest⟩ id :=
        congrArg (Point.mk i) (left_cons_of_mem (List.mem_singleton.2 hid))
      exact hsame ▸ ih

/-- A glide of the new graph is a slide of the old one, up to where it waits in front of a quad. -/
theorem Erased.exists_slide (he : g.Erased [id] h) (hglide : h.Glide (x.without id) z) :
    ∃ y, g.Slide id x y ∧ y.without id = z ∧ y.Clear id := by
  induction hglide with
  | refl => exact g.exists_clear id x
  | @tail u v _ hhop ih =>
    obtain ⟨y, hslide, rfl, hclear⟩ := ih
    obtain ⟨hempty, hedge, hrest⟩ := hhop
    obtain ⟨w, hon, hsame, hw⟩ := g.exists_clear id (g.start v.block)
    have hnil : y.rest = [] := hclear.rest_eq_nil hempty
    have hstart : g.Slip id y (g.start v.block) := .hop ⟨hnil, he.edges ▸ hedge, rfl⟩
    refine ⟨w, (hslide.tail hstart).trans hon, ?_, hw⟩
    rw [hsame, he.start_without]
    exact congrArg (Point.mk v.block) hrest.symm

/-- Of the points that become one only one has the quad behind it. -/
theorem Coherent.clear_unique (hg : g.Coherent) (hx : g.Within x) (hy : g.Within y)
    (hsame : x.without id = y.without id) (hxc : x.Clear id) (hyc : y.Clear id) : x = y := by
  obtain ⟨i, rest⟩ := x
  obtain ⟨j, tail⟩ := y
  obtain ⟨rfl, hleft⟩ := Point.mk.inj hsame
  cases rest with
  | nil => exact congrArg (Point.mk i) (hyc.rest_eq_nil hleft.symm).symm
  | cons q rest =>
    rw [left_cons_of_ne (hxc q rfl)] at hleft
    obtain ⟨tail', rfl⟩ : ∃ tail', tail = q :: tail' := hyc.exists_rest hleft.symm
    obtain ⟨_, _, rfl⟩ := hg.point_unique hx hy rfl
    rfl

theorem Coherent.glide_without_iff_slide (hg : g.Coherent) (he : g.Erased [id] h)
    (hx : g.Within x) (hy : g.Within y) (hclear : y.Clear id) :
    h.Glide (x.without id) (y.without id) ↔ g.Slide id x y := by
  constructor
  · intro hglide
    obtain ⟨z, hslide, hsame, hz⟩ := he.exists_slide hglide
    exact hg.clear_unique (hslide.within hx) hy hsame hz hclear ▸ hslide
  · exact he.glide_of_slide

/-- A slide is a glide, or it glides to the quad and glides on from behind it. -/
theorem Coherent.slide_iff (hg : g.Coherent) (hc : g.Within ⟨k, c :: after⟩) (hx : g.Within x) :
    g.Slide c.id x y ↔ g.Glide x y ∨ g.Glide x ⟨k, c :: after⟩ ∧ g.Glide ⟨k, after⟩ y := by
  constructor
  · intro hslide
    -- a slide that has come by the quad may come by again, and goes on from there once more
    induction hslide with
    | refl => exact .inl .refl
    | @tail y z hslide hslip ih =>
      cases hslip with
      | hop hhop => exact ih.imp (.tail · hhop) fun ⟨hto, hon⟩ => ⟨hto, hon.tail hhop⟩
      | pass hid =>
        obtain ⟨rfl, rfl, rfl⟩ := hg.point_unique (Slide.within hslide hx) hc hid
        exact .inr ⟨ih.elim (fun hto => hto) fun hto => hto.1, .refl⟩
  · have hslide : ∀ {u v}, g.Glide u v → g.Slide c.id u v := fun hglide =>
      hglide.lift (fun u => u) fun _ _ => .hop
    rintro (hglide | ⟨hto, hon⟩)
    · exact hslide hglide
    · exact ((hslide hto).tail (.pass rfl)).trans (hslide hon)

theorem Coherent.glide_without_iff (hg : g.Coherent) (he : g.Erased [c.id] h)
    (hc : g.Within ⟨k, c :: after⟩) (hx : g.Within x) (hy : g.Within y) (hclear : y.Clear c.id) :
    h.Glide (x.without c.id) (y.without c.id) ↔
      g.Glide x y ∨ g.Glide x ⟨k, c :: after⟩ ∧ g.Glide ⟨k, after⟩ y := by
  rw [hg.glide_without_iff_slide he hx hy hclear, hg.slide_iff hc hx]

/-- There is one point before a quad, and one behind it. -/
theorem Coherent.exists_before_iff (hg : g.Coherent) (hq : g.Within ⟨i, q :: rest⟩)
    (P : Point → Prop) : (∃ y, g.Before q.id y ∧ P y) ↔ P ⟨i, q :: rest⟩ := by
  constructor
  · rintro ⟨⟨j, _⟩, ⟨r, tail, hid, rfl, hr⟩, hP⟩
    obtain ⟨rfl, rfl, rfl⟩ := hg.point_unique hr hq hid
    exact hP
  · exact fun hP => ⟨_, ⟨q, rest, rfl, rfl, hq⟩, hP⟩

theorem Coherent.exists_behind_iff (hg : g.Coherent) (hq : g.Within ⟨i, q :: rest⟩)
    (P : Point → Prop) : (∃ y, g.Behind q.id y ∧ P y) ↔ P ⟨i, rest⟩ := by
  constructor
  · rintro ⟨⟨j, tail⟩, ⟨r, hid, hr⟩, hP⟩
    obtain ⟨rfl, _, rfl⟩ := hg.point_unique hr hq hid
    exact hP
  · exact fun hP => ⟨⟨i, rest⟩, ⟨q, rfl, hq⟩, hP⟩

/-- The neighbors of a quad, by the points that the flow glides between. -/
structure Neighboring (g : FlowGraph) (i : BlockIndex) (q : Quad) (rest : List Quad)
    (before after : List Neighbor) : Prop where
  within : g.Within ⟨i, q :: rest⟩
  predecessors : g.predecessors q.id = .ok before
  successors : g.successors q.id = .ok after
  quad_before {j : BlockIndex} {r : Quad} {tail : List Quad} : g.Within ⟨j, r :: tail⟩ →
    (.quad r.id ∈ before ↔ g.Glide ⟨j, tail⟩ ⟨i, q :: rest⟩)
  entry_before : .entry ∈ before ↔ ∃ e, g.entry = some e ∧ g.Glide (g.start e) ⟨i, q :: rest⟩
  quad_after {j : BlockIndex} {r : Quad} {tail : List Quad} : g.Within ⟨j, r :: tail⟩ →
    (.quad r.id ∈ after ↔ g.Glide ⟨i, rest⟩ ⟨j, r :: tail⟩)
  exit_after : .exit ∈ after ↔ ∃ j, g.Glide ⟨i, rest⟩ ⟨j, []⟩ ∧ g.after j = []

theorem Coherent.exists_neighboring (hg : g.Coherent) (hq : g.Within ⟨i, q :: rest⟩) :
    ∃ before after, g.Neighboring i q rest before after := by
  obtain ⟨b, hb⟩ := exists_block_of_within hq
  obtain ⟨pre, hquads⟩ := hq
  rw [quadsAt_eq hb] at hquads
  have hat : g.quadsAt i = pre ++ q :: rest := (quadsAt_eq hb).trans hquads.symm
  have hwithin : g.Within ⟨i, q :: rest⟩ := ⟨pre, hat.symm⟩
  refine ⟨g.predecessorsAt i pre, g.successorsAt i rest, hwithin, hg.predecessors_at hb hquads.symm,
    hg.successors_at hb hquads.symm, fun hr => ?_, entry_mem_predecessorsAt hat, fun hr => ?_,
    exit_mem_successorsAt⟩
  · rw [quad_mem_predecessorsAt hat, hg.exists_behind_iff hr (g.Glide · ⟨i, q :: rest⟩)]
  · rw [quad_mem_successorsAt hwithin.tail, hg.exists_before_iff hr]

namespace Neighboring

variable {before next before' next' gone gone' : List Neighbor}

theorem quad_after_erased (hg : g.Coherent) (he : g.Erased [c.id] h)
    (old : g.Neighboring i q rest before next) (hc : g.Neighboring k c after gone gone')
    (new : h.Neighboring i q (left [c.id] rest) before' next')
    (hr : g.Within ⟨j, r :: tail⟩) (hid : r.id ≠ c.id) :
    .quad r.id ∈ next' ↔ .quad r.id ∈ next ∨ .quad c.id ∈ next ∧ .quad r.id ∈ gone' := by
  have hpoint : Point.without ⟨j, r :: tail⟩ c.id = ⟨j, r :: left [c.id] tail⟩ :=
    congrArg (Point.mk j) (left_cons_of_ne hid)
  rw [new.quad_after (hpoint ▸ he.within_without hr), old.quad_after hr, old.quad_after hc.within,
    hc.quad_after hr, ← hpoint]
  exact hg.glide_without_iff he hc.within old.within.tail hr (Point.clear_cons hid)

theorem exit_after_erased (hg : g.Coherent) (he : g.Erased [c.id] h)
    (old : g.Neighboring i q rest before next) (hc : g.Neighboring k c after gone gone')
    (new : h.Neighboring i q (left [c.id] rest) before' next') :
    .exit ∈ next' ↔ .exit ∈ next ∨ .quad c.id ∈ next ∧ .exit ∈ gone' := by
  have hafter : ∀ j, h.after j = g.after j := by
    intro j
    rw [FlowGraph.after, FlowGraph.after, he.edges]
  have hglide : ∀ j, h.Glide ⟨i, left [c.id] rest⟩ ⟨j, []⟩ ↔ g.Glide ⟨i, rest⟩ ⟨j, []⟩ ∨
      g.Glide ⟨i, rest⟩ ⟨k, c :: after⟩ ∧ g.Glide ⟨k, after⟩ ⟨j, []⟩ := fun j =>
    hg.glide_without_iff he hc.within old.within.tail (y := ⟨j, []⟩) List.nil_suffix
      fun q hq => by cases hq
  rw [new.exit_after, old.exit_after, hc.exit_after, old.quad_after hc.within]
  simp only [hglide, hafter, or_and_right, exists_or, and_assoc, exists_and_left]

theorem entry_before_erased (hg : g.Coherent) (he : g.Erased [c.id] h)
    (old : g.Neighboring i q rest before next) (hc : g.Neighboring k c after gone gone')
    (new : h.Neighboring i q (left [c.id] rest) before' next') (hid : q.id ≠ c.id) :
    .entry ∈ before' ↔ .entry ∈ before ∨ .quad c.id ∈ before ∧ .entry ∈ gone := by
  have hpoint : Point.without ⟨i, q :: rest⟩ c.id = ⟨i, q :: left [c.id] rest⟩ :=
    congrArg (Point.mk i) (left_cons_of_ne hid)
  have hglide : ∀ e, h.Glide (h.start e) ⟨i, q :: left [c.id] rest⟩ ↔
      g.Glide (g.start e) ⟨i, q :: rest⟩ ∨
        g.Glide (g.start e) ⟨k, c :: after⟩ ∧ g.Glide ⟨k, after⟩ ⟨i, q :: rest⟩ := by
    intro e
    rw [← he.start_without, ← hpoint]
    exact hg.glide_without_iff he hc.within (g.within_start e) old.within (Point.clear_cons hid)
  rw [new.entry_before, old.entry_before, hc.entry_before, old.quad_before hc.within, he.entry,
    and_comm]
  simp only [hglide, and_or_left, exists_or, ← and_assoc, exists_and_right]

end Neighboring

/-- Erasing keeps the order of what is left, in each block and over all. -/
theorem Erased.quads_eq (he : g.Erased [id] h) :
    h.quads = g.quads.filter (fun q => q.id ≠ id) := by
  have hleft : ∀ b : Block, (b.without [id]).quads = b.quads.filter (fun q => q.id ≠ id) := by
    intro b
    show b.quads.filter (fun q => !([id].contains q.id)) = _
    congr 1
    funext q
    simp
  rw [quads, quads, he.blockList_eq, List.flatMap_map, List.filter_flatMap]
  simp only [hleft]

theorem Erased.blockOrder_eq (he : g.Erased [id] h) : h.blockOrder = g.blockOrder := by
  refine blockOrder_congr ?_ he.edges he.entry
  rw [he.blocks_eq]
  simp [OrderedMap.keys, OrderedMap.map]

/-- A quad can be erased, and that contracts the graph of the quads: all else stays as it is, and
what came before the quad now has after it what came after the quad. -/
theorem erasing_contracts_quad_graph {g : FlowGraph} (built : g.Built) {c : Quad}
    (present : c ∈ g.quads) :
    ∃ h, (eraseQuad c.id).Yields g c h ∧ h.blocks = g.blocks.map (·.without [c.id]) ∧
      h.edges = g.edges ∧ h.entry = g.entry ∧ h.blockOrder = g.blockOrder ∧
      h.quads = g.quads.filter (fun q => q.id ≠ c.id) ∧
      ∃ gone gone', g.predecessors c.id = .ok gone ∧ g.successors c.id = .ok gone' ∧
        ∀ a ∈ g.quads, a.id ≠ c.id → ∃ before next before' next',
          g.predecessors a.id = .ok before ∧ g.successors a.id = .ok next ∧
          h.predecessors a.id = .ok before' ∧ h.successors a.id = .ok next' ∧
          (∀ b ∈ g.quads, b.id ≠ c.id →
            (.quad b.id ∈ next' ↔ .quad b.id ∈ next ∨ .quad c.id ∈ next ∧ .quad b.id ∈ gone')) ∧
          (.exit ∈ next' ↔ .exit ∈ next ∨ .quad c.id ∈ next ∧ .exit ∈ gone') ∧
          (.entry ∈ before' ↔ .entry ∈ before ∨ .quad c.id ∈ before ∧ .entry ∈ gone) := by
  have hg := built.coherent
  obtain ⟨k, after, hc⟩ := mem_quads_iff_within.1 present
  obtain ⟨h, herase⟩ := hg.exists_eraseQuad present
  have he := (hg.eraseQuad_erased herase).1
  have hh : h.Coherent := herase.state ▸ hg.eraseQuad c.id
  obtain ⟨gone, gone', hgone⟩ := hg.exists_neighboring hc
  refine ⟨h, herase, he.blocks_eq, he.edges, he.entry, he.blockOrder_eq, he.quads_eq, gone, gone',
    hgone.predecessors, hgone.successors, fun a ha hid => ?_⟩
  obtain ⟨i, rest, hat⟩ := mem_quads_iff_within.1 ha
  have hat' : h.Within ⟨i, a :: left [c.id] rest⟩ :=
    left_cons_of_ne hid ▸ he.within_without hat
  obtain ⟨before, next, hold⟩ := hg.exists_neighboring hat
  obtain ⟨before', next', hnew⟩ := hh.exists_neighboring hat'
  refine ⟨before, next, before', next', hold.predecessors, hold.successors, hnew.predecessors,
    hnew.successors, fun b hb hne => ?_, hold.exit_after_erased hg he hgone hnew,
    hold.entry_before_erased hg he hgone hnew hid⟩
  obtain ⟨j, tail, hbt⟩ := mem_quads_iff_within.1 hb
  exact hold.quad_after_erased hg he hgone hnew hbt hne

/-- The entry block loops, and holds one quad only. -/
def waistOutline : Outline where
  entry := some 0
  blocks := [⟨0, [⟨1, .nop⟩]⟩, ⟨1, []⟩, ⟨2, [⟨2, .nop⟩]⟩, ⟨3, [⟨3, .nop⟩]⟩, ⟨4, []⟩]
  edges := [⟨0, 0⟩, ⟨0, 1⟩, ⟨1, 2⟩, ⟨2, 3⟩, ⟨3, 0⟩, ⟨0, 4⟩]

theorem waist_contracted : ∃ g h before next,
    ofOutline waistOutline = .ok g ∧ (eraseQuad 1).Yields g ⟨1, .nop⟩ h ∧
    h.predecessors 2 = .ok before ∧ .entry ∈ before ∧
    h.successors 3 = .ok next ∧ .quad 2 ∈ next ∧ .exit ∈ next := by
  obtain ⟨g, hg, hquads, hbefore, hnext, hentry, hexit⟩ : ∃ g, ofOutline waistOutline = .ok g ∧
      g.quads = [⟨1, .nop⟩, ⟨2, .nop⟩, ⟨3, .nop⟩] ∧
      g.predecessors 2 = .ok [.quad 1] ∧ g.successors 3 = .ok [.quad 1] ∧
      (∃ ns, g.predecessors 1 = .ok ns ∧ .entry ∈ ns) ∧
      ∃ ns, g.successors 1 = .ok ns ∧ .quad 2 ∈ ns ∧ .exit ∈ ns :=
    ⟨_, rfl, rfl, rfl, rfl, ⟨_, rfl, by decide +kernel⟩, ⟨_, rfl, by decide +kernel⟩⟩
  have hmem : ∀ q ∈ [⟨1, .nop⟩, ⟨2, .nop⟩, ⟨3, .nop⟩], q ∈ g.quads := fun q hq => hquads ▸ hq
  obtain ⟨h, herase, _, _, _, _, _, gone, gone', hgone, hgone', hall⟩ :=
    erasing_contracts_quad_graph (built_ofOutline hg) (hmem ⟨1, .nop⟩ (by simp))
  obtain ⟨before, _, before', _, hb, _, hb', _, _, _, hbefore'⟩ :=
    hall ⟨2, .nop⟩ (hmem _ (by simp)) (by decide)
  obtain ⟨_, next, _, next', _, hn, _, hn', hquad', hexit', _⟩ :=
    hall ⟨3, .nop⟩ (hmem _ (by simp)) (by decide)
  obtain ⟨ns, hns, hentry⟩ := hentry
  obtain ⟨ns', hns', hquad, hexit⟩ := hexit
  cases hbefore.symm.trans hb
  cases hnext.symm.trans hn
  cases hns.symm.trans hgone
  cases hns'.symm.trans hgone'
  refine ⟨g, h, before', next', hg, herase, hb', hbefore'.2 (.inr ⟨by simp, hentry⟩), hn',
    (hquad' ⟨2, .nop⟩ (hmem _ (by simp)) (by decide)).2 (.inr ⟨by simp, hquad⟩),
    hexit'.2 (.inr ⟨by simp, hexit⟩)⟩

end Dataflow.FlowGraph
