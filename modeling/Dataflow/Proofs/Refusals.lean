import Dataflow.Proofs.Coherence

/-! # Refused edits

An edit is refused for a cause that can be read off the graph: a block for its index or for the
first of its quads whose identity is not new, an edge and an entry for a block that is not there,
an erasure for a quad that no block holds. Whatever the cause, the graph stays as it is. An
insertion has made all its checks before it changes a part. An erasure has dropped the home of the
quad by the time it looks into the block, but it never fails there, since the parts agree.
-/
namespace Dataflow.FlowGraph

variable {g : FlowGraph}

section Causes

/-- The first identity that is taken, or repeats one before it. -/
theorem firstRepeat?_eq_some {taken : QuadId → Bool} {seen ids : List QuadId} {id : QuadId} :
    firstRepeat? taken seen ids = some id ↔ ∃ pre post, ids = pre ++ id :: post ∧ pre.Nodup ∧
      (∀ j ∈ pre, taken j = false ∧ j ∉ seen) ∧ (taken id = true ∨ id ∈ seen ∨ id ∈ pre) := by
  induction ids generalizing seen with
  | nil => simp [firstRepeat?]
  | cons k ids ih =>
    rw [firstRepeat?]
    by_cases hk : taken k = true ∨ k ∈ seen
    · rw [if_pos (by simpa using hk)]
      constructor
      · intro h
        cases h
        exact ⟨[], ids, rfl, List.nodup_nil, by simp, hk.imp_right .inl⟩
      · rintro ⟨pre, post, heq, -, hpre, -⟩
        cases pre with
        | nil => simp_all
        | cons j pre =>
          obtain ⟨rfl, -⟩ := List.cons.inj heq
          have hj := hpre k List.mem_cons_self
          simp [hj] at hk
    · rw [if_neg (by simpa using hk), ih]
      have hfree : taken k = false ∧ k ∉ seen := by simpa using hk
      -- the head joins the identities in front of the repeat, or those seen
      constructor
      · rintro ⟨pre, post, rfl, hnd, hpre, hid⟩
        refine ⟨k :: pre, post, rfl, ?_, ?_, ?_⟩
        · exact List.nodup_cons.2 ⟨fun hm => (hpre k hm).2 List.mem_cons_self, hnd⟩
        · intro j hj
          rcases List.mem_cons.1 hj with rfl | hj
          · exact hfree
          · exact ⟨(hpre j hj).1, fun hm => (hpre j hj).2 (List.mem_cons_of_mem k hm)⟩
        · simpa only [List.mem_cons, or_assoc, or_left_comm] using hid
      · rintro ⟨pre, post, heq, hnd, hpre, hid⟩
        cases pre with
        | nil =>
          obtain ⟨rfl, -⟩ := List.cons.inj heq
          simp [hfree] at hid
        | cons j pre =>
          obtain ⟨rfl, rfl⟩ := List.cons.inj heq
          obtain ⟨hnot, hnd⟩ := List.nodup_cons.1 hnd
          refine ⟨pre, post, rfl, hnd, fun j hj => ?_, ?_⟩
          · have hfresh := hpre j (List.mem_cons_of_mem k hj)
            have hne : j ≠ k := fun heq => hnot (heq ▸ hj)
            simp [hfresh, hne]
          · simpa only [List.mem_cons, or_assoc, or_left_comm] using hid

/-- What is wrong with a block, given the indices and the identities that are there: its index or,
if that is new, the first of its quads whose identity is not. -/
inductive BlockOffence (known : BlockIndex → Prop) (taken : QuadId → Prop) (b : Block) :
    Error → Prop
  | index : known b.index → BlockOffence known taken b (.graph (.duplicateBlock b.index))
  | quad {pre post : List QuadId} {id : QuadId} : ¬ known b.index → b.ids = pre ++ id :: post →
      pre.Nodup → (∀ j ∈ pre, ¬ taken j) → (taken id ∨ id ∈ pre) →
      BlockOffence known taken b (.graph (.duplicateQuad id))

/-- What is wrong with an edge: its head or, if that is there, its tail. -/
inductive EdgeOffence (known : BlockIndex → Prop) (e : Edge) : Error → Prop
  | head : ¬ known e.head → EdgeOffence known e (.unknownBlock e.head)
  | tail : known e.head → ¬ known e.tail → EdgeOffence known e (.unknownBlock e.tail)

/-- There is a block under the index. -/
def Known (g : FlowGraph) (i : BlockIndex) : Prop := ∃ b, g.blocks.get? i = some b

/-- The identity has a home. -/
def Taken (g : FlowGraph) (id : QuadId) : Prop := ∃ i, g.homes.get? id = some i

theorem not_known_iff {i : BlockIndex} : ¬ g.Known i ↔ g.blocks.get? i = none := by
  rw [Known, Option.eq_none_iff_forall_ne_some, not_exists]

theorem not_taken_iff {id : QuadId} : ¬ g.Taken id ↔ g.homes.get? id = none := by
  rw [Taken, Option.eq_none_iff_forall_ne_some, not_exists]

theorem contains_homes_iff {id : QuadId} : g.homes.contains id = true ↔ g.Taken id :=
  Option.isSome_iff_exists

theorem insertBlock_eq_error {b : Block} {x : Error} :
    (insertBlock b g).result = .error x ↔ BlockOffence g.Known g.Taken b x := by
  have hknown : g.blocks.contains b.index = true ↔ g.Known b.index := Option.isSome_iff_exists
  have hnot (id : QuadId) : g.homes.contains id = false ↔ ¬ g.Taken id := by
    rw [← contains_homes_iff, Bool.not_eq_true]
  unfold insertBlock
  rw [Run.get_bind]
  by_cases hindex : g.Known b.index
  · rw [if_pos (hknown.2 hindex)]
    constructor
    · rintro ⟨⟩
      exact .index hindex
    · intro h
      cases h with
      | index _ => rfl
      | quad hnew => exact absurd hindex hnew
  · rw [if_neg (mt hknown.1 hindex)]
    cases hrepeat : firstRepeat? g.homes.contains [] b.ids with
    | some id =>
      constructor
      · rintro ⟨⟩
        obtain ⟨pre, post, heq, hnd, hpre, hid⟩ := firstRepeat?_eq_some.1 hrepeat
        refine .quad hindex heq hnd (fun j hj => (hnot j).1 (hpre j hj).1) ?_
        simpa [contains_homes_iff] using hid
      · intro h
        cases h with
        | index hold => exact absurd hold hindex
        | @quad pre post j _ heq hnd hpre hid =>
          have hfirst : firstRepeat? g.homes.contains [] b.ids = some j := by
            refine firstRepeat?_eq_some.2 ⟨pre, post, heq, hnd, fun k hk => ?_, ?_⟩
            · simp [(hnot k).2 (hpre k hk)]
            · simpa [contains_homes_iff] using hid
          rw [hrepeat] at hfirst
          cases hfirst
          rfl
    | none =>
      constructor
      · rintro ⟨⟩
      · intro h
        obtain ⟨hnodup, hfree⟩ := firstRepeat?_eq_none.1 hrepeat
        cases h with
        | index hold => exact absurd hold hindex
        | @quad pre post j _ heq _ _ hid =>
          have hj : j ∈ b.ids := by simp [heq]
          rcases hid with htaken | hmem
          · exact absurd htaken ((hnot j).1 (hfree j hj).1)
          · rw [heq] at hnodup
            exact absurd rfl ((List.nodup_append.1 hnodup).2.2 j hmem j List.mem_cons_self)

theorem insertEdge_eq_error {e : Edge} {x : Error} :
    (insertEdge e g).result = .error x ↔ EdgeOffence g.Known e x := by
  unfold insertEdge
  rcases g.block_cases e.head with ⟨b, hb, hhead⟩ | ⟨herror, hhead⟩
  · rcases g.block_cases e.tail with ⟨c, hc, htail⟩ | ⟨herror, htail⟩
    · simp only [Run.look_bind, hb, hc]
      constructor
      · rintro ⟨⟩
      · intro h
        cases h with
        | head hnot => exact absurd ⟨b, hhead⟩ hnot
        | tail _ hnot => exact absurd ⟨c, htail⟩ hnot
    · simp only [Run.look_bind, hb, herror]
      constructor
      · rintro ⟨⟩
        exact .tail ⟨b, hhead⟩ (not_known_iff.2 htail)
      · intro h
        cases h with
        | head hnot => exact absurd ⟨b, hhead⟩ hnot
        | tail _ _ => rfl
  · simp only [Run.look_bind, herror]
    constructor
    · rintro ⟨⟩
      exact .head (not_known_iff.2 hhead)
    · intro h
      cases h with
      | head _ => rfl
      | tail hknown _ => exact absurd hknown (not_known_iff.2 hhead)

theorem setEntry_eq_error {i : BlockIndex} {x : Error} :
    (setEntry i g).result = .error x ↔ ¬ g.Known i ∧ x = .unknownBlock i := by
  unfold setEntry
  rcases g.block_cases i with ⟨b, hb, hi⟩ | ⟨herror, hi⟩
  · simp only [Run.look_bind, hb]
    exact ⟨fun h => (by cases h), fun h => absurd ⟨b, hi⟩ h.1⟩
  · simp only [Run.look_bind, herror, not_known_iff.2 hi]
    exact ⟨fun h => (by cases h; simp), fun h => by rw [h.2]⟩

theorem Coherent.taken_iff (hg : g.Coherent) {id : QuadId} :
    g.Taken id ↔ id ∈ g.quads.map Quad.id := by
  rw [← hg.mem_homes_keys, OrderedMap.mem_keys_iff]
  rfl

/-- The quads of the graph lie in its blocks. -/
theorem mem_quad_ids_iff {id : QuadId} :
    id ∈ g.quads.map Quad.id ↔ ∃ b ∈ g.blockList, id ∈ b.ids := by
  rw [quads, List.map_flatMap, List.mem_flatMap]
  rfl

end Causes

section Refusals

variable {α : Type}

/-- The edit is refused in this case and in no other, and then the graph stays as it is. -/
def RefusedIf (edit : Run FlowGraph α) (g : FlowGraph) (cause : Prop) : Prop :=
  ((∃ x, (edit g).result = .error x) ↔ cause) ∧
    ∀ x, (edit g).result = .error x → (edit g).state = g

/-- An edit is either done, without the cause, or refused with it. -/
theorem refusedIf_of_cases {edit : Run FlowGraph α} {cause : Prop}
    (h : (¬ cause ∧ ∃ a, (edit g).result = .ok a) ∨ (cause ∧ ∃ x, edit g = ⟨.error x, g, []⟩)) :
    RefusedIf edit g cause := by
  rcases h with ⟨hnot, a, hok⟩ | ⟨hcause, x, heq⟩
  · refine ⟨iff_of_false ?_ hnot, ?_⟩ <;> simp [hok]
  · refine ⟨iff_of_true ⟨x, ?_⟩ hcause, ?_⟩ <;> simp [heq]

theorem Coherent.not_admits_iff (hg : g.Coherent) {b : Block} : ¬ g.Admits b ↔
    g.Known b.index ∨ (∃ id ∈ b.ids, id ∈ g.quads.map Quad.id) ∨ ¬ b.ids.Nodup := by
  constructor
  · intro hnot
    by_contra hfine
    simp only [not_or, not_exists, not_and, not_not] at hfine
    obtain ⟨hindex, hfree, hnodup⟩ := hfine
    refine hnot ⟨not_known_iff.1 hindex, hnodup, fun {id} hid => ?_⟩
    exact not_taken_iff.1 fun htaken => hfree id hid (hg.taken_iff.1 htaken)
  · rintro (hindex | ⟨id, hid, hquad⟩ | hrepeat) hb
    · exact not_known_iff.2 hb.index hindex
    · exact not_taken_iff.2 (hb.free hid) (hg.taken_iff.2 hquad)
    · exact hrepeat hb.nodup

theorem Coherent.refusedIf_insertBlock (hg : g.Coherent) (b : Block) :
    RefusedIf (FlowGraph.insertBlock b) g (g.Known b.index ∨
      (∃ id ∈ b.ids, id ∈ g.quads.map Quad.id) ∨ ¬ b.ids.Nodup) := by
  rw [← hg.not_admits_iff]
  apply refusedIf_of_cases
  rcases insertBlock_cases b g with ⟨hb, heq⟩ | ⟨hb, hrefused⟩
  · exact .inl ⟨not_not.2 hb, (), by rw [heq]⟩
  · exact .inr ⟨hb, hrefused⟩

theorem refusedIf_insertEdge (g : FlowGraph) (e : Edge) :
    RefusedIf (insertEdge e) g (¬ g.Known e.head ∨ ¬ g.Known e.tail) := by
  apply refusedIf_of_cases
  simp only [not_known_iff]
  rcases insertEdge_cases e g with ⟨⟨⟨b, hb⟩, c, hc⟩, heq⟩ | hrefused
  · exact .inl ⟨by simp [hb, hc], (), by rw [heq]⟩
  · exact .inr hrefused

theorem refusedIf_setEntry (g : FlowGraph) (i : BlockIndex) :
    RefusedIf (setEntry i) g (¬ g.Known i) := by
  apply refusedIf_of_cases
  rcases setEntry_cases i g with ⟨hknown, heq⟩ | ⟨hi, hrefused⟩
  · exact .inl ⟨not_not.2 hknown, (), by rw [heq]⟩
  · exact .inr ⟨not_known_iff.2 hi, hrefused⟩

theorem Coherent.refusedIf_eraseQuad (hg : g.Coherent) (id : QuadId) :
    RefusedIf (FlowGraph.eraseQuad id) g (∀ b ∈ g.blockList, id ∉ b.ids) := by
  have hheld : (∀ b ∈ g.blockList, id ∉ b.ids) ↔ ¬ g.Taken id := by
    simp only [hg.taken_iff, mem_quad_ids_iff, not_exists, not_and]
  rw [hheld]
  apply refusedIf_of_cases
  rcases hg.eraseQuad_cases id with ⟨b, q, hb, hq, hid, heq⟩ | ⟨hnone, heq⟩
  · have htaken : g.Taken id := ⟨b.index, hg.homes_iff.2 ⟨b, hb, List.mem_map.2 ⟨q, hq, hid⟩⟩⟩
    exact .inl ⟨not_not.2 htaken, q, by rw [heq]⟩
  · exact .inr ⟨not_taken_iff.2 hnone, _, heq⟩

end Refusals

/-- A graph that edits have led to, refused ones among them, refuses a block whose index or one of
whose identities is there already or that repeats an identity, an edge or an entry that names no
block, and the erasure of a quad that no block holds. It refuses nothing else, and a refused edit
changes none of its parts. -/
theorem refused_edits_change_nothing (hg : g.Built) :
    (∀ b, RefusedIf (insertBlock b) g (g.Known b.index ∨
      (∃ id ∈ b.ids, id ∈ g.quads.map Quad.id) ∨ ¬ b.ids.Nodup)) ∧
    (∀ e, RefusedIf (insertEdge e) g (¬ g.Known e.head ∨ ¬ g.Known e.tail)) ∧
    (∀ i, RefusedIf (setEntry i) g (¬ g.Known i)) ∧
    ∀ id, RefusedIf (eraseQuad id) g (∀ b ∈ g.blockList, id ∉ b.ids) :=
  ⟨hg.coherent.refusedIf_insertBlock, refusedIf_insertEdge g, refusedIf_setEntry g,
    hg.coherent.refusedIf_eraseQuad⟩

/-- A block whose second quad repeats one of the loop, an edge from outside, and a quad that the
loop lacks: the loop refuses them all and stays as it is. -/
theorem loop_unchanged_by_refused_edits : ∃ g, ofOutline loopOutline = .ok g ∧ g.Built ∧
    (insertBlock ⟨7, [⟨9, .nop⟩, ⟨2, .nop⟩]⟩ g).state = g ∧
    (insertEdge ⟨7, 0⟩ g).state = g ∧ (eraseQuad 9 g).state = g := by
  obtain ⟨g, hg, hids, hseven⟩ : ∃ g, ofOutline loopOutline = .ok g ∧
      g.quads.map Quad.id = [1, 2, 3] ∧ g.blocks.get? 7 = none := ⟨_, rfl, rfl, rfl⟩
  have hbuilt := built_ofOutline hg
  obtain ⟨hblock, hedge, _, herase⟩ := refused_edits_change_nothing hbuilt
  obtain ⟨x, hx⟩ := (hblock ⟨7, [⟨9, .nop⟩, ⟨2, .nop⟩]⟩).1.2
    (.inr (.inl ⟨2, by simp [Block.ids], by simp [hids]⟩))
  obtain ⟨y, hy⟩ := (hedge ⟨7, 0⟩).1.2 (.inl (not_known_iff.2 hseven))
  obtain ⟨z, hz⟩ := (herase 9).1.2 fun b hb hid => by
    have hmem := mem_quad_ids_iff.2 ⟨b, hb, hid⟩
    simp [hids] at hmem
  exact ⟨g, hg, hbuilt, (hblock _).2 x hx, (hedge _).2 y hy, (herase 9).2 z hz⟩

end Dataflow.FlowGraph
