import Dataflow.Proofs.Tables
import Dataflow.Schema.Decode

/-! # Graphs hold together

Edits change the parts of a graph one by one, and an erasure drops the home of a quad before it
looks into the block. Still the parts agree after every history, so that look-ups by identity
find exactly the quads that blocks hold.
-/
namespace Dataflow

namespace FlowGraph

variable {g : FlowGraph}

/-- What is read from text is built from an outline. -/
theorem built_of_reader {fuel : Nat} {text rest : List Char}
    (h : reader fuel text = .ok (g, rest)) : g.Built := by
  obtain ⟨⟨o, text⟩, _, h⟩ := bind_eq_ok.1 h
  cases ho : ofOutline o with
  | error e =>
    simp only [ho] at h
    cases h
  | ok k =>
    simp only [ho] at h
    cases h
    exact built_ofOutline ho

theorem Coherent.ids_disjoint (hg : g.Coherent) {i j : BlockIndex} {b c : Block}
    (hb : g.blocks.get? i = some b) (hc : g.blocks.get? j = some c) (hne : i ≠ j) :
    b.ids.Disjoint c.ids := by
  intro id hib hic
  have hhome := hg.homes_iff.2 ⟨b, hb, hib⟩
  rw [hg.homes_iff.2 ⟨c, hc, hic⟩] at hhome
  exact hne (Option.some.inj hhome).symm

theorem Coherent.quad_ids_nodup (hg : g.Coherent) : (g.quads.map Quad.id).Nodup := by
  rw [quads, List.map_flatMap]
  refine List.nodup_flatMap.2 ⟨fun b hb => ?_, ?_⟩
  · obtain ⟨i, hi⟩ := OrderedMap.mem_values_iff.1 hb
    exact hg.ids_nodup hi
  · rw [blockList, OrderedMap.values, List.pairwise_map]
    apply (List.pairwise_map.1 g.blocks.keys_nodup).imp_of_mem
    rintro ⟨i, b⟩ ⟨j, c⟩ hb hc hne
    exact hg.ids_disjoint (OrderedMap.mem_entries_iff.1 hb) (OrderedMap.mem_entries_iff.1 hc) hne

theorem Coherent.mem_homes_keys (hg : g.Coherent) {id : QuadId} :
    id ∈ g.homes.keys ↔ id ∈ g.quads.map Quad.id := by
  rw [OrderedMap.mem_keys_iff, List.mem_map]
  constructor
  · rintro ⟨i, hi⟩
    obtain ⟨b, hb, hid⟩ := hg.homes_iff.1 hi
    obtain ⟨q, hq, rfl⟩ := List.mem_map.1 hid
    exact ⟨q, mem_quads.2 ⟨i, b, hb, hq⟩, rfl⟩
  · rintro ⟨q, hq, rfl⟩
    obtain ⟨i, b, hb, hq⟩ := mem_quads.1 hq
    exact ⟨i, hg.homes_iff.2 ⟨b, hb, List.mem_map.2 ⟨q, hq, rfl⟩⟩⟩

theorem Coherent.quad_eq_ok (hg : g.Coherent) {id : QuadId} {q : Quad} :
    g.quad id = .ok q ↔ ∃ i b, g.blocks.get? i = some b ∧ q ∈ b.quads ∧ q.id = id := by
  constructor
  · intro h
    obtain ⟨⟨b, r⟩, hfind, h⟩ := bind_eq_ok.1 h
    cases h
    exact ⟨b.index, b, hg.find_eq_ok.1 hfind⟩
  · rintro ⟨i, b, hb, hq, hid⟩
    have hfind : g.find id = .ok (b, q) :=
      hg.find_eq_ok.2 ⟨by rw [hg.index_eq hb]; exact hb, hq, hid⟩
    exact bind_eq_ok.2 ⟨(b, q), hfind, rfl⟩

/-- Looking up an identity fails at its home, if at all. -/
theorem Coherent.find_eq_error (hg : g.Coherent) {id : QuadId} (h : id ∉ g.quads.map Quad.id) :
    g.find id = .error (.unknownQuad id) := by
  have hhome : g.homes.get? id = none := by
    cases hi : g.homes.get? id with
    | none => rfl
    | some i => exact absurd (hg.mem_homes_keys.1 (OrderedMap.mem_keys_iff.2 ⟨i, hi⟩)) h
  unfold find home
  rw [hhome]
  rfl

theorem Coherent.quad_eq_error (hg : g.Coherent) {id : QuadId} (h : id ∉ g.quads.map Quad.id) :
    g.quad id = .error (.unknownQuad id) := by
  unfold quad
  rw [hg.find_eq_error h]
  rfl

theorem Coherent.maxQuadId?_eq_none (hg : g.Coherent) : g.maxQuadId? = none ↔ g.quads = [] := by
  rw [maxQuadId?, List.getLast?_eq_none_iff, ← List.map_eq_nil_iff (f := Quad.id),
    List.eq_nil_iff_forall_not_mem, List.eq_nil_iff_forall_not_mem]
  exact forall_congr' fun id => not_congr hg.mem_homes_keys

theorem Coherent.maxQuadId?_eq_some (hg : g.Coherent) {m : QuadId} :
    g.maxQuadId? = some m ↔
      m ∈ g.quads.map Quad.id ∧ ∀ id ∈ g.quads.map Quad.id, id ≤ m := by
  have hle : ∀ {last : QuadId}, g.homes.keys.getLast? = some last →
      ∀ id ∈ g.quads.map Quad.id, id ≤ last := by
    intro last hlast id hid
    rcases OrderedMap.getLast?_keys (hg.mem_homes_keys.2 hid) hlast with heq | hlt
    · exact heq ▸ UInt64.le_refl id
    · exact UInt64.le_of_lt (by simpa using Std.compare_eq_lt.1 hlt)
  constructor
  · intro h
    exact ⟨hg.mem_homes_keys.1 (List.mem_of_getLast? h), hle h⟩
  · rintro ⟨hm, hmax⟩
    cases hlast : g.homes.keys.getLast? with
    | none =>
      have hkey := hg.mem_homes_keys.2 hm
      rw [List.getLast?_eq_none_iff.1 hlast] at hkey
      exact absurd hkey List.not_mem_nil
    | some last =>
      have hlast' := hg.mem_homes_keys.1 (List.mem_of_getLast? hlast)
      rw [maxQuadId?, hlast, UInt64.le_antisymm (hmax last hlast') (hle hlast m hm)]

end FlowGraph

open FlowGraph

/-- Whatever edits follow the empty graph, one made of quads, of an outline or of text, and
whether they are done or refused, the parts of the graph agree and look-ups answer for the blocks. -/
theorem graph_parts_agree {start g : FlowGraph}
    (hstart : start = ∅ ∨ (∃ quads, ofQuads quads = .ok start) ∨
      (∃ o, ofOutline o = .ok start) ∨
      ∃ fuel text rest, FlowGraph.reader fuel text = .ok (start, rest))
    (hedits : Relation.ReflTransGen Edited start g) :
    g.Coherent ∧ (g.quads.map Quad.id).Nodup ∧
      (∀ id q, g.quad id = .ok q ↔ ∃ i b, g.blocks.get? i = some b ∧ q ∈ b.quads ∧ q.id = id) ∧
      (∀ id, id ∉ g.quads.map Quad.id → g.quad id = .error (.unknownQuad id)) ∧
      (g.maxQuadId? = none ↔ g.quads = []) ∧
      ∀ m, g.maxQuadId? = some m ↔
        m ∈ g.quads.map Quad.id ∧ ∀ id ∈ g.quads.map Quad.id, id ≤ m := by
  have hbuilt : start.Built := by
    rcases hstart with rfl | ⟨quads, hquads⟩ | ⟨o, ho⟩ | ⟨fuel, text, rest, hread⟩
    · exact .refl
    · exact built_ofQuads hquads
    · exact built_ofOutline ho
    · exact built_of_reader hread
  have hg : g.Coherent := Built.coherent (hbuilt.trans hedits)
  exact ⟨hg, hg.quad_ids_nodup, fun _ _ => hg.quad_eq_ok, fun _ => hg.quad_eq_error,
    hg.maxQuadId?_eq_none, fun _ => hg.maxQuadId?_eq_some⟩

/-- Two quads, then a block that is refused since it repeats an identity, and two erasures of
one quad, of which the second is refused. -/
theorem graph_parts_agree_after_refusals :
    ∃ start, ofQuads [⟨4, .nullCheck ⟨"x"⟩⟩, ⟨9, .nop⟩] = .ok start ∧
      ∃ g, g = (eraseQuad 9 (eraseQuad 9 (insertBlock ⟨1, [⟨4, .nop⟩]⟩ start).state).state).state ∧
        g.Coherent ∧ g.maxQuadId? = some 4 ∧ g.quad 9 = .error (.unknownQuad 9) := by
  obtain ⟨start, hstart, hids⟩ : ∃ start,
      ofQuads [⟨4, .nullCheck ⟨"x"⟩⟩, ⟨9, .nop⟩] = .ok start ∧
      (eraseQuad 9 (eraseQuad 9
        (insertBlock ⟨1, [⟨4, .nop⟩]⟩ start).state).state).state.quads.map Quad.id = [4] :=
    ⟨_, rfl, rfl⟩
  obtain ⟨hg, _, _, herror, _, hmax⟩ := graph_parts_agree (.inr (.inl ⟨_, hstart⟩))
    (((Relation.ReflTransGen.single (.insertBlock start ⟨1, [⟨4, .nop⟩]⟩)).tail
      (.eraseQuad _ 9)).tail (.eraseQuad _ 9))
  refine ⟨start, hstart, _, rfl, hg, (hmax 4).2 ?_, herror 9 ?_⟩
  · rw [hids]
    simp
  · rw [hids]
    decide

end Dataflow
