import Dataflow.Problem
import Dataflow.Proofs.Locations
import Dataflow.Storage.EdgeStore
import Dataflow.Storage.NodeStore

/-! # Tables of values

A table by quad answers for the quads of its routine and for these only; setting one value
leaves the others. A table by edge is uniform at a quad if all its edges there carry one
value, and then that value is also the meet of them all.
-/
namespace Dataflow

namespace FlowGraph

theorem mem_quads {g : FlowGraph} {q : Quad} :
    q ∈ g.quads ↔ ∃ i b, g.blocks.get? i = some b ∧ q ∈ b.quads := by
  unfold quads blockList
  rw [List.mem_flatMap]
  constructor
  · rintro ⟨b, hb, hq⟩
    obtain ⟨i, hi⟩ := OrderedMap.mem_values_iff.1 hb
    exact ⟨i, b, hi, hq⟩
  · rintro ⟨i, b, hb, hq⟩
    exact ⟨b, OrderedMap.mem_values_iff.2 ⟨i, hb⟩, hq⟩

/-- The slots of a dense table reach up to every quad. -/
theorem Coherent.toNat_lt_slotCount {g : FlowGraph} (hg : g.Coherent) {size : Nat}
    (hsize : QuadTable.slotCount? g = some size) {q : Quad} (hq : q ∈ g.quads) :
    q.id.toNat < size := by
  obtain ⟨i, b, hb, hm⟩ := mem_quads.1 hq
  have hkey : q.id ∈ g.homes.keys := OrderedMap.mem_keys_iff.2
    ⟨i, hg.homes_iff.2 ⟨b, hb, List.mem_map.2 ⟨q, hm, rfl⟩⟩⟩
  unfold QuadTable.slotCount? maxQuadId? at hsize
  cases hlast : g.homes.keys.getLast? with
  | none =>
    rw [List.getLast?_eq_none_iff.1 hlast] at hkey
    exact absurd hkey List.not_mem_nil
  | some last =>
    have hle : q.id.toNat ≤ last.toNat := by
      rcases OrderedMap.getLast?_keys hkey hlast with heq | hlt
      · exact heq ▸ Nat.le_refl _
      · have hlt : q.id < last := by simpa using Std.compare_eq_lt.1 hlt
        exact Nat.le_of_lt (UInt64.lt_iff_toNat_lt.1 hlt)
    simp only [hlast, Option.ite_none_right_eq_some, Option.some_inj] at hsize
    omega

end FlowGraph

namespace QuadTable

variable {α : Type}

private theorem getElem?_foldl_fill (a : α) (k : Nat) (ids : List QuadId)
    (slots : Array (Option α)) (hids : ∀ id ∈ ids, id.toNat < slots.size) :
    (ids.foldl (fun slots id => slots.setIfInBounds id.toNat (some a)) slots)[k]? =
      if k ∈ ids.map UInt64.toNat then some (some a) else slots[k]? := by
  induction ids generalizing slots with
  | nil => simp
  | cons id ids ih =>
    obtain ⟨hid, hids⟩ := List.forall_mem_cons.1 hids
    rw [List.foldl_cons, ih _ (by simpa using hids), Array.getElem?_setIfInBounds]
    by_cases hk : id.toNat = k
    · simp [← hk, hid]
    · have hne : k ≠ id.toNat := fun heq => hk heq.symm
      simp [hk, hne]

/-- An array that reaches up to these identities holds the value for them and for no other. -/
theorem get?_denseOf {size : Nat} {ids : List QuadId} (h : ∀ id ∈ ids, id.toNat < size) (a : α)
    (id : QuadId) : (denseOf size ids a).get? id = if id ∈ ids then some a else none := by
  have hmem : id.toNat ∈ ids.map UInt64.toNat ↔ id ∈ ids := by
    simp [UInt64.toNat_inj]
  show (_ : Option (Option α)).join = _
  rw [getElem?_foldl_fill a id.toNat ids _ (by simpa using h)]
  by_cases hid : id ∈ ids
  · rw [if_pos (hmem.2 hid), if_pos hid]
    rfl
  · rw [if_neg (mt hmem.1 hid), if_neg hid, Array.getElem?_replicate]
    split <;> rfl

theorem get?_sparseOf (ids : List QuadId) (a : α) (id : QuadId) :
    (sparseOf ids a).get? id = if id ∈ ids then some a else none := by
  show OrderedMap.get? _ _ = _
  rw [OrderedMap.get?_foldl_set ids (fun id => id) (fun _ => a) ∅ id (fun _ _ _ => rfl),
    List.map_id', OrderedMap.get?_empty]

/-- A new table holds the initial value for the quads of the routine and for no other. -/
theorem get?_ofRoutine {f : Routine} (hf : f.graph.Coherent) (a : α) (id : QuadId) :
    (ofRoutine f a).get? id = if id ∈ f.quads.map Quad.id then some a else none := by
  unfold ofRoutine
  cases hsize : slotCount? f.graph with
  | none => exact get?_sparseOf ..
  | some size =>
    simp only []
    split
    · apply get?_denseOf
      intro j hj
      obtain ⟨q, hq, rfl⟩ := List.mem_map.1 hj
      exact hf.toNat_lt_slotCount hsize hq
    · exact get?_sparseOf ..

theorem get_eq_ok {v : QuadTable α} {id : QuadId} {a : α} :
    v.get id = .ok a ↔ v.get? id = some a := by
  unfold get
  cases v.get? id with
  | none => exact ⟨fun h => (by cases h), fun h => (by cases h)⟩
  | some b => exact ⟨fun h => by cases h; rfl, fun h => by cases h; rfl⟩

theorem get_ofRoutine {f : Routine} (hf : f.graph.Coherent) (a : α) {q : Quad}
    (hq : q ∈ f.quads) : (ofRoutine f a).get q.id = .ok a := by
  rw [get_eq_ok, get?_ofRoutine hf, if_pos (List.mem_map.2 ⟨q, hq, rfl⟩)]

theorem exists_get_of_set {v w : QuadTable α} {id : QuadId} {a : α} (h : v.set id a = .ok w) :
    ∃ b, v.get id = .ok b := by
  cases hget : v.get? id with
  | none =>
    unfold set at h
    rw [hget] at h
    cases h
  | some b => exact ⟨b, get_eq_ok.2 hget⟩

/-- A known quad can be given a new value; in either form, no other quad is touched. -/
theorem exists_get?_set {v : QuadTable α} {id : QuadId} {b : α} (h : v.get? id = some b) (a : α) :
    ∃ w, v.set id a = .ok w ∧ ∀ j, w.get? j = if j = id then some a else v.get? j := by
  have hsome : (v.get? id).isNone = false := by simp [h]
  cases v with
  | dense slots =>
    have hlt : id.toNat < slots.size := by
      by_contra hge
      have hnone : slots[id.toNat]? = none := Array.getElem?_eq_none (Nat.le_of_not_lt hge)
      simp [get?, hnone] at h
    refine ⟨dense (slots.setIfInBounds id.toNat (some a)), by simp [set, hsome], fun j => ?_⟩
    show (slots.setIfInBounds id.toNat (some a))[j.toNat]?.join = _
    rw [Array.getElem?_setIfInBounds]
    by_cases hj : j = id
    · simp [hj, hlt]
    · have hne : id.toNat ≠ j.toNat := fun heq => hj (UInt64.toNat_inj.1 heq).symm
      rw [if_neg hne, if_neg hj]
      rfl
  | sparse slots =>
    refine ⟨sparse (slots.set id a), by simp [set, hsome], fun j => ?_⟩
    exact OrderedMap.get?_set slots id j a

theorem exists_set {v : QuadTable α} {id : QuadId} {b : α} (h : v.get id = .ok b) (a : α) :
    ∃ w, v.set id a = .ok w ∧ w.get id = .ok a ∧ ∀ j, j ≠ id → w.get j = v.get j := by
  obtain ⟨w, hw, hget⟩ := exists_get?_set (get_eq_ok.1 h) a
  refine ⟨w, hw, by simp [get_eq_ok, hget], fun j hj => ?_⟩
  unfold get
  rw [hget, if_neg hj]

end QuadTable

/-- The edges of a location that have a value: those on the solved side or, if there are none,
the far end. -/
def Direction.slots (d : Direction) (l : Location) : List Neighbor :=
  if (d.outgoing l).isEmpty then [d.farEnd] else d.outgoing l

theorem Direction.slots_ne_nil (d : Direction) (l : Location) : d.slots l ≠ [] := by
  unfold slots
  split
  · exact List.cons_ne_nil _ _
  · rename_i h
    exact fun hnil => h (List.isEmpty_iff.2 hnil)

theorem Direction.mem_slots {d : Direction} {l : Location} {n : Neighbor}
    (h : n ∈ d.outgoing l) : n ∈ d.slots l := by
  unfold slots
  rwa [if_neg]
  intro hnil
  rw [List.isEmpty_iff.1 hnil] at h
  exact absurd h List.not_mem_nil

namespace EdgeTable

variable {α : Type}

/-- The quad has exactly these edges, and they all carry the same value. -/
def Uniform (v : EdgeTable α) (id : QuadId) (slots : List Neighbor) (a : α) : Prop :=
  ∃ edges, v.slots.get? id = some edges ∧ ∀ n, edges.get? n = if n ∈ slots then some a else none

theorem edges_eq_ok {v : EdgeTable α} {id : QuadId} {edges : OrderedMap Neighbor α} :
    v.edges id = .ok edges ↔ v.slots.get? id = some edges := by
  unfold EdgeTable.edges
  cases v.slots.get? id <;> simp

theorem get?_slotsFor (d : Direction) (l : Location) (a : α) (n : Neighbor) :
    (slotsFor (d.outgoing l) d.farEnd a).get? n = if n ∈ d.slots l then some a else none := by
  unfold slotsFor
  have hval : ∀ e ∈ (d.slots l).map (fun n => (n, a)), e.1 = n → e.2 = a := by
    intro e he _
    obtain ⟨m, _, rfl⟩ := List.mem_map.1 he
    rfl
  have hkeys : ((d.slots l).map (fun n => (n, a))).map Prod.fst = d.slots l := by
    rw [List.map_map]
    exact List.map_id _
  refine (OrderedMap.get?_ofList _ n hval).trans ?_
  simp only [hkeys]

/-- In a new table every quad is uniform. -/
theorem uniform_ofList (d : Direction) {ls : List Location} (hnd : (ls.map Location.id).Nodup)
    (a : α) {l : Location} (hl : l ∈ ls) :
    (⟨.ofList (ls.map (fun l => (l.id, slotsFor (d.outgoing l) d.farEnd a)))⟩ :
      EdgeTable α).Uniform l.id (d.slots l) a := by
  refine ⟨slotsFor (d.outgoing l) d.farEnd a, ?_, get?_slotsFor d l a⟩
  have hval : ∀ e ∈ ls.map (fun l => (l.id, slotsFor (d.outgoing l) d.farEnd a)),
      e.1 = l.id → e.2 = slotsFor (d.outgoing l) d.farEnd a := by
    intro e he hid
    obtain ⟨k, hk, rfl⟩ := List.mem_map.1 he
    cases List.inj_on_of_nodup_map hnd hk hl hid
    rfl
  have hkey : l.id ∈ (ls.map (fun l => (l.id, slotsFor (d.outgoing l) d.farEnd a))).map Prod.fst :=
    List.mem_map.2 ⟨_, List.mem_map.2 ⟨l, hl, rfl⟩, rfl⟩
  refine (OrderedMap.get?_ofList _ l.id hval).trans ?_
  rw [if_pos hkey]

theorem Uniform.get {v : EdgeTable α} {id : QuadId} {slots : List Neighbor} {a : α}
    (h : v.Uniform id slots a) {n : Neighbor} (hn : n ∈ slots) : v.get id n = .ok a := by
  obtain ⟨edges, hedges, hget⟩ := h
  refine bind_eq_ok.2 ⟨edges, edges_eq_ok.2 hedges, ?_⟩
  rw [hget, if_pos hn]
  rfl

/-- Giving an edge the value that all edges of the quad have changes nothing. -/
theorem Uniform.set_same {v : EdgeTable α} {id : QuadId} {slots : List Neighbor} {a : α}
    (h : v.Uniform id slots a) {n : Neighbor} (hn : n ∈ slots) : v.set id n a = .ok v := by
  obtain ⟨edges, hedges, hget⟩ := h
  have hsame : edges.set n a = edges := by
    apply OrderedMap.ext
    intro m
    rw [OrderedMap.get?_set]
    split
    · rename_i hm
      rw [hm, hget, if_pos hn]
    · rfl
  have hslots : v.slots.set id edges = v.slots := by
    apply OrderedMap.ext
    intro j
    rw [OrderedMap.get?_set]
    split
    · rename_i hj
      rw [hj, hedges]
    · rfl
  unfold EdgeTable.set
  rw [edges_eq_ok.2 hedges]
  show Except.ok (⟨v.slots.set id (edges.set n a)⟩ : EdgeTable α) = _
  rw [hsame, hslots]

/-- Over all edges of a quad, starting from a value that each of theirs turns into the same one,
the meet is that one. -/
theorem meetAll_eq {β : Type} [Fact β] {v : EdgeTable (FactSet β)} {id : QuadId}
    {edges : OrderedMap Neighbor (FactSet β)} {s a : FactSet β} (h : v.slots.get? id = some edges)
    (hne : edges.values ≠ []) (hs : ∀ b ∈ edges.values, s.meet b = a)
    (ha : ∀ b ∈ edges.values, a.meet b = a) : v.meetAll id s = .ok a := by
  have hstay : ∀ l : List (FactSet β), (∀ b ∈ l, a.meet b = a) → l.foldl FactSet.meet a = a := by
    intro l hl
    induction l with
    | nil => rfl
    | cons b l ih =>
      rw [List.foldl_cons, hl b List.mem_cons_self]
      exact ih fun c hc => hl c (List.mem_cons_of_mem b hc)
  unfold meetAll
  rw [edges_eq_ok.2 h]
  show Except.ok (edges.values.foldl FactSet.meet s) = _
  congr 1
  cases hvalues : edges.values with
  | nil => exact absurd hvalues hne
  | cons b l =>
    rw [hvalues] at hs ha
    rw [List.foldl_cons, hs b List.mem_cons_self]
    exact hstay l fun c hc => ha c (List.mem_cons_of_mem b hc)

theorem Uniform.meetAll_eq {β : Type} [Fact β] {v : EdgeTable (FactSet β)} {id : QuadId}
    {slots : List Neighbor} {s a : FactSet β} (h : v.Uniform id slots a) (hslots : slots ≠ [])
    (hs : s.meet a = a) (ha : a.meet a = a) : v.meetAll id s = .ok a := by
  obtain ⟨edges, hedges, hget⟩ := h
  obtain ⟨n, hn⟩ := List.exists_mem_of_ne_nil slots hslots
  have hmem : a ∈ edges.values := OrderedMap.mem_values_iff.2 ⟨n, by rw [hget, if_pos hn]⟩
  have hall : ∀ b ∈ edges.values, b = a := by
    intro b hb
    obtain ⟨m, hm⟩ := OrderedMap.mem_values_iff.1 hb
    rw [hget] at hm
    split at hm
    · exact (Option.some.inj hm).symm
    · cases hm
  exact EdgeTable.meetAll_eq hedges (List.ne_nil_of_mem hmem) (fun b hb => hall b hb ▸ hs)
    fun b hb => hall b hb ▸ ha

end EdgeTable

end Dataflow
