import Dataflow.Proofs.Tables
import Mathlib.Logic.Function.Basic

/-! # Tables by quad are finite maps

Whether a routine gets an array or a map is decided by its largest identity and the number of its
quads, in numbers that a word can hold. Either way the table has a value for every quad of the
routine and for nothing else, the last one that was set or else the initial one: an array has slots
for other numbers too, but they stay empty, and look-ups and changes fail there as they do outside.
-/
namespace Dataflow.QuadTable

variable {α : Type} {ids : List QuadId} {v : QuadTable α}

section Making

/-- Fills the slots of these identities one by one, and gives up at one that is not there. -/
def fill? (a : α) : List QuadId → Array (Option α) → Option (Array (Option α))
  | [], slots => some slots
  | id :: ids, slots =>
    if h : id.toNat < slots.size then fill? a ids (slots.set id.toNat (some a)) else none

theorem fill?_eq_some (a : α) (slots : Array (Option α)) (h : ∀ id ∈ ids, id.toNat < slots.size) :
    fill? a ids slots =
      some (ids.foldl (fun slots id => slots.setIfInBounds id.toNat (some a)) slots) := by
  induction ids generalizing slots with
  | nil => rfl
  | cons id ids ih =>
    obtain ⟨hid, hids⟩ := List.forall_mem_cons.1 h
    rw [fill?, dif_pos hid, ih _ (by simpa using hids), List.foldl_cons, Array.setIfInBounds,
      dif_pos hid]

theorem slotCount?_lt {g : FlowGraph} {size : Nat} (h : slotCount? g = some size) :
    size < UInt64.size := by
  unfold slotCount? at h
  cases hmax : g.maxQuadId? with
  | none =>
    simp only [hmax, Option.some_inj] at h
    rw [← h]
    decide
  | some id =>
    simp only [hmax, Option.ite_none_right_eq_some, Option.some_inj] at h
    omega

theorem isDense_ofRoutine {f : Routine} {a : α} : (ofRoutine f a).isDense = true ↔
    ∃ size, slotCount? f.graph = some size ∧ size ≤ 4 * f.quads.length + 64 := by
  unfold ofRoutine
  cases hsize : slotCount? f.graph with
  | none => simp [sparseOf, isDense]
  | some size =>
    have hlt := slotCount?_lt hsize
    have hlimit : size ≤ denseLimit f.quads.length ↔ size ≤ 4 * f.quads.length + 64 := by
      unfold denseLimit
      omega
    by_cases hle : size ≤ 4 * f.quads.length + 64
    · simp [hlimit, hle, denseOf, isDense]
    · simp [hlimit, hle, sparseOf, isDense]

end Making

section Serving

def write (s : QuadId × α) : Run (QuadTable α) Unit := Run.change (·.set s.1 s.2)

/-- The table has these values for these quads, and nothing else. -/
def Holds (v : QuadTable α) (ids : List QuadId) (value : QuadId → α) : Prop :=
  ∀ id, v.get? id = if id ∈ ids then some (value id) else none

variable {value : QuadId → α}

theorem Holds.get (h : v.Holds ids value) {id : QuadId} (hid : id ∈ ids) :
    v.get id = .ok (value id) := by
  rw [get_eq_ok, h id, if_pos hid]

theorem Holds.get_error (h : v.Holds ids value) {id : QuadId} (hid : id ∉ ids) :
    v.get id = .error (.unknownQuad id) := by
  unfold QuadTable.get
  rw [h id, if_neg hid]

theorem Holds.write_error (h : v.Holds ids value) {s : QuadId × α} (hs : s.1 ∉ ids) :
    write s v = ⟨.error (.unknownQuad s.1), v, []⟩ := by
  simp [write, Run.change, set, h s.1, hs]

theorem Holds.exists_write (h : v.Holds ids value) {s : QuadId × α} (hs : s.1 ∈ ids) :
    ∃ w, write s v = ⟨.ok (), w, []⟩ ∧ w.Holds ids (Function.update value s.1 s.2) := by
  have hget : v.get? s.1 = some (value s.1) := by rw [h s.1, if_pos hs]
  obtain ⟨w, hw, hother⟩ := exists_get?_set hget s.2
  refine ⟨w, by simp [write, Run.change, hw], fun id => ?_⟩
  rw [hother, h id]
  by_cases hid : id = s.1
  · simp [hid, hs]
  · simp [hid]

/-- Setting a value fails for a quad that has none, and changes nothing then. -/
theorem Holds.write (h : v.Holds ids value) (s : QuadId × α) :
    (write s v).result = (if s.1 ∈ ids then .ok () else .error (.unknownQuad s.1)) ∧
      (write s v).state.Holds ids (Function.update value s.1 s.2) := by
  by_cases hs : s.1 ∈ ids
  · obtain ⟨w, hw, hholds⟩ := h.exists_write hs
    rw [hw, if_pos hs]
    exact ⟨rfl, hholds⟩
  · rw [h.write_error hs, if_neg hs]
    refine ⟨rfl, fun id => ?_⟩
    rw [h id]
    by_cases hid : id ∈ ids
    · have hne : id ≠ s.1 := fun heq => hs (heq ▸ hid)
      simp [hid, hne]
    · simp [hid]

/-- After any number of changes each quad has the last value that it was given. -/
theorem Holds.session (h : v.Holds ids value) (sets : List (QuadId × α)) :
    (Run.session QuadTable.write sets v).1 =
        sets.map (fun s => if s.1 ∈ ids then .ok () else .error (.unknownQuad s.1)) ∧
      (Run.session QuadTable.write sets v).2.Holds ids
        (fun id => (sets.reverse.lookup id).getD (value id)) := by
  induction sets generalizing v value with
  | nil => exact ⟨rfl, h⟩
  | cons s sets ih =>
    obtain ⟨j, a⟩ := s
    obtain ⟨hresult, hstate⟩ := h.write (j, a)
    obtain ⟨hanswers, hend⟩ := ih hstate
    have hlast : (fun id => (((j, a) :: sets).reverse.lookup id).getD (value id)) =
        fun id => (sets.reverse.lookup id).getD (Function.update value j a id) := by
      funext id
      rw [List.reverse_cons, List.lookup_append]
      by_cases hid : id = j
      · simp [hid]
      · have hbeq : (id == j) = false := by simp [hid]
        simp [List.lookup_cons, hbeq, hid]
    rw [hlast, List.map_cons, ← hresult, ← hanswers]
    exact ⟨rfl, hend⟩

/-- The table has a value for each of these quads, and fails for every other one. -/
structure Serves (v : QuadTable α) (ids : List QuadId) (value : QuadId → α) : Prop where
  get_known {id : QuadId} : id ∈ ids → v.get id = .ok (value id)
  get_other {id : QuadId} : id ∉ ids → v.get id = .error (.unknownQuad id)
  write_known {id : QuadId} : id ∈ ids → ∀ a, ∃ w, QuadTable.write (id, a) v = ⟨.ok (), w, []⟩ ∧
    w.get id = .ok a ∧ ∀ j, j ≠ id → w.get j = v.get j
  write_other {id : QuadId} : id ∉ ids → ∀ a,
    QuadTable.write (id, a) v = ⟨.error (.unknownQuad id), v, []⟩

theorem Holds.serves (h : v.Holds ids value) : v.Serves ids value where
  get_known := h.get
  get_other := h.get_error
  write_known := by
    intro id hid a
    obtain ⟨w, hset, hget, hother⟩ := exists_set (h.get hid) a
    exact ⟨w, by simp [QuadTable.write, Run.change, hset], hget, hother⟩
  write_other hid _ := h.write_error hid

/-- Whatever has been set before, and whether that was refused or not, every quad has the last
value that it was given, or else the initial one. -/
def IsMap (v : QuadTable α) (ids : List QuadId) (initial : α) : Prop :=
  ∀ sets : List (QuadId × α),
    (Run.session QuadTable.write sets v).1 =
        sets.map (fun s => if s.1 ∈ ids then .ok () else .error (.unknownQuad s.1)) ∧
      (Run.session QuadTable.write sets v).2.Serves ids
        (fun id => (sets.reverse.lookup id).getD initial)

theorem isMap_of_get? {a : α} (h : ∀ id, v.get? id = if id ∈ ids then some a else none) :
    v.IsMap ids a := by
  intro sets
  have hv : v.Holds ids fun _ => a := h
  obtain ⟨hanswers, hend⟩ := hv.session sets
  exact ⟨hanswers, hend.serves⟩

end Serving

/-- No number on the way to a table leaves the range of a word and no slot is missed, and the
array, the map and the one that is chosen of them are the same finite map. -/
theorem quad_tables_are_finite_maps {f : Routine} (hf : f.graph.Built) (initial : α) :
    denseLimit f.quads.length < UInt64.size ∧
      (∀ size, slotCount? f.graph = some size → size < UInt64.size ∧
        ∃ slots, fill? initial (f.quads.map Quad.id) (Array.replicate size none) = some slots ∧
          denseOf size (f.quads.map Quad.id) initial = dense slots ∧
          (dense slots).IsMap (f.quads.map Quad.id) initial) ∧
      (sparseOf (f.quads.map Quad.id) initial).IsMap (f.quads.map Quad.id) initial ∧
      (ofRoutine f initial).IsMap (f.quads.map Quad.id) initial ∧
      ((ofRoutine f initial).isDense = true ↔
        ∃ size, slotCount? f.graph = some size ∧ size ≤ 4 * f.quads.length + 64) := by
  have hg := hf.coherent
  refine ⟨?_, fun size hsize => ⟨slotCount?_lt hsize, ?_⟩, isMap_of_get? (get?_sparseOf _ _),
    isMap_of_get? (get?_ofRoutine hg _), isDense_ofRoutine⟩
  · have hlt : UInt64.size - 1 < UInt64.size := by decide
    exact Nat.lt_of_le_of_lt (Nat.min_le_right _ _) hlt
  · have hids : ∀ id ∈ f.quads.map Quad.id, id.toNat < size := by
      intro id hid
      obtain ⟨q, hq, rfl⟩ := List.mem_map.1 hid
      exact hg.toNat_lt_slotCount hsize hq
    exact ⟨_, fill?_eq_some initial _ (by simpa using hids), rfl,
      isMap_of_get? (get?_denseOf hids initial)⟩

/-- The largest identity of all, beside a small one: an array would have too many slots. -/
theorem largest_identity_kept_in_map :
    ∃ g, FlowGraph.ofQuads [⟨3, .nop⟩, ⟨18446744073709551615, .nop⟩] = .ok g ∧
      ∃ v : QuadTable Nat, v = (Run.session write
          [(18446744073709551615, 7), (4, 1), (3, 5), (3, 6)] (ofRoutine ⟨"f", [], g⟩ 0)).2 ∧
        (ofRoutine ⟨"f", [], g⟩ 0).isDense = false ∧ v.get 3 = .ok 6 ∧
        v.get 18446744073709551615 = .ok 7 ∧ v.get 4 = .error (.unknownQuad 4) := by
  obtain ⟨g, hg, hids, hcount⟩ : ∃ g,
      FlowGraph.ofQuads [⟨3, .nop⟩, ⟨18446744073709551615, .nop⟩] = .ok g ∧
      g.quads.map Quad.id = [3, 18446744073709551615] ∧ slotCount? g = none := ⟨_, rfl, rfl, rfl⟩
  obtain ⟨_, _, _, hmap, hdense⟩ := quad_tables_are_finite_maps
    (f := ⟨"f", [], g⟩) (FlowGraph.built_ofQuads hg) 0
  obtain ⟨_, hserves⟩ := hmap [(18446744073709551615, 7), (4, 1), (3, 5), (3, 6)]
  simp only [Routine.quads, hids] at hserves
  refine ⟨g, hg, _, rfl, ?_, hserves.get_known (by decide), hserves.get_known (by decide),
    hserves.get_other (by decide)⟩
  rw [← Bool.not_eq_true, hdense]
  simp [hcount]

end Dataflow.QuadTable
