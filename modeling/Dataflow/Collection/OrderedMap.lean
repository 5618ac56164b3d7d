/-! # Finite maps in ascending order of keys

A map is the list of its entries, ascending in the key, so that it is determined
by its look-ups. `set` keeps the position of a known key and adds an unknown one.
-/
namespace Dataflow

structure OrderedMap (κ α : Type) [Ord κ] where
  entries : List (κ × α)
  ascending : entries.Pairwise (fun a b => compare a.1 b.1 = .lt)

namespace OrderedMap

variable {κ α β : Type} [Ord κ]

instance [DecidableEq κ] [DecidableEq α] : DecidableEq (OrderedMap κ α) := fun m n =>
  decidable_of_iff (m.entries = n.entries)
    ⟨fun h => by cases m; cases n; cases h; rfl, fun h => by rw [h]⟩

def empty : OrderedMap κ α := ⟨[], .nil⟩

instance : EmptyCollection (OrderedMap κ α) := ⟨empty⟩

instance : Inhabited (OrderedMap κ α) := ⟨∅⟩

def keys (m : OrderedMap κ α) : List κ := m.entries.map (·.1)

def values (m : OrderedMap κ α) : List α := m.entries.map (·.2)

def isEmpty (m : OrderedMap κ α) : Bool := m.entries.isEmpty

private def lookup (k : κ) : List (κ × α) → Option α
  | [] => none
  | e :: l => if compare k e.1 = .eq then some e.2 else lookup k l

def get? (m : OrderedMap κ α) (k : κ) : Option α := lookup k m.entries

def contains (m : OrderedMap κ α) (k : κ) : Bool := (m.get? k).isSome

@[simp] theorem get?_empty (k : κ) : (∅ : OrderedMap κ α).get? k = none := rfl

def map (f : α → β) (m : OrderedMap κ α) : OrderedMap κ β :=
  ⟨m.entries.map (fun e => (e.1, f e.2)), List.pairwise_map.2 m.ascending⟩

@[simp] theorem get?_map (f : α → β) (m : OrderedMap κ α) (k : κ) :
    (m.map f).get? k = (m.get? k).map f := by
  obtain ⟨l, _⟩ := m
  show lookup k (l.map _) = (lookup k l).map f
  induction l with
  | nil => rfl
  | cons e l ih =>
    simp only [List.map_cons, lookup]
    split
    · rfl
    · exact ih (List.pairwise_cons.1 ‹_›).2

/-- Takes the key out of the map. -/
def erase (m : OrderedMap κ α) (k : κ) : OrderedMap κ α :=
  ⟨m.entries.filter (fun e => compare k e.1 != .eq), m.ascending.filter _⟩

section Lawful

variable [Std.LawfulEqOrd κ]

@[simp] theorem get?_erase [DecidableEq κ] (m : OrderedMap κ α) (k j : κ) :
    (m.erase k).get? j = if j = k then none else m.get? j := by
  obtain ⟨l, h⟩ := m
  show lookup j (l.filter _) = if j = k then none else lookup j l
  clear h
  induction l with
  | nil => simp [lookup]
  | cons e l ih =>
    by_cases hk : compare k e.1 = .eq
    · obtain rfl := Std.LawfulEqOrd.eq_of_compare hk
      rw [List.filter_cons_of_neg (by simp), ih]
      by_cases hj : j = e.1
      · simp [hj]
      · simp [lookup, hj]
    · rw [List.filter_cons_of_pos (by simp [hk])]
      simp only [lookup, ih]
      by_cases hj : compare j e.1 = .eq
      · obtain rfl := Std.LawfulEqOrd.eq_of_compare hj
        have : ¬ e.1 = k := fun h => hk (by simp [h])
        simp [this]
      · simp [hj]

variable [Std.TransOrd κ]

private def setIn (k : κ) (v : α) : List (κ × α) → List (κ × α)
  | [] => [(k, v)]
  | e :: l => match compare k e.1 with
    | .lt => (k, v) :: e :: l
    | .eq => (k, v) :: l
    | .gt => e :: setIn k v l

omit [Std.TransOrd κ] [Std.LawfulEqOrd κ] in
private theorem fst_mem_setIn {k : κ} {v : α} {l : List (κ × α)} {e : κ × α}
    (h : e ∈ setIn k v l) : e.1 = k ∨ e ∈ l := by
  induction l with
  | nil => exact .inl (by rw [List.mem_singleton.1 h])
  | cons d l ih =>
    simp only [setIn] at h
    split at h
    · rcases List.mem_cons.1 h with rfl | h
      · exact .inl rfl
      · exact .inr h
    · rcases List.mem_cons.1 h with rfl | h
      · exact .inl rfl
      · exact .inr (List.mem_cons_of_mem _ h)
    · rcases List.mem_cons.1 h with rfl | h
      · exact .inr List.mem_cons_self
      · exact (ih h).imp id (List.mem_cons_of_mem _)

private theorem ascending_setIn (k : κ) (v : α) {l : List (κ × α)}
    (h : l.Pairwise (fun a b => compare a.1 b.1 = .lt)) :
    (setIn k v l).Pairwise (fun a b => compare a.1 b.1 = .lt) := by
  induction l with
  | nil => exact List.pairwise_singleton _ _
  | cons e l ih =>
    obtain ⟨he, hl⟩ := List.pairwise_cons.1 h
    simp only [setIn]
    split
    · rename_i hk
      refine List.pairwise_cons.2 ⟨fun d hd => ?_, h⟩
      rcases List.mem_cons.1 hd with rfl | hd
      · exact hk
      · exact Std.TransCmp.lt_trans hk (he d hd)
    · rename_i hk
      obtain rfl := Std.LawfulEqOrd.eq_of_compare hk
      exact List.pairwise_cons.2 ⟨he, hl⟩
    · rename_i hk
      refine List.pairwise_cons.2 ⟨fun d hd => ?_, ih hl⟩
      rcases fst_mem_setIn hd with hd | hd
      · rw [hd]
        exact Std.OrientedCmp.lt_of_gt hk
      · exact he d hd

def set (m : OrderedMap κ α) (k : κ) (v : α) : OrderedMap κ α :=
  ⟨setIn k v m.entries, ascending_setIn k v m.ascending⟩

@[simp] theorem get?_set [DecidableEq κ] (m : OrderedMap κ α) (k j : κ) (v : α) :
    (m.set k v).get? j = if j = k then some v else m.get? j := by
  obtain ⟨l, h⟩ := m
  show lookup j (setIn k v l) = if j = k then some v else lookup j l
  clear h
  induction l with
  | nil => simp [setIn, lookup]
  | cons e l ih =>
    simp only [setIn]
    split
    · simp [lookup]
    · rename_i hk
      obtain rfl := Std.LawfulEqOrd.eq_of_compare hk
      simp only [lookup, Std.compare_eq_iff_eq]
      split <;> simp_all
    · rename_i hk
      simp only [lookup, ih, Std.compare_eq_iff_eq]
      by_cases hj : j = e.1
      · subst hj
        have : ¬ e.1 = k := fun h => by simp [h] at hk
        simp [this]
      · simp [hj]

/-- The later of two entries with one key wins. -/
def ofList (l : List (κ × α)) : OrderedMap κ α := l.foldl (fun m e => m.set e.1 e.2) ∅

end Lawful

end OrderedMap

end Dataflow
