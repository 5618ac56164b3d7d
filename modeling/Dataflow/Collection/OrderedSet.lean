/-! # Finite sets in ascending order

A set is the ascending list of its elements, so two sets with the same elements
are equal. Every operation is described by membership alone.
-/
namespace Dataflow

structure OrderedSet (α : Type) [Ord α] where
  toList : List α
  ascending : toList.Pairwise (fun a b => compare a b = .lt)

namespace OrderedSet

variable {α : Type} [Ord α]

instance : Membership α (OrderedSet α) := ⟨fun s a => a ∈ s.toList⟩

instance [Std.LawfulEqOrd α] : DecidableEq (OrderedSet α) := fun s t =>
  let _ : DecidableEq α := fun a b => decidable_of_iff (compare a b = .eq) Std.compare_eq_iff_eq
  decidable_of_iff (s.toList = t.toList)
    ⟨fun h => by cases s; cases t; cases h; rfl, fun h => by rw [h]⟩

theorem mem_toList {a : α} {s : OrderedSet α} : a ∈ s.toList ↔ a ∈ s := Iff.rfl

def empty : OrderedSet α := ⟨[], .nil⟩

instance : EmptyCollection (OrderedSet α) := ⟨empty⟩

instance : Inhabited (OrderedSet α) := ⟨∅⟩

@[simp] theorem not_mem_empty (a : α) : ¬ a ∈ (∅ : OrderedSet α) := List.not_mem_nil

def size (s : OrderedSet α) : Nat := s.toList.length

def isEmpty (s : OrderedSet α) : Bool := s.toList.isEmpty

def contains (s : OrderedSet α) (a : α) : Bool := s.toList.any (fun b => compare a b == .eq)

def filter (p : α → Bool) (s : OrderedSet α) : OrderedSet α :=
  ⟨s.toList.filter p, s.ascending.filter p⟩

def erase (s : OrderedSet α) (a : α) : OrderedSet α := s.filter (fun b => compare a b != .eq)

def inter (s t : OrderedSet α) : OrderedSet α := s.filter t.contains

@[simp] theorem mem_filter {p : α → Bool} {s : OrderedSet α} {a : α} :
    a ∈ s.filter p ↔ a ∈ s ∧ p a = true := List.mem_filter

section Lawful

variable [Std.LawfulEqOrd α]

theorem contains_iff {s : OrderedSet α} {a : α} : s.contains a = true ↔ a ∈ s := by
  simp [contains, ← mem_toList]

instance (a : α) (s : OrderedSet α) : Decidable (a ∈ s) :=
  decidable_of_iff (s.contains a = true) contains_iff

@[simp] theorem mem_erase {s : OrderedSet α} {a b : α} : b ∈ s.erase a ↔ b ∈ s ∧ b ≠ a := by
  rw [erase, mem_filter, bne_iff_ne, ne_eq, Std.compare_eq_iff_eq, eq_comm (a := a)]

@[simp] theorem mem_inter {s t : OrderedSet α} {a : α} : a ∈ s.inter t ↔ a ∈ s ∧ a ∈ t := by
  simp [inter, contains_iff]

def eraseAll (s : OrderedSet α) (l : List α) : OrderedSet α := l.foldl erase s

@[simp] theorem mem_eraseAll {s : OrderedSet α} {l : List α} {a : α} :
    a ∈ s.eraseAll l ↔ a ∈ s ∧ ¬ a ∈ l := by
  induction l generalizing s with
  | nil => simp [eraseAll]
  | cons b l ih =>
    have := ih (s := s.erase b)
    simp only [eraseAll, List.foldl_cons] at this ⊢
    rw [this, mem_erase, List.mem_cons, not_or, and_assoc]

variable [Std.TransOrd α]

private def insertInto (a : α) : List α → List α
  | [] => [a]
  | b :: l => match compare a b with
    | .lt => a :: b :: l
    | .eq => b :: l
    | .gt => b :: insertInto a l

omit [Std.TransOrd α] in
private theorem mem_insertInto {a b : α} {l : List α} :
    b ∈ insertInto a l ↔ b = a ∨ b ∈ l := by
  induction l with
  | nil => simp [insertInto]
  | cons c l ih =>
    simp only [insertInto]
    split
    · simp
    · rename_i h
      obtain rfl := Std.LawfulEqOrd.eq_of_compare h
      simp
    · simp only [List.mem_cons, ih]
      exact ⟨fun h => h.elim (.inr ∘ .inl) (fun h => h.elim .inl (.inr ∘ .inr)),
        fun h => h.elim (.inr ∘ .inl) (fun h => h.elim .inl (.inr ∘ .inr))⟩

private theorem ascending_insertInto (a : α) {l : List α}
    (h : l.Pairwise (fun a b => compare a b = .lt)) :
    (insertInto a l).Pairwise (fun a b => compare a b = .lt) := by
  induction l with
  | nil => exact List.pairwise_singleton _ a
  | cons b l ih =>
    obtain ⟨hb, hl⟩ := List.pairwise_cons.1 h
    simp only [insertInto]
    split
    · rename_i hab
      refine List.pairwise_cons.2 ⟨fun c hc => ?_, h⟩
      rcases List.mem_cons.1 hc with rfl | hc
      · exact hab
      · exact Std.TransCmp.lt_trans hab (hb c hc)
    · exact h
    · rename_i hab
      refine List.pairwise_cons.2 ⟨fun c hc => ?_, ih hl⟩
      rcases mem_insertInto.1 hc with rfl | hc
      · exact Std.OrientedCmp.lt_of_gt hab
      · exact hb c hc

def insert (s : OrderedSet α) (a : α) : OrderedSet α :=
  ⟨insertInto a s.toList, ascending_insertInto a s.ascending⟩

@[simp] theorem mem_insert {s : OrderedSet α} {a b : α} :
    b ∈ s.insert a ↔ b = a ∨ b ∈ s := mem_insertInto

def insertAll (s : OrderedSet α) (l : List α) : OrderedSet α := l.foldl insert s

@[simp] theorem mem_insertAll {s : OrderedSet α} {l : List α} {a : α} :
    a ∈ s.insertAll l ↔ a ∈ l ∨ a ∈ s := by
  induction l generalizing s with
  | nil => simp [insertAll]
  | cons b l ih =>
    have := ih (s := s.insert b)
    simp only [insertAll, List.foldl_cons] at this ⊢
    rw [this, mem_insert, List.mem_cons, ← or_assoc, or_comm (a := a ∈ l)]

def ofList (l : List α) : OrderedSet α := insertAll ∅ l

@[simp] theorem mem_ofList {l : List α} {a : α} : a ∈ ofList l ↔ a ∈ l := by
  simp [ofList]

def union (s t : OrderedSet α) : OrderedSet α := s.insertAll t.toList

@[simp] theorem mem_union {s t : OrderedSet α} {a : α} : a ∈ s.union t ↔ a ∈ s ∨ a ∈ t := by
  simp [union, mem_toList, or_comm]

omit [Std.LawfulEqOrd α] in
private theorem eq_of_mem_iff : ∀ {l m : List α},
    l.Pairwise (fun a b => compare a b = .lt) → m.Pairwise (fun a b => compare a b = .lt) →
    (∀ a, a ∈ l ↔ a ∈ m) → l = m
  | [], [], _, _, _ => rfl
  | [], b :: m, _, _, h => absurd ((h b).2 List.mem_cons_self) List.not_mem_nil
  | a :: l, [], _, _, h => absurd ((h a).1 List.mem_cons_self) List.not_mem_nil
  | a :: l, b :: m, hl, hm, h => by
    have irrefl : ∀ c : α, ¬ compare c c = .lt := fun c hc => by
      have := hc.symm.trans (Std.ReflOrd.compare_self (a := c))
      cases this
    obtain ⟨ha, hl'⟩ := List.pairwise_cons.1 hl
    obtain ⟨hb, hm'⟩ := List.pairwise_cons.1 hm
    have hab : a = b := by
      rcases List.mem_cons.1 ((h a).1 List.mem_cons_self) with rfl | ham
      · rfl
      rcases List.mem_cons.1 ((h b).2 List.mem_cons_self) with rfl | hbl
      · rfl
      exact absurd (Std.TransCmp.lt_trans (ha b hbl) (hb a ham)) (irrefl a)
    subst hab
    rw [List.cons_eq_cons]
    refine ⟨rfl, eq_of_mem_iff hl' hm' fun c => ⟨fun hc => ?_, fun hc => ?_⟩⟩
    · rcases List.mem_cons.1 ((h c).1 (List.mem_cons_of_mem _ hc)) with rfl | hc'
      · exact absurd (ha c hc) (irrefl c)
      · exact hc'
    · rcases List.mem_cons.1 ((h c).2 (List.mem_cons_of_mem _ hc)) with rfl | hc'
      · exact absurd (hb c hc) (irrefl c)
      · exact hc'

omit [Std.LawfulEqOrd α] in
theorem ext {s t : OrderedSet α} (h : ∀ a, a ∈ s ↔ a ∈ t) : s = t := by
  have := eq_of_mem_iff s.ascending t.ascending h
  cases s; cases t; cases this; rfl

end Lawful

end OrderedSet

end Dataflow
