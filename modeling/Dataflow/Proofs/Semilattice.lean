import Dataflow.Proofs.Equations
import Mathlib.Order.BoundedOrder.Lattice

/-! # The semilattice of values

Values over one domain that join in one way are ordered by their facts: a must-set lies below a
larger one and a may-set below a smaller one. The meet of two values is the greatest that lies
below both, so the laws of a bounded semilattice hold, and a meet of many values depends on which
they are and not on how often or in what order they come.
-/
namespace Dataflow

variable {α : Type} [Fact α]

namespace Confluence

/-- Whether something holds behind a join, if it holds on the two paths under these conditions. -/
def Joins (c : Confluence) (left right : Prop) : Prop :=
  match c with
  | must => left ∧ right
  | may => left ∨ right

variable {c : Confluence} {s t u : OrderedSet α}

theorem mem_meet {a : α} : a ∈ c.meet s t ↔ c.Joins (a ∈ s) (a ∈ t) := by
  cases c with
  | must => exact OrderedSet.mem_inter
  | may => exact OrderedSet.mem_union

theorem le_meet_iff : c.Le u (c.meet s t) ↔ c.Le u s ∧ c.Le u t := by
  cases c with
  | must =>
    constructor
    · intro h
      exact ⟨fun a ha => (OrderedSet.mem_inter.1 (h a ha)).1,
        fun a ha => (OrderedSet.mem_inter.1 (h a ha)).2⟩
    · rintro ⟨hs, ht⟩ a ha
      exact OrderedSet.mem_inter.2 ⟨hs a ha, ht a ha⟩
  | may =>
    constructor
    · intro h
      exact ⟨fun a ha => h a (OrderedSet.mem_union.2 (.inl ha)),
        fun a ha => h a (OrderedSet.mem_union.2 (.inr ha))⟩
    · rintro ⟨hs, ht⟩ a ha
      rcases OrderedSet.mem_union.1 ha with ha | ha
      · exact hs a ha
      · exact ht a ha

/-- A set lies below a meet of many exactly if it lies below each of them. -/
theorem le_foldl_meet_iff {l : List (OrderedSet α)} :
    c.Le u (l.foldl c.meet s) ↔ c.Le u s ∧ ∀ t ∈ l, c.Le u t :=
  foldl_and_iff (fun _ _ => le_meet_iff) l s

end Confluence

namespace FactSet

variable {domain : OrderedSet α} {c : Confluence} {s t u : FactSet α} {l l' : List (FactSet α)}

theorem meet_eq (s t : FactSet α) :
    s.meet t = ⟨s.confluence.meet s.facts t.facts, s.domain, s.confluence⟩ := by
  unfold meet Confluence.meet
  cases s.confluence <;> rfl

theorem foldl_meet_eq (l : List (FactSet α)) (s : FactSet α) : l.foldl meet s =
    ⟨(l.map facts).foldl s.confluence.meet s.facts, s.domain, s.confluence⟩ := by
  induction l generalizing s with
  | nil => rfl
  | cons t l ih =>
    rw [List.foldl_cons, ih, meet_eq]
    rfl

theorem top_eq (domain : OrderedSet α) (c : Confluence) :
    top domain c = ⟨c.top domain, domain, c⟩ := by cases c <;> rfl

/-- The value is over this domain, joins in this way and has facts of the domain only. -/
structure Within (domain : OrderedSet α) (c : Confluence) (s : FactSet α) : Prop where
  domain_eq : s.domain = domain
  confluence_eq : s.confluence = c
  subset : s.facts ⊆ domain

theorem Within.ext (hs : s.Within domain c) (ht : t.Within domain c) (h : s.facts = t.facts) :
    s = t := by
  obtain ⟨rfl, rfl, _⟩ := hs
  obtain ⟨hdomain, hconfluence, _⟩ := ht
  cases s
  cases t
  cases h
  cases hdomain
  cases hconfluence
  rfl

theorem Within.facts_meet (hs : s.Within domain c) (t : FactSet α) :
    (s.meet t).facts = c.meet s.facts t.facts := by rw [meet_eq, hs.confluence_eq]

theorem Within.meet (hs : s.Within domain c) (ht : t.Within domain c) :
    (s.meet t).Within domain c where
  domain_eq := hs.domain_eq
  confluence_eq := hs.confluence_eq
  subset := by
    rw [hs.facts_meet]
    exact Confluence.meet_subset hs.subset ht.subset

theorem within_top (domain : OrderedSet α) (c : Confluence) : (top domain c).Within domain c := by
  rw [top_eq]
  exact ⟨rfl, rfl, c.top_subset domain⟩

theorem within_bottom (domain : OrderedSet α) (c : Confluence) :
    (bottom domain c).Within domain c := by
  refine ⟨rfl, rfl, ?_⟩
  cases c with
  | must => exact OrderedSet.empty_subset domain
  | may => exact OrderedSet.subset_refl domain

theorem Within.foldl_meet (hs : s.Within domain c) (hl : ∀ t ∈ l, t.Within domain c) :
    (l.foldl FactSet.meet s).Within domain c := by
  induction l generalizing s with
  | nil => exact hs
  | cons t l ih =>
    obtain ⟨ht, hl⟩ := List.forall_mem_cons.1 hl
    exact ih (hs.meet ht) hl

/-- The values over a domain that join in one way. -/
abbrev Space (domain : OrderedSet α) (c : Confluence) := { s : FactSet α // s.Within domain c }

instance : PartialOrder (Space domain c) where
  le s t := c.Le s.1.facts t.1.facts
  le_refl s := .refl c s.1.facts
  le_trans _ _ _ h h' := h.trans h'
  le_antisymm s t h h' := Subtype.ext (s.2.ext t.2 (h.antisymm h'))

theorem Within.le_meet_iff (hs : s.Within domain c) {x : OrderedSet α} :
    c.Le x (s.meet t).facts ↔ c.Le x s.facts ∧ c.Le x t.facts := by
  rw [hs.facts_meet]
  exact Confluence.le_meet_iff

instance : SemilatticeInf (Space domain c) where
  inf s t := ⟨s.1.meet t.1, s.2.meet t.2⟩
  inf_le_left s _ := (s.2.le_meet_iff.1 (.refl c _)).1
  inf_le_right s _ := (s.2.le_meet_iff.1 (.refl c _)).2
  le_inf _ s _ h h' := s.2.le_meet_iff.2 ⟨h, h'⟩

instance : BoundedOrder (Space domain c) where
  top := ⟨.top domain c, within_top domain c⟩
  bot := ⟨.bottom domain c, within_bottom domain c⟩
  le_top s := by
    show c.Le s.1.facts (top domain c).facts
    rw [top_eq]
    exact Confluence.le_top s.2.subset
  bot_le s := by
    show c.Le (bottom domain c).facts s.1.facts
    cases c with
    | must => exact OrderedSet.empty_subset s.1.facts
    | may => exact s.2.subset

/-- From the top down, a value lies below a meet of many exactly if it lies below each of them. -/
theorem Within.le_foldl_meet_iff (hu : u.Within domain c) :
    c.Le u.facts (l.foldl FactSet.meet (top domain c)).facts ↔ ∀ t ∈ l, c.Le u.facts t.facts := by
  have htop : c.Le u.facts (c.top domain) := Confluence.le_top hu.subset
  rw [foldl_meet_eq, top_eq]
  simp only [Confluence.le_foldl_meet_iff, htop, true_and, List.forall_mem_map]

/-- Only the values that are met matter. -/
theorem foldl_meet_congr (hl : ∀ s ∈ l, s.Within domain c) (h : ∀ s, s ∈ l ↔ s ∈ l') :
    l.foldl FactSet.meet (top domain c) = l'.foldl FactSet.meet (top domain c) := by
  have hl' : ∀ s ∈ l', s.Within domain c := fun s hs => hl s ((h s).2 hs)
  have hin := (within_top domain c).foldl_meet hl
  have hin' := (within_top domain c).foldl_meet hl'
  refine hin.ext hin' (Confluence.Le.antisymm (c := c) ?_ ?_)
  · refine hin.le_foldl_meet_iff.2 fun s hs => ?_
    exact hin.le_foldl_meet_iff.1 (.refl c _) s ((h s).2 hs)
  · refine hin'.le_foldl_meet_iff.2 fun s hs => ?_
    exact hin'.le_foldl_meet_iff.1 (.refl c _) s ((h s).1 hs)

/-- The facts of a meet are listed in ascending order, and no other ascending list has them. -/
theorem Within.toList_meet_eq_iff (hs : s.Within domain c) {facts : List α}
    (hfacts : facts.Pairwise fun a b => compare a b = .lt) :
    (s.meet t).facts.toList = facts ↔
      ∀ a, a ∈ facts ↔ c.Joins (a ∈ s.facts.toList) (a ∈ t.facts.toList) := by
  have hmem (a : α) : a ∈ (s.meet t).facts ↔ c.Joins (a ∈ s.facts) (a ∈ t.facts) := by
    rw [hs.facts_meet]
    exact Confluence.mem_meet
  constructor
  · rintro rfl
    exact hmem
  · intro h
    have heq : (s.meet t).facts = ⟨facts, hfacts⟩ :=
      OrderedSet.ext fun a => (hmem a).trans (h a).symm
    rw [heq]

/-- For every domain and either way to join, the values over the domain form a bounded semilattice
under the meet: it is idempotent, commutative and associative, the top is its identity and the
bottom absorbs it, and it gives the greatest value below both parts, in order and without repeats.
A meet of many values, from the top down, does not change if they are put in another order or
repeated. -/
theorem meets_form_bounded_semilattice (domain : OrderedSet α) (c : Confluence) {s t u : FactSet α}
    (hs : s.Within domain c) (ht : t.Within domain c) (hu : u.Within domain c) :
    (s.meet s = s ∧ s.meet t = t.meet s ∧ (s.meet t).meet u = s.meet (t.meet u)) ∧
    (s.meet (top domain c) = s ∧ (top domain c).meet s = s ∧
      s.meet (bottom domain c) = bottom domain c ∧ (bottom domain c).meet s = bottom domain c) ∧
    (c.Le (s.meet t).facts s.facts ∧ c.Le (s.meet t).facts t.facts ∧
      ∀ x : FactSet α, x.Within domain c → c.Le x.facts s.facts → c.Le x.facts t.facts →
        c.Le x.facts (s.meet t).facts) ∧
    (s.meet t).Within domain c ∧
    ((s.meet t).facts.toList.Pairwise (fun a b => compare a b = .lt) ∧
      (s.meet t).facts.toList.Nodup ∧
      ∀ facts : List α, facts.Pairwise (fun a b => compare a b = .lt) →
        ((s.meet t).facts.toList = facts ↔
          ∀ a, a ∈ facts ↔ c.Joins (a ∈ s.facts.toList) (a ∈ t.facts.toList))) ∧
    ∀ l l' : List (FactSet α), (∀ x ∈ l, x.Within domain c) → (∀ x, x ∈ l ↔ x ∈ l') →
      l.foldl FactSet.meet (top domain c) = l'.foldl FactSet.meet (top domain c) := by
  -- The laws of the order are those of its instances, at these values.
  let a : Space domain c := ⟨s, hs⟩
  let b : Space domain c := ⟨t, ht⟩
  let d : Space domain c := ⟨u, hu⟩
  refine ⟨⟨?_, ?_, ?_⟩, ⟨?_, ?_, ?_, ?_⟩, ⟨?_, ?_, fun x hx hxs hxt => ?_⟩, hs.meet ht,
    ⟨?_, ?_, ?_⟩, fun l l' => foldl_meet_congr⟩
  · exact congrArg Subtype.val (inf_idem a)
  · exact congrArg Subtype.val (inf_comm a b)
  · exact congrArg Subtype.val (inf_assoc a b d)
  · exact congrArg Subtype.val (inf_top_eq a)
  · exact congrArg Subtype.val (top_inf_eq a)
  · exact congrArg Subtype.val (inf_bot_eq a)
  · exact congrArg Subtype.val (bot_inf_eq a)
  · exact (inf_le_left : a ⊓ b ≤ a)
  · exact (inf_le_right : a ⊓ b ≤ b)
  · exact hs.le_meet_iff.2 ⟨hxs, hxt⟩
  · exact (s.meet t).facts.ascending
  · exact (s.meet t).facts.toList_nodup
  · exact fun facts => hs.toList_meet_eq_iff

/-- Two must-sets of three facts have one fact in common, however often they are met. -/
theorem common_fact_of_repeated_meets : ∃ domain s t : OrderedSet QuadId,
    domain = .ofList [1, 2, 3] ∧ s = .ofList [2, 1] ∧ t = .ofList [3, 2] ∧
    (FactSet.meet ⟨s, domain, .must⟩ ⟨t, domain, .must⟩).facts.toList = [2] ∧
    [⟨s, domain, .must⟩, ⟨t, domain, .must⟩, ⟨s, domain, .must⟩].foldl FactSet.meet
        (top domain .must) =
      [⟨t, domain, .must⟩, ⟨s, domain, .must⟩].foldl FactSet.meet (top domain .must) := by
  have hwithin (facts : List QuadId) (h : facts ⊆ [1, 2, 3]) :
      Within (.ofList [1, 2, 3]) .must ⟨.ofList facts, .ofList [1, 2, 3], .must⟩ :=
    ⟨rfl, rfl, fun a ha => OrderedSet.mem_ofList.2 (h (OrderedSet.mem_ofList.1 ha))⟩
  have hs := hwithin [2, 1] (by simp)
  have ht := hwithin [3, 2] (by simp)
  obtain ⟨_, _, _, _, ⟨_, _, hlist⟩, hmeets⟩ :=
    meets_form_bounded_semilattice (.ofList [1, 2, 3]) .must hs ht hs
  refine ⟨_, _, _, rfl, rfl, rfl, (hlist [2] (List.pairwise_singleton _ _)).2 fun a => ?_,
    hmeets _ _ ?_ fun x => ?_⟩
  · show a ∈ [2] ↔ a ∈ OrderedSet.ofList [2, 1] ∧ a ∈ OrderedSet.ofList [3, 2]
    rw [OrderedSet.mem_ofList, OrderedSet.mem_ofList]
    constructor
    · intro h
      simp [List.mem_singleton.1 h]
    · simp only [List.mem_cons, List.not_mem_nil, or_false]
      rintro ⟨rfl | rfl, h⟩
      · rfl
      · exact absurd h (by decide)
  · simp only [List.forall_mem_cons]
    exact ⟨hs, ht, hs, fun x hx => absurd hx List.not_mem_nil⟩
  · simp only [List.mem_cons, List.not_mem_nil, or_false]
    tauto

end FactSet

end Dataflow
