import Dataflow.Problem
import Dataflow.Proofs.Collections
import Mathlib.Data.List.Nodup

/-! # Dataflow equations

A scheme is what a problem asks of a routine: at every quad the given side is the meet of all
that flows in, and the solved side is the transfer of the given one. Values are compared
toward the bottom, so a must-set lies below a larger one and a may-set below a smaller one.
-/
namespace Dataflow

/-- A value for either side of every quad. -/
abbrev Valuation (α : Type) [Fact α] := Side → QuadId → OrderedSet α

namespace Confluence

variable {α : Type} [Fact α]

def top (c : Confluence) (domain : OrderedSet α) : OrderedSet α :=
  match c with
  | must => domain
  | may => ∅

def meet (c : Confluence) (s t : OrderedSet α) : OrderedSet α :=
  match c with
  | must => s.inter t
  | may => s.union t

/-- The first set is nearer to the bottom, or the same. -/
def Le (c : Confluence) (s t : OrderedSet α) : Prop :=
  match c with
  | must => s ⊆ t
  | may => t ⊆ s

theorem Le.refl (c : Confluence) (s : OrderedSet α) : c.Le s s := by
  cases c <;> exact OrderedSet.subset_refl s

theorem Le.trans {c : Confluence} {s t u : OrderedSet α} (h : c.Le s t) (h' : c.Le t u) :
    c.Le s u := by
  cases c with
  | must => exact OrderedSet.subset_trans h h'
  | may => exact OrderedSet.subset_trans h' h

theorem Le.antisymm {c : Confluence} {s t : OrderedSet α} (h : c.Le s t) (h' : c.Le t s) :
    s = t := by
  cases c with
  | must => exact OrderedSet.subset_antisymm h h'
  | may => exact OrderedSet.subset_antisymm h' h

theorem le_top {c : Confluence} {s domain : OrderedSet α} (h : s ⊆ domain) :
    c.Le s (c.top domain) := by
  cases c with
  | must => exact h
  | may => exact OrderedSet.empty_subset s

theorem top_subset (c : Confluence) (domain : OrderedSet α) : c.top domain ⊆ domain := by
  cases c with
  | must => exact OrderedSet.subset_refl domain
  | may => exact OrderedSet.empty_subset domain

theorem meet_mono {c : Confluence} {s s' t t' : OrderedSet α} (hs : c.Le s s') (ht : c.Le t t') :
    c.Le (c.meet s t) (c.meet s' t') := by
  cases c with
  | must =>
    intro a ha
    obtain ⟨has, hat⟩ := OrderedSet.mem_inter.1 ha
    exact OrderedSet.mem_inter.2 ⟨hs a has, ht a hat⟩
  | may =>
    intro a ha
    rcases OrderedSet.mem_union.1 ha with ha | ha
    · exact OrderedSet.mem_union.2 (.inl (hs a ha))
    · exact OrderedSet.mem_union.2 (.inr (ht a ha))

theorem meet_self (c : Confluence) (s : OrderedSet α) : c.meet s s = s := by
  apply OrderedSet.subset_antisymm <;> intro a <;> cases c <;> simp [meet]

theorem top_meet {c : Confluence} {s domain : OrderedSet α} (h : s ⊆ domain) :
    c.meet (c.top domain) s = s := by
  cases c with
  | must =>
    apply OrderedSet.subset_antisymm
    · exact fun a ha => (OrderedSet.mem_inter.1 ha).2
    · exact fun a ha => OrderedSet.mem_inter.2 ⟨h a ha, ha⟩
  | may =>
    apply OrderedSet.subset_antisymm
    · intro a ha
      rcases OrderedSet.mem_union.1 ha with hm | hm
      · exact absurd hm (OrderedSet.not_mem_empty a)
      · exact hm
    · exact fun a ha => OrderedSet.mem_union.2 (.inr ha)

theorem meet_subset {c : Confluence} {s t domain : OrderedSet α} (hs : s ⊆ domain)
    (ht : t ⊆ domain) : c.meet s t ⊆ domain := by
  intro a ha
  cases c with
  | must => exact hs a (OrderedSet.mem_inter.1 ha).1
  | may =>
    rcases OrderedSet.mem_union.1 ha with ha | ha
    · exact hs a ha
    · exact ht a ha

/-- A set counts from both ends: the facts that may still go, or may still come. -/
def rank (c : Confluence) (domain s : OrderedSet α) : Nat :=
  match c with
  | must => s.size
  | may => domain.size - s.size

theorem rank_le_size {c : Confluence} {domain s : OrderedSet α} (h : s ⊆ domain) :
    c.rank domain s ≤ domain.size := by
  cases c with
  | must => exact OrderedSet.size_le_of_subset h
  | may => exact Nat.sub_le _ _

theorem rank_mono {c : Confluence} {domain s t : OrderedSet α} (h : c.Le s t) :
    c.rank domain s ≤ c.rank domain t := by
  cases c with
  | must => exact OrderedSet.size_le_of_subset h
  | may => exact Nat.sub_le_sub_left (OrderedSet.size_le_of_subset h) _

theorem rank_lt {c : Confluence} {domain s t : OrderedSet α} (hs : s ⊆ domain) (h : c.Le s t)
    (hne : s ≠ t) : c.rank domain s < c.rank domain t := by
  cases c with
  | must => exact OrderedSet.size_lt_of_subset h hne
  | may =>
    have hlt : t.size < s.size := OrderedSet.size_lt_of_subset h (Ne.symm hne)
    have hle : s.size ≤ domain.size := OrderedSet.size_le_of_subset hs
    show domain.size - s.size < domain.size - t.size
    omega

end Confluence

structure Scheme (α : Type) [Fact α] where
  direction : Direction
  confluence : Confluence
  domain : OrderedSet α
  transfer : Quad → OrderedSet α → OrderedSet α
  boundary : OrderedSet α
  locations : List Location

/-- What a problem asks of a routine with these locations. -/
def Problem.scheme {α : Type} [Fact α] (p : Problem α) (f : Routine) (ls : List Location) :
    Scheme α where
  direction := p.direction
  confluence := p.confluence
  domain := (p.frame f).domain
  transfer := (p.frame f).transfer
  boundary := (p.boundary (p.frame f)).facts
  locations := ls

namespace Direction

theorem given_ne_solved (d : Direction) : d.given ≠ d.solved := by cases d <;> decide

theorem eq_given_or_eq_solved (d : Direction) (side : Side) : side = d.given ∨ side = d.solved := by
  cases d <;> cases side <;> decide

end Direction

namespace Scheme

variable {α : Type} [Fact α]

/-- A neighbor that is no quad is the boundary where the flow begins. -/
def inflow (E : Scheme α) (v : Valuation α) : Neighbor → OrderedSet α
  | .quad id => v E.direction.solved id
  | _ => E.boundary

/-- The meet, from the top, of all that flows into a location. -/
def met (E : Scheme α) (v : Valuation α) (l : Location) : OrderedSet α :=
  (E.direction.incoming l).foldl (fun s n => E.confluence.meet s (E.inflow v n))
    (E.confluence.top E.domain)

/-- The equations at one location. -/
def SolvesAt (E : Scheme α) (v : Valuation α) (l : Location) : Prop :=
  v E.direction.given l.id = E.met v l ∧
    v E.direction.solved l.id = E.transfer l.quad (v E.direction.given l.id)

def Solves (E : Scheme α) (v : Valuation α) : Prop := ∀ l ∈ E.locations, E.SolvesAt v l

def Inside (E : Scheme α) (v : Valuation α) : Prop :=
  ∀ side, ∀ l ∈ E.locations, v side l.id ⊆ E.domain

def Below (E : Scheme α) (v w : Valuation α) : Prop :=
  ∀ side, ∀ l ∈ E.locations, E.confluence.Le (v side l.id) (w side l.id)

/-- The maximal fixed point: a solution within the domain that lies above every other. -/
structure Greatest (E : Scheme α) (v : Valuation α) : Prop where
  solves : E.Solves v
  inside : E.Inside v
  above (w : Valuation α) : E.Inside w → E.Solves w → E.Below w v

/-- There is only one maximal fixed point. -/
theorem Greatest.unique {E : Scheme α} {v w : Valuation α} (hv : E.Greatest v)
    (hw : E.Greatest w) (side : Side) {l : Location} (hl : l ∈ E.locations) :
    v side l.id = w side l.id :=
  (hw.above v hv.inside hv.solves side l hl).antisymm (hv.above w hw.inside hw.solves side l hl)

/-- A must-fact holds at a meet if it flows in from everywhere. -/
theorem mem_met_must {E : Scheme α} (h : E.confluence = .must) {v : Valuation α} {l : Location}
    {a : α} : a ∈ E.met v l ↔ a ∈ E.domain ∧ ∀ n ∈ E.direction.incoming l, a ∈ E.inflow v n := by
  have hround : ∀ s n, a ∈ Confluence.must.meet s (E.inflow v n) ↔ a ∈ s ∧ a ∈ E.inflow v n :=
    fun _ _ => OrderedSet.mem_inter
  unfold met
  rw [h]
  exact foldl_and_iff (P := fun s => a ∈ s) hround _ _

theorem mem_foldl_may {β : Type} (f : β → OrderedSet α) (l : List β) (domain : OrderedSet α)
    {a : α} : a ∈ l.foldl (fun s b => Confluence.may.meet s (f b)) (Confluence.may.top domain) ↔
      ∃ b ∈ l, a ∈ f b := by
  have hround : ∀ s b, a ∈ Confluence.may.meet s (f b) ↔ a ∈ s ∨ a ∈ f b :=
    fun _ _ => OrderedSet.mem_union
  rw [foldl_or_iff (P := fun s => a ∈ s) hround]
  exact or_iff_right (OrderedSet.not_mem_empty a)

/-- A may-fact holds at a meet if it flows in from somewhere. -/
theorem mem_met_may {E : Scheme α} (h : E.confluence = .may) {v : Valuation α} {l : Location}
    {a : α} : a ∈ E.met v l ↔ ∃ n ∈ E.direction.incoming l, a ∈ E.inflow v n := by
  unfold met
  rw [h, mem_foldl_may]

theorem met_congr {E : Scheme α} {v w : Valuation α} {l : Location}
    (h : ∀ id, .quad id ∈ E.direction.incoming l →
      v E.direction.solved id = w E.direction.solved id) : E.met v l = E.met w l := by
  unfold met
  apply List.foldl_ext
  intro s n hn
  cases n with
  | quad id => rw [inflow, inflow, h id hn]
  | entry => rfl
  | exit => rfl

/-- What the equations need of the transfers and of the locations: transfers keep inclusions
and stay in the domain, and every quad that flows into a location has its own location, with
the edge seen from there too. -/
structure Regular (E : Scheme α) : Prop where
  monotone {l : Location} : l ∈ E.locations → ∀ {s t : OrderedSet α}, s ⊆ t →
    E.transfer l.quad s ⊆ E.transfer l.quad t
  closed {l : Location} : l ∈ E.locations → ∀ {s : OrderedSet α}, s ⊆ E.domain →
    E.transfer l.quad s ⊆ E.domain
  boundary : E.boundary ⊆ E.domain
  nodup : (E.locations.map Location.id).Nodup
  incoming {l : Location} : l ∈ E.locations → ∀ {id : QuadId}, .quad id ∈ E.direction.incoming l →
    ∃ k ∈ E.locations, k.id = id ∧ .quad l.id ∈ E.direction.outgoing k
  farEnd {l : Location} : l ∈ E.locations → E.direction.farEnd ∉ E.direction.incoming l

open Classical in
/-- The valuation that holds the facts of the domain with one property on the given side of a
quad, and those with another on its solved side. -/
noncomputable def select (E : Scheme α) (given solved : Quad → α → Prop) : Valuation α :=
  fun side id => E.domain.filter fun a => decide (∃ l ∈ E.locations, l.id = id ∧
    if side = E.direction.given then given l.quad a else solved l.quad a)

theorem select_inside (E : Scheme α) (given solved : Quad → α → Prop) :
    E.Inside (E.select given solved) := by
  intro side l _ a ha
  exact (OrderedSet.mem_filter.1 ha).1

theorem Regular.mem_select {E : Scheme α} (hE : E.Regular) {given solved : Quad → α → Prop}
    {side : Side} {l : Location} (hl : l ∈ E.locations) {a : α} :
    a ∈ E.select given solved side l.id ↔ a ∈ E.domain ∧
      if side = E.direction.given then given l.quad a else solved l.quad a := by
  unfold select
  simp only [OrderedSet.mem_filter, decide_eq_true_eq]
  refine and_congr_right fun _ => ⟨?_, fun h => ⟨l, hl, rfl, h⟩⟩
  rintro ⟨k, hk, hid, h⟩
  rw [List.inj_on_of_nodup_map hE.nodup hk hl hid] at h
  exact h

theorem Regular.mem_select_given {E : Scheme α} (hE : E.Regular)
    {given solved : Quad → α → Prop} {l : Location} (hl : l ∈ E.locations) {a : α} :
    a ∈ E.select given solved E.direction.given l.id ↔ a ∈ E.domain ∧ given l.quad a := by
  rw [hE.mem_select hl, if_pos rfl]

theorem Regular.mem_select_solved {E : Scheme α} (hE : E.Regular)
    {given solved : Quad → α → Prop} {l : Location} (hl : l ∈ E.locations) {a : α} :
    a ∈ E.select given solved E.direction.solved l.id ↔ a ∈ E.domain ∧ solved l.quad a := by
  rw [hE.mem_select hl, if_neg E.direction.given_ne_solved.symm]

theorem Regular.transfer_mono {E : Scheme α} (hE : E.Regular) {l : Location}
    (hl : l ∈ E.locations) {s t : OrderedSet α} (h : E.confluence.Le s t) :
    E.confluence.Le (E.transfer l.quad s) (E.transfer l.quad t) := by
  cases hc : E.confluence with
  | must =>
    rw [hc] at h
    exact hE.monotone hl h
  | may =>
    rw [hc] at h
    exact hE.monotone hl h

theorem Regular.inflow_subset {E : Scheme α} (hE : E.Regular) {v : Valuation α}
    (hv : E.Inside v) {l : Location} (hl : l ∈ E.locations) {n : Neighbor}
    (hn : n ∈ E.direction.incoming l) : E.inflow v n ⊆ E.domain := by
  cases n with
  | quad id =>
    obtain ⟨k, hk, rfl, _⟩ := hE.incoming hl hn
    exact hv _ k hk
  | entry => exact hE.boundary
  | exit => exact hE.boundary

theorem Regular.met_subset {E : Scheme α} (hE : E.Regular) {v : Valuation α} (hv : E.Inside v)
    {l : Location} (hl : l ∈ E.locations) : E.met v l ⊆ E.domain := by
  have hfold : ∀ (ns : List Neighbor) (s : OrderedSet α), s ⊆ E.domain →
      (∀ n ∈ ns, E.inflow v n ⊆ E.domain) →
      ns.foldl (fun s n => E.confluence.meet s (E.inflow v n)) s ⊆ E.domain := by
    intro ns
    induction ns with
    | nil => exact fun s hs _ => hs
    | cons n ns ih =>
      intro s hs hns
      exact ih _ (Confluence.meet_subset hs (hns n List.mem_cons_self))
        (fun m hm => hns m (List.mem_cons_of_mem n hm))
  exact hfold _ _ (Confluence.top_subset _ _) (fun n hn => hE.inflow_subset hv hl hn)

/-- Lower values at the quads around give a lower meet. -/
theorem Regular.met_mono {E : Scheme α} (hE : E.Regular) {v w : Valuation α} {l : Location}
    (hl : l ∈ E.locations) (h : ∀ k ∈ E.locations,
      E.confluence.Le (v E.direction.solved k.id) (w E.direction.solved k.id)) :
    E.confluence.Le (E.met v l) (E.met w l) := by
  have hin : ∀ n ∈ E.direction.incoming l, E.confluence.Le (E.inflow v n) (E.inflow w n) := by
    intro n hn
    cases n with
    | quad id =>
      obtain ⟨k, hk, rfl, _⟩ := hE.incoming hl hn
      exact h k hk
    | entry => exact .refl _ _
    | exit => exact .refl _ _
  have hfold : ∀ (ns : List Neighbor) (s t : OrderedSet α), E.confluence.Le s t →
      (∀ n ∈ ns, E.confluence.Le (E.inflow v n) (E.inflow w n)) →
      E.confluence.Le (ns.foldl (fun s n => E.confluence.meet s (E.inflow v n)) s)
        (ns.foldl (fun s n => E.confluence.meet s (E.inflow w n)) t) := by
    intro ns
    induction ns with
    | nil => exact fun s t hs _ => hs
    | cons n ns ih =>
      intro s t hs hns
      exact ih _ _ (Confluence.meet_mono hs (hns n List.mem_cons_self))
        (fun m hm => hns m (List.mem_cons_of_mem n hm))
  exact hfold _ _ _ (.refl _ _) hin

end Scheme

end Dataflow
