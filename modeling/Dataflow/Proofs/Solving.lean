import Dataflow.Proofs.Engines
import Dataflow.Proofs.Tables

/-! # Solving a scheme

The solvers pass over the locations until nothing they watch changes. If a pass does to the stored
values what a sweep of the scheme does to a valuation, then the loop ends where the descent of the
scheme ends, and the solver with the maximal fixed point.
-/
namespace Dataflow

variable {α : Type} [Fact α]

/-- What the solvers need of a problem: the boundary value is made of the domain, the edges of
a quad carry the same value, the limit on passes reckons with the whole domain, and transfers
keep inclusions and stay in the domain. -/
structure Problem.Regular (p : Problem α) (f : Routine) : Prop where
  boundary : p.boundary (p.frame f) =
    ⟨(p.boundary (p.frame f)).facts, (p.frame f).domain, p.confluence⟩
  boundary_subset : (p.boundary (p.frame f)).facts ⊆ (p.frame f).domain
  departures (q : Quad) : (p.frame f).departures q = []
  reach : (p.frame f).domain.size ≤ (p.frame f).reach.size
  monotone {q : Quad} : q ∈ f.quads → ∀ {s t : OrderedSet α}, s ⊆ t →
    (p.frame f).transfer q s ⊆ (p.frame f).transfer q t
  closed {q : Quad} : q ∈ f.quads → ∀ {s : OrderedSet α}, s ⊆ (p.frame f).domain →
    (p.frame f).transfer q s ⊆ (p.frame f).domain

namespace FlowGraph

variable {g : FlowGraph} {ls : List Location}

theorem mem_quads_of_location (h : g.locations = .ok ls) {l : Location} (hl : l ∈ ls) :
    l.quad ∈ g.quads := by
  obtain ⟨i, b, hb, hm⟩ := (mem_locations h).1 hl
  obtain ⟨pre, rest, heq, _⟩ := mem_locate hm
  refine mem_quads.2 ⟨i, b, hb, ?_⟩
  rw [heq]
  exact List.mem_append_right _ List.mem_cons_self

theorem exists_location_of_quad (h : g.locations = .ok ls) {q : Quad} (hq : q ∈ g.quads) :
    ∃ l ∈ ls, l.quad = q := by
  obtain ⟨i, b, hb, hm⟩ := mem_quads.1 hq
  exact exists_location_of_mem h hb hm

/-- Seen along the direction of flow, neighbors are mutual. -/
theorem Coherent.outgoing_of_incoming (hg : g.Coherent) (h : g.locations = .ok ls)
    (d : Direction) {l : Location} (hl : l ∈ ls) {id : QuadId} (hid : .quad id ∈ d.incoming l) :
    ∃ k ∈ ls, k.id = id ∧ .quad l.id ∈ d.outgoing k := by
  cases d with
  | forward => exact hg.successor_of_predecessor h hl hid
  | backward => exact hg.predecessor_of_successor h hl hid

theorem Coherent.farEnd_not_mem_incoming (hg : g.Coherent) (h : g.locations = .ok ls)
    (d : Direction) {l : Location} (hl : l ∈ ls) : d.farEnd ∉ d.incoming l := by
  obtain ⟨i, rest, hat⟩ := hg.exists_located h hl
  cases d with
  | forward => exact hat.exit_predecessors
  | backward => exact hat.entry_successors

end FlowGraph

namespace Problem

variable {p : Problem α} {f : Routine} {ls : List Location}

theorem Regular.scheme (hp : p.Regular f) (hf : f.graph.Coherent) (hls : f.locations = .ok ls) :
    (p.scheme f ls).Regular where
  monotone hl := hp.monotone (FlowGraph.mem_quads_of_location hls hl)
  closed hl := hp.closed (FlowGraph.mem_quads_of_location hls hl)
  boundary := hp.boundary_subset
  nodup := hf.locations_nodup hls
  incoming hl _ hid := hf.outgoing_of_incoming hls _ hl hid
  farEnd hl := hf.farEnd_not_mem_incoming hls _ hl

/-- There are at least as many slots as locations, so the limit allows for every change. -/
theorem Regular.lt_passLimit (hp : p.Regular f) (ls : List Location) :
    ls.length * (p.frame f).domain.size < passLimit (p.frame f) ls := by
  have hslots : ∀ (ls : List Location) (n : Nat), n + ls.length ≤
      ls.foldl (fun n l => n + l.predecessors.length + l.successors.length + 1) n := by
    intro ls
    induction ls with
    | nil => exact fun n => Nat.le_refl _
    | cons l ls ih =>
      intro n
      have hrest := ih (n + l.predecessors.length + l.successors.length + 1)
      simp only [List.foldl_cons, List.length_cons]
      omega
  have hlen := hslots ls 0
  rw [Nat.zero_add] at hlen
  have hmul := Nat.mul_le_mul hlen (Nat.le_succ_of_le hp.reach)
  unfold passLimit
  exact Nat.lt_add_right 1 (Nat.lt_succ_of_le hmul)

end Problem

theorem exists_of_map_facts {r : Except Error (FactSet α)} {s : OrderedSet α}
    (h : r.map FactSet.facts = .ok s) : ∃ x, r = .ok x ∧ x.facts = s := by
  cases r with
  | error e => cases h
  | ok x => exact ⟨x, rfl, Except.ok.inj h⟩

namespace Scheme

variable {E : Scheme α}

abbrev withBoundary (E : Scheme α) (s : OrderedSet α) : Scheme α := { E with boundary := s }

/-- A value as the solvers store it. -/
def pack (E : Scheme α) (s : OrderedSet α) : FactSet α := ⟨s, E.domain, E.confluence⟩

theorem pack_meet (s : OrderedSet α) (t : FactSet α) :
    (E.pack s).meet t = E.pack (E.confluence.meet s t.facts) := by
  unfold pack FactSet.meet Confluence.meet
  cases E.confluence <;> rfl

theorem toTop_empty :
    (FactSet.empty E.domain E.confluence).toTop = E.pack (E.confluence.top E.domain) := by
  unfold pack FactSet.empty FactSet.toTop Confluence.top
  cases E.confluence <;> rfl

/-- Reading and meeting one stored value after the other. Only the facts of what is read count. -/
theorem foldlM_meet_pack {β : Type} {l : List β} {read : β → Except Error (FactSet α)}
    {value : β → OrderedSet α} (h : ∀ b ∈ l, (read b).map FactSet.facts = .ok (value b))
    (s : OrderedSet α) :
    l.foldlM (fun met b => do return FactSet.meet met (← read b)) (E.pack s) =
      .ok (E.pack (l.foldl (fun s b => E.confluence.meet s (value b)) s)) := by
  induction l generalizing s with
  | nil => rfl
  | cons b l ih =>
    obtain ⟨t, ht, hfacts⟩ := exists_of_map_facts (h b List.mem_cons_self)
    rw [List.foldlM_cons, ht, List.foldl_cons, ← hfacts]
    show l.foldlM _ ((E.pack s).meet t) = _
    rw [pack_meet]
    exact ih (fun c hc => h c (List.mem_cons_of_mem b hc)) _

/-- The meet, from the top, of the solved values next to the far end. -/
def farValue (E : Scheme α) (v : Valuation α) : OrderedSet α :=
  (E.locations.filter E.direction.meetsFarEnd).foldl
    (fun s l => E.confluence.meet s (v E.direction.solved l.id)) (E.confluence.top E.domain)

theorem mem_farValue_may (h : E.confluence = .may) {v : Valuation α} {a : α} :
    a ∈ E.farValue v ↔ ∃ l ∈ E.locations, E.direction.farEnd ∈ E.direction.outgoing l ∧
      a ∈ v E.direction.solved l.id := by
  unfold farValue Direction.meetsFarEnd
  rw [h, mem_foldl_may]
  simp only [List.mem_filter, List.contains_iff_mem, and_assoc]

theorem mem_farValue_must (h : E.confluence = .must) {v : Valuation α} {a : α} :
    a ∈ E.farValue v ↔ a ∈ E.domain ∧ ∀ l ∈ E.locations,
      E.direction.farEnd ∈ E.direction.outgoing l → a ∈ v E.direction.solved l.id := by
  have hround : ∀ s (l : Location), a ∈ Confluence.must.meet s (v E.direction.solved l.id) ↔
      a ∈ s ∧ a ∈ v E.direction.solved l.id := fun _ _ => OrderedSet.mem_inter
  unfold farValue Direction.meetsFarEnd
  rw [h, foldl_and_iff (P := fun s => a ∈ s) hround]
  simp only [List.mem_filter, List.contains_iff_mem, and_imp]
  exact Iff.rfl

/-- The value at the entry: given, or put together where a backward flow ends. -/
def entryValue (E : Scheme α) (v : Valuation α) : OrderedSet α :=
  match E.direction with
  | .forward => E.boundary
  | .backward => E.farValue v

def exitValue (E : Scheme α) (v : Valuation α) : OrderedSet α :=
  match E.direction with
  | .forward => E.farValue v
  | .backward => E.boundary

end Scheme

def Valuation.set (v : Valuation α) (side : Side) (id : QuadId) (s : OrderedSet α) : Valuation α :=
  fun side' id' => if side' = side ∧ id' = id then s else v side' id'

namespace Run

variable {σ : Type}

/-- What every round of a loop keeps, the loop keeps. -/
theorem exists_yields_forM {β : Type} {P : σ → Prop} {l : List β} {r : β → Run σ Unit}
    (h : ∀ b ∈ l, ∀ s, P s → ∃ t, (r b).Yields s () t ∧ P t) {s : σ} (hs : P s) :
    ∃ t, (l.forM r).Yields s () t ∧ P t := by
  induction l generalizing s with
  | nil => exact ⟨s, yields_pure () s, hs⟩
  | cons b l ih =>
    obtain ⟨t, ht, hPt⟩ := h b List.mem_cons_self s hs
    obtain ⟨u, hu, hPu⟩ := ih (fun c hc => h c (List.mem_cons_of_mem b hc)) hPt
    exact ⟨u, ht.bind hu, hPu⟩

end Run

namespace Scheme

variable {E : Scheme α} {σ : Type} {watched : Location → Bool} {H : Valuation α → σ → Prop}

/-- If a pass is a sweep, a loop of passes is a descent. -/
theorem exists_yields_descend {pass : Run σ Bool} {tell : Nat → Bool → Run σ Unit}
    (htell : ∀ count changed s, (tell count changed).Yields s () s)
    (hpass : ∀ v s, H v s →
      ∃ t, pass.Yields s (E.stirsAny watched v (E.direction.arrange E.locations)) t ∧
        H (E.sweep v (E.direction.arrange E.locations)) t)
    (fuel count : Nat) {v : Valuation α} {s : σ} (h : H v s) :
    ∃ t, (Run.repeatWhile pass tell fuel count).Yields s () t ∧
      H (E.descend watched fuel v) t := by
  induction fuel generalizing count v s with
  | zero => exact ⟨s, Run.yields_pure () s, h⟩
  | succ fuel ih =>
    obtain ⟨t, ht, hH⟩ := hpass v s h
    rw [Run.repeatWhile, descend]
    cases hs : E.stirsAny watched v (E.direction.arrange E.locations) with
    | false =>
      rw [hs] at ht
      exact ⟨t, ht.bind ((htell count false t).bind (Run.yields_pure () t)), hH⟩
    | true =>
      rw [hs] at ht
      obtain ⟨u, hu, hH'⟩ := ih (count + 1) hH
      exact ⟨u, ht.bind ((htell count true t).bind hu), hH'⟩

end Scheme

section Engines

variable {σ τ : Type} {p : Problem α} {f : Routine} {ls : List Location} {C : σ → Prop}
  {a : Analysis σ α} {e : Engine σ τ α}

namespace Analysis

theorem AtWork.direction (h : a.AtWork p f C) (ls : List Location) :
    a.direction = (p.scheme f ls).direction := by
  obtain ⟨s, rfl, _⟩ := h
  rfl

theorem AtWork.scratch (h : a.AtWork p f C) (ls : List Location) :
    a.scratch = .ok (.empty (p.scheme f ls).domain (p.scheme f ls).confluence) := by
  obtain ⟨s, rfl, _⟩ := h
  unfold Analysis.scratch
  cases p.scratchAtOnce <;> rfl

theorem AtWork.gather (h : a.AtWork p f C) (ls : List Location) {β : Type} {l : List β}
    {read : β → Except Error (FactSet α)} {value : β → OrderedSet α}
    (hread : ∀ b ∈ l, (read b).map FactSet.facts = .ok (value b)) :
    a.gather l read = .ok ((p.scheme f ls).pack
      (l.foldl (fun s b => (p.scheme f ls).confluence.meet s (value b))
        ((p.scheme f ls).confluence.top (p.scheme f ls).domain))) := by
  refine bind_eq_ok.2 ⟨_, h.scratch ls, ?_⟩
  rw [Scheme.toTop_empty]
  exact Scheme.foldlM_meet_pack hread _

end Analysis

namespace Engine

/-- What is met at a location, if the neighbors on the given side have these facts. -/
theorem met_eq (h : a.AtWork p f C) (hE : (p.scheme f ls).Regular) {l : Location} (hl : l ∈ ls)
    (value : Neighbor → OrderedSet α)
    (hquad : ∀ id, .quad id ∈ (p.scheme f ls).direction.incoming l →
      (e.toward a id (.quad l.id)).map FactSet.facts = .ok (value (.quad id)))
    (hentry : (p.scheme f ls).direction = .forward →
      (e.entry a).map FactSet.facts = .ok (value .entry))
    (hexit : (p.scheme f ls).direction = .backward →
      (e.exit a).map FactSet.facts = .ok (value .exit)) :
    e.met a l = .ok ((p.scheme f ls).pack (((p.scheme f ls).direction.incoming l).foldl
      (fun s n => (p.scheme f ls).confluence.meet s (value n))
      ((p.scheme f ls).confluence.top (p.scheme f ls).domain))) := by
  unfold met inflow
  rw [h.direction ls]
  exact h.gather ls fun n hn => Direction.map_inflow (hE.farEnd hl) hquad hentry hexit hn

theorem farValue_eq (h : a.AtWork p f C) {v : Valuation α}
    (hfar : ∀ l ∈ ls, (p.scheme f ls).direction.farEnd ∈ (p.scheme f ls).direction.outgoing l →
      (e.toward a l.id (p.scheme f ls).direction.farEnd).map FactSet.facts =
        .ok (v (p.scheme f ls).direction.solved l.id)) :
    e.farValue a ls = .ok ((p.scheme f ls).pack ((p.scheme f ls).farValue v)) := by
  unfold farValue
  rw [h.direction ls]
  refine h.gather ls fun l hl => ?_
  obtain ⟨hmem, hmeets⟩ := List.mem_filter.1 hl
  exact hfar l hmem (List.contains_iff_mem.1 hmeets)

/-- If a pass is a sweep, then from any earlier state the solver reaches one that belongs to the
maximal fixed point, and concludes from there. -/
theorem exists_solve {H : Valuation α → σ → Prop} {S : Valuation α → Analysis σ α → Prop}
    {watched : Location → Bool} {level : Level} (hp : p.Regular f) (hf : f.graph.Coherent)
    (hls : f.locations = .ok ls) (hcovers : (p.scheme f ls).Covers watched)
    (hprepare : ∃ b, (e.prepare f).Yields a () b ∧
      b.AtWork p f (H (p.scheme f ls).topValuation))
    (hseed : ∀ {a}, a.AtWork p f (H (p.scheme f ls).topValuation) →
      ∃ b, (e.seed ls).Yields a () b ∧ b.AtWork p f (H (p.scheme f ls).topValuation))
    (hpass : ∀ v a, a.AtWork p f (H v) → ∃ b, (e.pass level ls).Yields a
        ((p.scheme f ls).stirsAny watched v ((p.scheme f ls).direction.arrange ls)) b ∧
      b.AtWork p f (H ((p.scheme f ls).sweep v ((p.scheme f ls).direction.arrange ls))))
    (hsettle : ∀ {v a}, a.AtWork p f (H v) →
      ∃ b, (e.settle level ls).Yields a () b ∧ b.problem = p ∧ S v b) :
    ∃ v b, (p.scheme f ls).Greatest v ∧ S v b ∧ (e.solve level f a).state = b ∧
      (e.solve level f a).result = (p.conclude level f (e.readings b) ()).result := by
  obtain ⟨b, hb, hprepared⟩ := hprepare
  obtain ⟨c, hc, hseeded⟩ := hseed hprepared
  obtain ⟨d, hd, hdescended⟩ := Scheme.exists_yields_descend
    (H := fun v => Analysis.AtWork p f (H v)) (fun _ _ _ => Run.yields_say _ _ _ _) hpass
    (Problem.passLimit c.frame ls) 1 hseeded
  obtain ⟨x, hx, hproblem, hS⟩ := hsettle hdescended
  have hlike : (e.solve level f a).Like (e.conclude level f x) :=
    (hb.bind_like _).trans <| ((Run.yields_ofExcept hls _).bind_like _).trans <|
      (hc.bind_like _).trans <| ((Run.yields_get _).bind_like _).trans <|
      (hd.bind_like _).trans (hx.bind_like _)
  refine ⟨_, x, (hp.scheme hf hls).greatest_descend hcovers ?_, hS, hlike.2, ?_⟩
  · rw [hseeded.frame]
    exact hp.lt_passLimit ls
  · rw [hlike.1, ← hproblem]
    rfl

end Engine

end Engines

end Dataflow
