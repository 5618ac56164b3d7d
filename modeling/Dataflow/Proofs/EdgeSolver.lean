import Dataflow.Proofs.Solving
import Dataflow.Solver.Edge

/-! # The solver with one value per edge

As long as no edge departs from the others, all edges of a quad carry its solved value, so the
store holds a valuation here too. A quad without edges on its solved side is not watched for
changes; nothing flows from it, so the fixed point does not depend on it.
-/
namespace Dataflow

variable {α : Type} [Fact α]

namespace EdgeStore

/-- The boundary value where the flow begins. -/
def near (s : EdgeStore α) : Direction → FactSet α
  | .forward => s.entry
  | .backward => s.exit

structure Holds (E : Scheme α) (v : Valuation α) (s : EdgeStore α) : Prop where
  direction : s.direction = E.direction
  top : s.top = E.pack (E.confluence.top E.domain)
  unified {l : Location} : l ∈ E.locations →
    s.unified.get l.id = .ok (E.pack (v E.direction.given l.id))
  uniform {l : Location} : l ∈ E.locations →
    s.edges.Uniform l.id (E.direction.slots l) (E.pack (v E.direction.solved l.id))
  near : s.near E.direction = E.pack E.boundary

variable {E : Scheme α} {v : Valuation α} {s : EdgeStore α} {l : Location}

theorem Holds.get (h : s.Holds E v) (hl : l ∈ E.locations) {n : Neighbor}
    (hn : n ∈ E.direction.slots l) :
    s.get E.direction.solved l.id n = .ok (E.pack (v E.direction.solved l.id)) := by
  unfold EdgeStore.get
  rw [h.direction, if_pos rfl]
  exact (h.uniform hl).get hn

/-- The facts of an edge that the quad has. -/
theorem map_get (s : EdgeStore α) {side : Side} {id : QuadId} {n : Neighbor} {x : OrderedSet α}
    {edges : OrderedMap Neighbor (FactSet α)} (hside : side = s.direction.solved)
    (hedges : s.edges.slots.get? id = some edges)
    (hn : (edges.get? n).map FactSet.facts = some x) :
    (s.get side id n).map FactSet.facts = .ok x := by
  obtain ⟨y, hy, hfacts⟩ := Option.map_eq_some_iff.1 hn
  have hget : s.edges.get id n = .ok y := by
    refine bind_eq_ok.2 ⟨edges, EdgeTable.edges_eq_ok.2 hedges, ?_⟩
    rw [hy]
    rfl
  rw [EdgeStore.get, if_pos hside, hget, ← hfacts]
  rfl

/-- The store after both sides of a quad have been written. -/
def revised (s : EdgeStore α) (id : QuadId) (table : QuadTable (FactSet α))
    (edges : OrderedMap Neighbor (FactSet α)) (z : FactSet α) : EdgeStore α :=
  { s with unified := table, edges := ⟨s.edges.slots.set id (edges.map fun _ => z)⟩ }

theorem map_get_revised (s : EdgeStore α) {side : Side} {id : QuadId} {n : Neighbor}
    {table : QuadTable (FactSet α)} {edges : OrderedMap Neighbor (FactSet α)} {x : OrderedSet α}
    (hside : side = s.direction.solved) (hn : (edges.get? n).map FactSet.facts = some x)
    (z : FactSet α) :
    ((s.revised id table edges z).get side id n).map FactSet.facts = .ok z.facts := by
  obtain ⟨y, hy, _⟩ := Option.map_eq_some_iff.1 hn
  have hedges : (s.revised id table edges z).edges.slots.get? id =
      some (edges.map fun _ => z) := by
    rw [revised, OrderedMap.get?_set, if_pos rfl]
  refine map_get _ hside hedges ?_
  rw [OrderedMap.get?_map, hy]
  rfl

theorem Holds.getAll_given (h : s.Holds E v) (hl : l ∈ E.locations) :
    s.getAll E.direction.given l.id = .ok (E.pack (v E.direction.given l.id)) := by
  unfold EdgeStore.getAll
  rw [h.direction, if_neg E.direction.given_ne_solved]
  exact h.unified hl

theorem Holds.getAll (h : s.Holds E v) (hin : E.Inside v) (side : Side) (hl : l ∈ E.locations) :
    s.getAll side l.id = .ok (E.pack (v side l.id)) := by
  rcases E.direction.eq_given_or_eq_solved side with rfl | rfl
  · exact h.getAll_given hl
  · have hsub := hin E.direction.solved l hl
    unfold EdgeStore.getAll
    rw [h.direction, if_pos rfl, h.top]
    refine (h.uniform hl).meetAll_eq (E.direction.slots_ne_nil l) ?_ ?_
    · rw [Scheme.pack_meet]
      exact congrArg E.pack (Confluence.top_meet hsub)
    · rw [Scheme.pack_meet]
      exact congrArg E.pack (Confluence.meet_self _ _)

/-- The store with another boundary value where the flow ends. -/
def withFar (s : EdgeStore α) (x : FactSet α) : Direction → EdgeStore α
  | .forward => { s with exit := x }
  | .backward => { s with entry := x }

theorem Holds.withFar {E : Scheme α} {v : Valuation α} {s : EdgeStore α} (h : s.Holds E v)
    (x : FactSet α) : (s.withFar x E.direction).Holds E v := by
  have hrest : ∀ d, (s.withFar x d).direction = s.direction ∧ (s.withFar x d).top = s.top ∧
      (s.withFar x d).unified = s.unified ∧ (s.withFar x d).edges = s.edges ∧
      (s.withFar x d).near d = s.near d := by
    intro d
    cases d <;> exact ⟨rfl, rfl, rfl, rfl, rfl⟩
  obtain ⟨hdirection, htop, hunified, hedges, hnear⟩ := hrest E.direction
  refine ⟨hdirection.trans h.direction, htop.trans h.top, fun {l} hl => ?_, fun {l} hl => ?_,
    hnear.trans h.near⟩
  · rw [hunified]
    exact h.unified hl
  · rw [hedges]
    exact h.uniform hl

theorem Holds.entry_withFar {E : Scheme α} {v : Valuation α} {s : EdgeStore α}
    (h : s.Holds E v) : (s.withFar (E.pack (E.farValue v)) E.direction).entry =
      E.pack (E.entryValue v) := by
  have hnear := h.near
  unfold Scheme.entryValue
  cases hd : E.direction with
  | forward =>
    rw [hd] at hnear
    exact hnear
  | backward => rfl

theorem Holds.exit_withFar {E : Scheme α} {v : Valuation α} {s : EdgeStore α}
    (h : s.Holds E v) : (s.withFar (E.pack (E.farValue v)) E.direction).exit =
      E.pack (E.exitValue v) := by
  have hnear := h.near
  unfold Scheme.exitValue
  cases hd : E.direction with
  | forward => rfl
  | backward =>
    rw [hd] at hnear
    exact hnear

end EdgeStore

namespace EdgeAnalysis

variable {p : Problem α} {f : Routine} {ls : List Location} {v : Valuation α}
  {a : EdgeAnalysis α} {l : Location}

/-- The analysis is about the routine and its store holds the valuation. -/
def Holds (p : Problem α) (f : Routine) (ls : List Location) (v : Valuation α)
    (a : EdgeAnalysis α) : Prop := a.AtWork p f (·.Holds (p.scheme f ls) v)

theorem Holds.get (h : Holds p f ls v a) (hl : l ∈ ls) {n : Neighbor}
    (hn : n ∈ (p.scheme f ls).direction.slots l) :
    a.get (p.scheme f ls).direction.solved l.id n =
      .ok ((p.scheme f ls).pack (v (p.scheme f ls).direction.solved l.id)) := by
  obtain ⟨s, rfl, hs⟩ := h
  exact hs.get hl hn

theorem Holds.getAll (h : Holds p f ls v a) (hin : (p.scheme f ls).Inside v) (side : Side)
    (hl : l ∈ ls) : a.getAll side l.id = .ok ((p.scheme f ls).pack (v side l.id)) := by
  obtain ⟨s, rfl, hs⟩ := h
  exact hs.getAll hin side hl

theorem Holds.met (h : Holds p f ls v a) (hE : (p.scheme f ls).Regular) (hl : l ∈ ls) :
    engine.met a l = .ok ((p.scheme f ls).pack ((p.scheme f ls).met v l)) := by
  have hatwork := h
  obtain ⟨s, rfl, hs⟩ := h
  have hnear := congrArg FactSet.facts hs.near
  refine Engine.met_eq hatwork hE hl ((p.scheme f ls).inflow v)
    (fun id hid => ?_) (fun hd => ?_) fun hd => ?_
  · obtain ⟨k, hk, rfl, hout⟩ := hE.incoming hl hid
    exact congrArg (Except.map FactSet.facts) (hs.get hk (Direction.mem_slots hout))
  · rw [hd] at hnear
    exact congrArg Except.ok hnear
  · rw [hd] at hnear
    exact congrArg Except.ok hnear

/-- Where a location has edges on the solved side, a change there is seen. -/
def watched (d : Direction) (l : Location) : Bool := !(d.outgoing l).isEmpty

theorem covers_watched {E : Scheme α} (hE : E.Regular) : E.Covers (watched E.direction) := by
  intro l hl id hid k hk hkid
  obtain ⟨j, hj, hjid, hout⟩ := hE.incoming hl hid
  cases List.inj_on_of_nodup_map hE.nodup hk hj (hkid.trans hjid.symm)
  unfold watched
  cases hempty : E.direction.outgoing k with
  | nil =>
    rw [hempty] at hout
    exact absurd hout List.not_mem_nil
  | cons n ns => rfl

/-- The facts that a snapshot takes, edge by edge. -/
theorem exists_snapshot {value : Neighbor → OrderedSet α}
    (h : ∀ n ∈ a.direction.outgoing l,
      (a.get a.direction.solved l.id n).map FactSet.facts = .ok (value n)) :
    ∃ values, a.snapshot l = .ok values ∧ ∀ n, (values.map FactSet.facts).get? n =
      if n ∈ a.direction.outgoing l then some (value n) else none := by
  have hfold : ∀ (ns : List Neighbor) (m : OrderedMap Neighbor (FactSet α)),
      (∀ n ∈ ns, (a.get a.direction.solved l.id n).map FactSet.facts = .ok (value n)) →
      ∃ values, ns.foldlM (fun values n => do
          return OrderedMap.set values n (← a.get a.direction.solved l.id n)) m = .ok values ∧
        ∀ n, (values.get? n).map FactSet.facts =
          if n ∈ ns then some (value n) else (m.get? n).map FactSet.facts := by
    intro ns
    induction ns with
    | nil => exact fun m _ => ⟨m, rfl, fun n => by simp⟩
    | cons k ns ih =>
      intro m hns
      obtain ⟨x, hx, hfacts⟩ := exists_of_map_facts (hns k List.mem_cons_self)
      obtain ⟨values, hvalues, hget⟩ := ih (m.set k x) fun n hn => hns n (List.mem_cons_of_mem k hn)
      refine ⟨values, ?_, fun n => ?_⟩
      · rw [List.foldlM_cons, hx]
        exact hvalues
      · rw [hget, OrderedMap.get?_set]
        by_cases hn : n ∈ ns
        · rw [if_pos hn, if_pos (List.mem_cons_of_mem k hn)]
        · by_cases hk : n = k
          · rw [if_neg hn, if_pos hk, if_pos (hk ▸ List.mem_cons_self), hk, ← hfacts]
            rfl
          · rw [if_neg hn, if_neg hk, if_neg fun hm => (List.mem_cons.1 hm).elim hk hn]
  obtain ⟨values, hvalues, hget⟩ := hfold _ ∅ h
  refine ⟨values, hvalues, fun n => ?_⟩
  rw [OrderedMap.get?_map, hget]
  rfl

/-- Two snapshots differ exactly if some edge has other facts. -/
theorem decide_ne_eq_any {values values' : OrderedMap Neighbor (OrderedSet α)} {ns : List Neighbor}
    {value value' : Neighbor → OrderedSet α}
    (h : ∀ n, values.get? n = if n ∈ ns then some (value n) else none)
    (h' : ∀ n, values'.get? n = if n ∈ ns then some (value' n) else none) :
    decide (values ≠ values') = ns.any fun n => decide (value n ≠ value' n) := by
  rw [Bool.eq_iff_iff, decide_eq_true_eq, List.any_eq_true]
  simp only [decide_eq_true_eq]
  constructor
  · intro hne
    by_contra hall
    refine hne (OrderedMap.ext fun n => ?_)
    rw [h, h']
    by_cases hn : n ∈ ns
    · rw [if_pos hn, if_pos hn, not_not.1 fun hvalue => hall ⟨n, hn, hvalue⟩]
    · rw [if_neg hn, if_neg hn]
  · rintro ⟨n, hn, hvalue⟩ rfl
    have hboth := (h n).symm.trans (h' n)
    rw [if_pos hn, if_pos hn] at hboth
    exact hvalue (Option.some.inj hboth)

section Visit

variable {s : EdgeStore α} {y : FactSet α} {x : OrderedSet α} {table : QuadTable (FactSet α)}
  {edges : OrderedMap Neighbor (FactSet α)} {value : Neighbor → OrderedSet α}

theorem process_eq (hp : p.Regular f) (hdirection : s.direction = (p.scheme f ls).direction)
    (hgiven : table.get l.id = .ok ((p.scheme f ls).pack x))
    (hedges : s.edges.slots.get? l.id = some edges) :
    EdgeAnalysis.process ⟨p, p.frame f, some { s with unified := table }⟩ l.quad =
      .ok ⟨p, p.frame f, some (s.revised l.id table edges
        ((p.scheme f ls).pack ((p.scheme f ls).transfer l.quad x)))⟩ := by
  have hside : (p.scheme f ls).direction.solved = s.direction.solved := by rw [hdirection]
  have hread : EdgeStore.getAll { s with unified := table } (p.scheme f ls).direction.given l.id =
      .ok ((p.scheme f ls).pack x) := by
    rw [EdgeStore.getAll, if_neg (hside ▸ (p.scheme f ls).direction.given_ne_solved)]
    exact hgiven
  have hwrite : ∀ z, EdgeStore.setAll { s with unified := table } (p.scheme f ls).direction.solved
      l.id z = .ok (s.revised l.id table edges z) := by
    intro z
    rw [EdgeStore.setAll, if_pos hside, EdgeTable.setAll, EdgeTable.edges_eq_ok.2 hedges]
    rfl
  refine bind_eq_ok.2 ⟨_, bind_eq_ok.2 ⟨_, rfl, hread⟩,
    bind_eq_ok.2 ⟨_, bind_eq_ok.2 ⟨_, rfl, bind_eq_ok.2 ⟨_, hwrite _, rfl⟩⟩, ?_⟩⟩
  show ((p.frame f).departures l.quad).foldlM _ _ = _
  rw [hp.departures]
  rfl

/-- A visit puts the meet on the given side of its quad and the transfer on every edge that the
quad has, and keeps all else. -/
theorem exists_visit (hp : p.Regular f) (hdirection : s.direction = (p.scheme f ls).direction)
    (hgiven : s.unified.get l.id = .ok y) (hedges : s.edges.slots.get? l.id = some edges)
    (hvalue : ∀ n ∈ (p.scheme f ls).direction.outgoing l,
      (edges.get? n).map FactSet.facts = some (value n))
    (hmet : engine.met ⟨p, p.frame f, some s⟩ l = .ok ((p.scheme f ls).pack x)) :
    ∃ table w, EdgeAnalysis.visit ⟨p, p.frame f, some s⟩ l = .ok w ∧
      (∀ id, table.get id =
        if id = l.id then .ok ((p.scheme f ls).pack x) else s.unified.get id) ∧
      w.analysis = ⟨p, p.frame f, some (s.revised l.id table edges
        ((p.scheme f ls).pack ((p.scheme f ls).transfer l.quad x)))⟩ ∧
      w.changed = ((p.scheme f ls).direction.outgoing l).any fun n =>
        decide ((p.scheme f ls).transfer l.quad x ≠ value n) := by
  obtain ⟨table, htable, hsame, hother⟩ := QuadTable.exists_set hgiven ((p.scheme f ls).pack x)
  have hget : ∀ id, table.get id =
      if id = l.id then .ok ((p.scheme f ls).pack x) else s.unified.get id := by
    intro id
    by_cases hid : id = l.id
    · rw [if_pos hid, hid, hsame]
    · rw [if_neg hid, hother id hid]
  have hside : (p.scheme f ls).direction.solved = s.direction.solved := by rw [hdirection]
  obtain ⟨old, hold, hfacts⟩ := exists_snapshot (a := ⟨p, p.frame f, some s⟩) fun n hn =>
    s.map_get hside hedges (hvalue n hn)
  obtain ⟨new, hnew, hfacts'⟩ := exists_snapshot (a := ⟨p, p.frame f, some (s.revised l.id table
    edges ((p.scheme f ls).pack ((p.scheme f ls).transfer l.quad x)))⟩) fun n hn =>
      s.map_get_revised hside (hvalue n hn) _
  have hwrite : s.setAll (p.scheme f ls).direction.given l.id ((p.scheme f ls).pack x) =
      .ok { s with unified := table } := by
    rw [EdgeStore.setAll, if_neg (hside ▸ (p.scheme f ls).direction.given_ne_solved)]
    exact bind_eq_ok.2 ⟨table, htable, rfl⟩
  refine ⟨table, ⟨decide _, _, _, _⟩, bind_eq_ok.2 ⟨old, hold,
    bind_eq_ok.2 ⟨_, hmet,
    bind_eq_ok.2 ⟨_, bind_eq_ok.2 ⟨s, rfl, bind_eq_ok.2 ⟨_, hwrite, rfl⟩⟩,
    bind_eq_ok.2 ⟨_, process_eq hp hdirection hsame hedges, bind_eq_ok.2 ⟨new, hnew, rfl⟩⟩⟩⟩⟩,
    hget, rfl, ?_⟩
  exact decide_ne_eq_any hfacts' hfacts

end Visit

/-- A visit is a step of the scheme. -/
theorem Holds.exists_visit (h : Holds p f ls v a) (hp : p.Regular f)
    (hE : (p.scheme f ls).Regular) (hl : l ∈ ls) :
    ∃ w, a.visit l = .ok w ∧ Holds p f ls ((p.scheme f ls).step v l) w.analysis ∧
      w.changed = (p.scheme f ls).stirs (watched (p.scheme f ls).direction) v l := by
  have hmet := h.met hE hl
  obtain ⟨s, rfl, hs⟩ := h
  obtain ⟨edges, hedges, hslots⟩ := hs.uniform hl
  have hvalue : ∀ n ∈ (p.scheme f ls).direction.outgoing l,
      (edges.get? n).map FactSet.facts = some (v (p.scheme f ls).direction.solved l.id) := by
    intro n hn
    rw [hslots, if_pos (Direction.mem_slots hn)]
    rfl
  obtain ⟨table, w, hw, htable, hanalysis, hchanged⟩ :=
    EdgeAnalysis.exists_visit hp hs.direction (hs.unified hl) hedges hvalue hmet
  refine ⟨w, hw, ⟨_, hanalysis, hs.direction, hs.top, fun {k} hk => ?_, fun {k} hk => ?_, hs.near⟩,
    ?_⟩
  · show table.get k.id = _
    by_cases hid : k.id = l.id
    · rw [htable, if_pos hid, hid, Scheme.step_given]
    · rw [htable, if_neg hid, Scheme.step_other hid]
      exact hs.unified hk
  · show EdgeTable.Uniform ⟨s.edges.slots.set l.id _⟩ k.id _ _
    by_cases hid : k.id = l.id
    · cases List.inj_on_of_nodup_map hE.nodup hk hl hid
      rw [Scheme.step_solved]
      refine ⟨_, (OrderedMap.get?_set _ _ _ _).trans (if_pos rfl), fun n => ?_⟩
      rw [OrderedMap.get?_map, hslots]
      split <;> rfl
    · rw [Scheme.step_other hid]
      obtain ⟨edges', hedges', hslots'⟩ := hs.uniform hk
      exact ⟨edges', ((OrderedMap.get?_set _ _ _ _).trans (if_neg hid)).trans hedges', hslots'⟩
  · rw [hchanged, Scheme.stirs, Scheme.step_solved, watched]
    cases (p.scheme f ls).direction.outgoing l with
    | nil => rfl
    | cons n ns => simp

theorem Holds.exists_pass (h : Holds p f ls v a) (hp : p.Regular f)
    (hE : (p.scheme f ls).Regular) (level : Level) :
    ∃ b, (pass level ls).Yields a ((p.scheme f ls).stirsAny (watched (p.scheme f ls).direction) v
        ((p.scheme f ls).direction.arrange ls)) b ∧
      Holds p f ls ((p.scheme f ls).sweep v ((p.scheme f ls).direction.arrange ls)) b :=
  engine.exists_pass (H := Holds p f ls)
    ((p.scheme f ls).stirsAny (watched (p.scheme f ls).direction)) (fun _ => rfl)
    (fun _ _ _ => rfl) (·.direction ls) (fun h _ hl => h.exists_visit hp hE hl) h

theorem exists_prepare (hp : p.Regular f) (hf : f.graph.Coherent) (hls : f.locations = .ok ls)
    (ha : a.problem = p) :
    ∃ b, (prepare f).Yields a () b ∧ Holds p f ls (p.scheme f ls).topValuation b := by
  subst ha
  have htop : a.problem.initial (a.problem.frame f) = (a.problem.scheme f ls).pack
      ((a.problem.scheme f ls).confluence.top (a.problem.scheme f ls).domain) :=
    Scheme.toTop_empty (E := a.problem.scheme f ls)
  have hnd := hf.locations_nodup hls
  let s : EdgeStore α := .ofRoutine a.problem.direction f ls
    (a.problem.initial (a.problem.frame f)) (a.problem.boundary (a.problem.frame f))
  refine ⟨⟨a.problem, a.problem.frame f, some s⟩, ?_, s, rfl, rfl, ?_, fun {l} hl => ?_,
    fun {l} hl => ?_, ?_⟩
  · exact (Run.yields_get a).bind ((Run.yields_put _ _).bind
      ((Run.yields_ofExcept hls _).bind (Run.yields_put _ _)))
  · show (a.problem.initial (a.problem.frame f)).toTop = _
    rw [htop]
    exact Scheme.toTop_empty (E := a.problem.scheme f ls)
  · show (QuadTable.ofRoutine f (a.problem.initial (a.problem.frame f))).get l.id = _
    rw [htop]
    exact QuadTable.get_ofRoutine hf _ (FlowGraph.mem_quads_of_location hls hl)
  · show EdgeTable.Uniform (match a.problem.direction with
      | .forward => .ofSuccessors ls (a.problem.initial (a.problem.frame f))
      | .backward => .ofPredecessors ls (a.problem.initial (a.problem.frame f))) l.id
      (a.problem.direction.slots l) _
    rw [htop]
    cases a.problem.direction with
    | forward => exact EdgeTable.uniform_ofList .forward hnd _ hl
    | backward => exact EdgeTable.uniform_ofList .backward hnd _ hl
  · have hboundary : s.near (a.problem.scheme f ls).direction =
        a.problem.boundary (a.problem.frame f) := by
      cases (a.problem.scheme f ls).direction <;> rfl
    rw [hboundary, hp.boundary]
    rfl

/-- All values are at the top before the edges are set to it. -/
theorem Holds.seed (h : Holds p f ls (p.scheme f ls).topValuation a) :
    (seed ls).Yields a () a := by
  refine Run.yields_forM_same fun l hl => ?_
  refine (Run.yields_get a).bind ((Run.yields_ofExcept (h.scratch ls) a).bind
    (Run.yields_forM_same fun write hwrite => Run.yields_change ?_))
  rw [h.direction ls, Scheme.toTop_empty] at hwrite
  obtain ⟨n, hn, rfl⟩ := List.mem_map.1 hwrite
  obtain ⟨s, rfl, hs⟩ := h
  have hset := (hs.uniform hl).set_same (Direction.mem_slots hn)
  refine Analysis.write_eq_ok.2 ⟨s, s, rfl, ?_, rfl⟩
  have hside : (p.scheme f ls).direction.solved = s.direction.solved := by rw [hs.direction]
  unfold EdgeStore.set
  rw [if_pos hside]
  exact bind_eq_ok.2 ⟨_, hset, rfl⟩

/-- The store holds the valuation, and both boundary values belong to it. -/
structure Settled (p : Problem α) (f : Routine) (ls : List Location) (v : Valuation α)
    (a : EdgeAnalysis α) : Prop where
  holds : Holds p f ls v a
  entry : a.entry = .ok ((p.scheme f ls).pack ((p.scheme f ls).entryValue v))
  exit : a.exit = .ok ((p.scheme f ls).pack ((p.scheme f ls).exitValue v))

theorem Holds.farValue (h : Holds p f ls v a) :
    engine.farValue a ls = .ok ((p.scheme f ls).pack ((p.scheme f ls).farValue v)) := by
  have hatwork := h
  obtain ⟨s, rfl, hs⟩ := h
  exact Engine.farValue_eq hatwork fun l hl hfar =>
    congrArg (Except.map FactSet.facts) (hs.get hl (Direction.mem_slots hfar))

theorem Holds.exists_settle (h : Holds p f ls v a) (level : Level) :
    ∃ b, (settle level ls).Yields a () b ∧ Settled p f ls v b := by
  have hfar := h.farValue
  have hdirection := h.direction ls
  obtain ⟨s, rfl, hs⟩ := h
  refine ⟨⟨p, p.frame f, some (s.withFar _ (p.scheme f ls).direction)⟩,
    Engine.yields_settle hfar ?_, ⟨_, rfl, hs.withFar _⟩, congrArg Except.ok hs.entry_withFar,
    congrArg Except.ok hs.exit_withFar⟩
  rw [hdirection]
  cases (p.scheme f ls).direction <;> rfl

/-- From any earlier state, the solver reaches one that holds the maximal fixed point, and
concludes from there. -/
theorem exists_solve (hp : p.Regular f) (hf : f.graph.Coherent) (hls : f.locations = .ok ls)
    (ha : a.problem = p) (level : Level) :
    ∃ v b, (p.scheme f ls).Greatest v ∧ Settled p f ls v b ∧
      (solve level f a).state = b ∧
      (solve level f a).result = (p.conclude level f b.readings ()).result := by
  have hE := hp.scheme hf hls
  refine Engine.exists_solve (H := EdgeStore.Holds (p.scheme f ls)) hp hf hls
    (covers_watched hE) (exists_prepare hp hf hls ha) (fun h => ⟨_, Holds.seed h, h⟩)
    (fun v a h => Holds.exists_pass h hp hE level) fun h => ?_
  obtain ⟨b, hb, hsettled⟩ := Holds.exists_settle h level
  exact ⟨b, hb, hsettled.holds.problem, hsettled⟩

theorem solve_of_error {e : Error} (hls : f.locations = .error e) (level : Level)
    (a : EdgeAnalysis α) : (solve level f a).result = .error e := by
  have hlike : (prepare f a).Like _ := ((Run.yields_get a).bind_like _).trans
    ((Run.yields_put _ _).bind_like _)
  have hprepare : (prepare f a).result = .error e := by
    rw [hlike.1]
    exact Run.bind_result_of_error hls _
  exact Run.bind_result_of_error hprepare _

end EdgeAnalysis

end Dataflow
