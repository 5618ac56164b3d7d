import Dataflow.Proofs.Solving
import Dataflow.Solver.Node

/-! # The solver with one value per side

A store holds a valuation if it has its values at every location and the boundary value where
the flow begins. Visits keep this up while the valuation takes the steps of the scheme, so
the solver ends with the maximal fixed point in its store, whatever was in it before.
-/
namespace Dataflow

variable {α : Type} [Fact α]

namespace NodeStore

/-- The boundary value where the flow begins. -/
def near (s : NodeStore (FactSet α)) : Direction → FactSet α
  | .forward => s.entry
  | .backward => s.exit

/-- A known value can be replaced, and nothing else is touched. -/
theorem exists_set {s : NodeStore (FactSet α)} {side : Side} {id : QuadId} {y : FactSet α}
    (h : s.get side id = .ok y) (x : FactSet α) :
    ∃ t, s.set side id x = .ok t ∧ t.entry = s.entry ∧ t.exit = s.exit ∧
      ∀ side' id', t.get side' id' =
        if side' = side ∧ id' = id then .ok x else s.get side' id' := by
  have hget : ∀ {old new : QuadTable (FactSet α)} (id' : QuadId), new.get id = .ok x →
      (∀ j, j ≠ id → new.get j = old.get j) →
      new.get id' = if id' = id then .ok x else old.get id' := by
    intro old new id' hsame hother
    by_cases hid : id' = id
    · rw [if_pos hid, hid, hsame]
    · rw [if_neg hid, hother id' hid]
  cases side with
  | input =>
    obtain ⟨w, hw, hsame, hother⟩ := QuadTable.exists_set h x
    refine ⟨{ s with inputs := w }, bind_eq_ok.2 ⟨w, hw, rfl⟩, rfl, rfl, fun side' id' => ?_⟩
    cases side' with
    | input => simpa [NodeStore.get] using hget id' hsame hother
    | output => simp [NodeStore.get]
  | output =>
    obtain ⟨w, hw, hsame, hother⟩ := QuadTable.exists_set h x
    refine ⟨{ s with outputs := w }, bind_eq_ok.2 ⟨w, hw, rfl⟩, rfl, rfl, fun side' id' => ?_⟩
    cases side' with
    | input => simp [NodeStore.get]
    | output => simpa [NodeStore.get] using hget id' hsame hother

structure Holds (E : Scheme α) (v : Valuation α) (s : NodeStore (FactSet α)) : Prop where
  get (side : Side) {l : Location} : l ∈ E.locations →
    s.get side l.id = .ok (E.pack (v side l.id))
  near : s.near E.direction = E.pack E.boundary

/-- As `Holds`, of the facts only. -/
structure Shows (E : Scheme α) (v : Valuation α) (s : NodeStore (FactSet α)) : Prop where
  get (side : Side) {l : Location} : l ∈ E.locations →
    (s.get side l.id).map FactSet.facts = .ok (v side l.id)
  near : (s.near E.direction).facts = E.boundary

theorem Holds.shows {E : Scheme α} {v : Valuation α} {s : NodeStore (FactSet α)}
    (h : s.Holds E v) : s.Shows E v where
  get side _ hl := congrArg (Except.map FactSet.facts) (h.get side hl)
  near := congrArg FactSet.facts h.near

theorem near_congr {s t : NodeStore (FactSet α)} (hentry : t.entry = s.entry)
    (hexit : t.exit = s.exit) (d : Direction) : t.near d = s.near d := by
  cases d with
  | forward => exact hentry
  | backward => exact hexit

theorem Holds.exists_set {E : Scheme α} {v : Valuation α} {s : NodeStore (FactSet α)}
    (h : s.Holds E v) (side : Side) {l : Location} (hl : l ∈ E.locations) (x : OrderedSet α) :
    ∃ t, s.set side l.id (E.pack x) = .ok t ∧ t.Holds E (v.set side l.id x) := by
  obtain ⟨t, ht, hentry, hexit, hget⟩ := NodeStore.exists_set (h.get side hl) (E.pack x)
  refine ⟨t, ht, fun side' {k} hk => ?_, ?_⟩
  · rw [hget, Valuation.set]
    split
    · rfl
    · exact h.get side' hk
  · exact (near_congr hentry hexit _).trans h.near

/-- The store with another boundary value where the flow ends. -/
def withFar (s : NodeStore (FactSet α)) (x : FactSet α) : Direction → NodeStore (FactSet α)
  | .forward => { s with exit := x }
  | .backward => { s with entry := x }

theorem Holds.withFar {E : Scheme α} {v : Valuation α} {s : NodeStore (FactSet α)} (h : s.Holds E v)
    (x : FactSet α) : (s.withFar x E.direction).Holds E v := by
  have hget : ∀ d side id, (s.withFar x d).get side id = s.get side id := by
    intro d side id
    cases d <;> cases side <;> rfl
  have hnear : ∀ d, (s.withFar x d).near d = s.near d := by
    intro d
    cases d <;> rfl
  exact ⟨fun side {l} hl => (hget _ side l.id).trans (h.get side hl), (hnear _).trans h.near⟩

theorem Holds.entry_withFar {E : Scheme α} {v : Valuation α} {s : NodeStore (FactSet α)}
    (h : s.Holds E v) : (s.withFar (E.pack (E.farValue v)) E.direction).entry =
      E.pack (E.entryValue v) := by
  have hnear := h.near
  unfold Scheme.entryValue
  cases hd : E.direction with
  | forward =>
    rw [hd] at hnear
    exact hnear
  | backward => rfl

theorem Holds.exit_withFar {E : Scheme α} {v : Valuation α} {s : NodeStore (FactSet α)}
    (h : s.Holds E v) : (s.withFar (E.pack (E.farValue v)) E.direction).exit =
      E.pack (E.exitValue v) := by
  have hnear := h.near
  unfold Scheme.exitValue
  cases hd : E.direction with
  | forward => rfl
  | backward =>
    rw [hd] at hnear
    exact hnear

end NodeStore

namespace NodeAnalysis

variable {p : Problem α} {f : Routine} {ls : List Location} {v : Valuation α}
  {a : NodeAnalysis α} {l : Location}

/-- The analysis is about the routine and its store holds the valuation. -/
def Holds (p : Problem α) (f : Routine) (ls : List Location) (v : Valuation α)
    (a : NodeAnalysis α) : Prop := a.AtWork p f (·.Holds (p.scheme f ls) v)

theorem Holds.get (h : Holds p f ls v a) (side : Side) (hl : l ∈ ls) :
    a.get side l.id = .ok ((p.scheme f ls).pack (v side l.id)) := by
  obtain ⟨s, rfl, hs⟩ := h
  exact hs.get side hl

theorem Holds.exists_set (h : Holds p f ls v a) (side : Side) (hl : l ∈ ls)
    (x : OrderedSet α) :
    ∃ b, a.set side l.id ((p.scheme f ls).pack x) = .ok b ∧
      Holds p f ls (v.set side l.id x) b := by
  obtain ⟨s, rfl, hs⟩ := h
  obtain ⟨t, ht, hold⟩ := hs.exists_set side hl x
  exact ⟨⟨p, p.frame f, some t⟩, bind_eq_ok.2 ⟨s, rfl, bind_eq_ok.2 ⟨t, ht, rfl⟩⟩, t, rfl, hold⟩

/-- The analysis is about the routine, with this value where the flow begins, and its store shows
the valuation. -/
def Shows (p : Problem α) (f : Routine) (ls : List Location) (near : OrderedSet α)
    (v : Valuation α) (a : NodeAnalysis α) : Prop :=
  a.AtWork p f (·.Shows ((p.scheme f ls).withBoundary near) v)

theorem Holds.shows (h : Holds p f ls v a) : Shows p f ls (p.scheme f ls).boundary v a := by
  obtain ⟨s, rfl, hs⟩ := h
  exact ⟨s, rfl, hs.shows⟩

theorem Shows.met {near : OrderedSet α} (h : Shows p f ls near v a)
    (hE : (p.scheme f ls).Regular) (hl : l ∈ ls) : engine.met a l =
      .ok ((p.scheme f ls).pack (((p.scheme f ls).withBoundary near).met v l)) := by
  have hatwork := h
  obtain ⟨s, rfl, hs⟩ := h
  have hnear := hs.near
  refine Engine.met_eq hatwork hE hl (((p.scheme f ls).withBoundary near).inflow v)
    (fun id hid => ?_) (fun hd => ?_) fun hd => ?_
  · obtain ⟨k, hk, rfl, _⟩ := hE.incoming hl hid
    exact hs.get _ hk
  · rw [hd] at hnear
    exact congrArg Except.ok hnear
  · rw [hd] at hnear
    exact congrArg Except.ok hnear

/-- A visit puts the meet on the given side of its quad and the transfer on the solved side, and
keeps all else. -/
theorem exists_visit {s : NodeStore (FactSet α)} {old y : FactSet α} {x : OrderedSet α}
    (hold : s.get (p.scheme f ls).direction.solved l.id = .ok old)
    (hgiven : s.get (p.scheme f ls).direction.given l.id = .ok y)
    (hmet : engine.met ⟨p, p.frame f, some s⟩ l = .ok ((p.scheme f ls).pack x)) :
    ∃ t w, NodeAnalysis.visit ⟨p, p.frame f, some s⟩ l = .ok w ∧
      w.analysis = ⟨p, p.frame f, some t⟩ ∧
      w.changed = decide ((p.scheme f ls).transfer l.quad x ≠ old.facts) ∧
      t.entry = s.entry ∧ t.exit = s.exit ∧ ∀ side id, t.get side id = if id = l.id then
        .ok ((p.scheme f ls).pack (if side = (p.scheme f ls).direction.given then x
          else (p.scheme f ls).transfer l.quad x))
        else s.get side id := by
  obtain ⟨t, ht, hentry, hexit, hget⟩ := NodeStore.exists_set hgiven ((p.scheme f ls).pack x)
  have hold' : t.get (p.scheme f ls).direction.solved l.id = .ok old := by
    rw [hget, if_neg fun h => (p.scheme f ls).direction.given_ne_solved h.1.symm, hold]
  obtain ⟨u, hu, hentry', hexit', hget'⟩ := NodeStore.exists_set hold'
    ((p.scheme f ls).pack ((p.scheme f ls).transfer l.quad x))
  have hprocess : NodeAnalysis.process ⟨p, p.frame f, some t⟩ l.quad =
      .ok ⟨p, p.frame f, some u⟩ := by
    have hx : t.get (p.scheme f ls).direction.given l.id = .ok ((p.scheme f ls).pack x) := by
      rw [hget, if_pos ⟨rfl, rfl⟩]
    exact bind_eq_ok.2 ⟨_, bind_eq_ok.2 ⟨t, rfl, hx⟩,
      bind_eq_ok.2 ⟨t, rfl, bind_eq_ok.2 ⟨u, hu, rfl⟩⟩⟩
  have hnew : u.get (p.scheme f ls).direction.solved l.id =
      .ok ((p.scheme f ls).pack ((p.scheme f ls).transfer l.quad x)) := by
    rw [hget', if_pos ⟨rfl, rfl⟩]
  refine ⟨u, ⟨!FactSet.same _ _, ⟨p, p.frame f, some u⟩, _, _⟩,
    bind_eq_ok.2 ⟨_, bind_eq_ok.2 ⟨s, rfl, hold⟩, bind_eq_ok.2 ⟨_, hmet,
    bind_eq_ok.2 ⟨⟨p, p.frame f, some t⟩, bind_eq_ok.2 ⟨s, rfl, bind_eq_ok.2 ⟨t, ht, rfl⟩⟩,
    bind_eq_ok.2 ⟨⟨p, p.frame f, some u⟩, hprocess,
    bind_eq_ok.2 ⟨_, bind_eq_ok.2 ⟨u, rfl, hnew⟩, rfl⟩⟩⟩⟩⟩, rfl, ?_, hentry'.trans hentry,
    hexit'.trans hexit, fun side id => ?_⟩
  · exact decide_not.symm
  · rw [hget', hget]
    by_cases hid : id = l.id
    · rcases (p.scheme f ls).direction.eq_given_or_eq_solved side with rfl | rfl
      · simp [hid, (p.scheme f ls).direction.given_ne_solved]
      · simp [hid, (p.scheme f ls).direction.given_ne_solved.symm]
    · simp [hid]

/-- A visit is a step of the scheme. -/
theorem Holds.exists_visit (h : Holds p f ls v a) (hE : (p.scheme f ls).Regular) (hl : l ∈ ls) :
    ∃ w, a.visit l = .ok w ∧ Holds p f ls ((p.scheme f ls).step v l) w.analysis ∧
      w.changed = (p.scheme f ls).stirs (fun _ => true) v l := by
  have hmet := h.shows.met hE hl
  obtain ⟨s, rfl, hs⟩ := h
  obtain ⟨t, w, hw, hanalysis, hchanged, hentry, hexit, hget⟩ := NodeAnalysis.exists_visit
    (hs.get (p.scheme f ls).direction.solved hl) (hs.get (p.scheme f ls).direction.given hl) hmet
  refine ⟨w, hw, ⟨t, hanalysis, fun side {k} hk => ?_, ?_⟩, ?_⟩
  · rw [hget, Scheme.step]
    split
    · rfl
    · exact hs.get side hk
  · exact (NodeStore.near_congr hentry hexit _).trans hs.near
  · rw [hchanged, Scheme.stirs, Scheme.step_solved, Bool.true_and]
    rfl

/-- Also where only the facts are known. -/
theorem Shows.exists_visit {near : OrderedSet α} (h : Shows p f ls near v a)
    (hE : (p.scheme f ls).Regular) (hl : l ∈ ls) :
    ∃ w, a.visit l = .ok w ∧
      Shows p f ls near (((p.scheme f ls).withBoundary near).step v l) w.analysis ∧
      w.changed = ((p.scheme f ls).withBoundary near).stirs (fun _ => true) v l := by
  have hmet := h.met hE hl
  obtain ⟨s, rfl, hs⟩ := h
  obtain ⟨old, hold, hfacts⟩ := exists_of_map_facts (hs.get (p.scheme f ls).direction.solved hl)
  obtain ⟨y, hy, _⟩ := exists_of_map_facts (hs.get (p.scheme f ls).direction.given hl)
  obtain ⟨t, w, hw, hanalysis, hchanged, hentry, hexit, hget⟩ :=
    NodeAnalysis.exists_visit hold hy hmet
  refine ⟨w, hw, ⟨t, hanalysis, fun side {k} hk => ?_, ?_⟩, ?_⟩
  · rw [hget, Scheme.step]
    split
    · rfl
    · exact hs.get side hk
  · exact (congrArg FactSet.facts (NodeStore.near_congr hentry hexit _)).trans hs.near
  · rw [hchanged, Scheme.stirs, Scheme.step_solved, Bool.true_and, hfacts]

theorem Holds.exists_pass (h : Holds p f ls v a) (hE : (p.scheme f ls).Regular) (level : Level) :
    ∃ b, (pass level ls).Yields a ((p.scheme f ls).stirsAny (fun _ => true) v
        ((p.scheme f ls).direction.arrange ls)) b ∧
      Holds p f ls ((p.scheme f ls).sweep v ((p.scheme f ls).direction.arrange ls)) b :=
  engine.exists_pass (H := Holds p f ls) ((p.scheme f ls).stirsAny fun _ => true) (fun _ => rfl)
    (fun _ _ _ => rfl) (·.direction ls) (fun h _ hl => h.exists_visit hE hl) h

theorem Shows.exists_pass {near : OrderedSet α} (h : Shows p f ls near v a)
    (hE : (p.scheme f ls).Regular) (level : Level) :
    ∃ b, (pass level ls).Yields a (((p.scheme f ls).withBoundary near).stirsAny (fun _ => true) v
        ((p.scheme f ls).direction.arrange ls)) b ∧
      Shows p f ls near (((p.scheme f ls).withBoundary near).sweep v
        ((p.scheme f ls).direction.arrange ls)) b :=
  engine.exists_pass (H := Shows p f ls near)
    (((p.scheme f ls).withBoundary near).stirsAny fun _ => true) (fun _ => rfl) (fun _ _ _ => rfl)
    (·.direction ls) (fun h _ hl => h.exists_visit hE hl) h

theorem holds_prepare (hp : p.Regular f) (hf : f.graph.Coherent) (hls : f.locations = .ok ls)
    (ha : a.problem = p) : Holds p f ls (p.scheme f ls).topValuation (a.prepare f) := by
  subst ha
  refine ⟨.ofRoutine f (a.problem.initial (a.problem.frame f))
    (a.problem.boundary (a.problem.frame f)), rfl, fun side {l} hl => ?_, ?_⟩
  · have hq : l.quad ∈ f.quads := FlowGraph.mem_quads_of_location hls hl
    have htop : a.problem.initial (a.problem.frame f) =
        (a.problem.scheme f ls).pack ((a.problem.scheme f ls).topValuation side l.id) :=
      Scheme.toTop_empty (E := a.problem.scheme f ls)
    rw [← htop]
    cases side <;> exact QuadTable.get_ofRoutine hf _ hq
  · rw [hp.boundary]
    cases (a.problem.scheme f ls).direction <;> rfl

theorem Holds.exists_seed (h : Holds p f ls (p.scheme f ls).topValuation a) :
    ∃ b, (seed ls).Yields a () b ∧ Holds p f ls (p.scheme f ls).topValuation b := by
  refine Run.exists_yields_forM (fun l hl a h => ?_) h
  obtain ⟨b, hb, hholds⟩ := h.exists_set (p.scheme f ls).direction.solved hl
    ((p.scheme f ls).confluence.top (p.scheme f ls).domain)
  have hsame : (Valuation.set (p.scheme f ls).topValuation (p.scheme f ls).direction.solved l.id
      ((p.scheme f ls).confluence.top (p.scheme f ls).domain)) =
      (p.scheme f ls).topValuation := by
    funext side id
    simp [Valuation.set, Scheme.topValuation]
  rw [hsame] at hholds
  refine ⟨b, (Run.yields_get a).bind ((Run.yields_ofExcept (h.scratch ls) a).bind ?_), hholds⟩
  rw [h.direction ls, Scheme.toTop_empty]
  exact (Run.yields_change hb).bind (Run.yields_pure () b)

/-- The store holds the valuation, and both boundary values belong to it. -/
structure Settled (p : Problem α) (f : Routine) (ls : List Location) (v : Valuation α)
    (a : NodeAnalysis α) : Prop where
  holds : Holds p f ls v a
  entry : a.entry = .ok ((p.scheme f ls).pack ((p.scheme f ls).entryValue v))
  exit : a.exit = .ok ((p.scheme f ls).pack ((p.scheme f ls).exitValue v))

theorem Holds.farValue (h : Holds p f ls v a) :
    engine.farValue a ls = .ok ((p.scheme f ls).pack ((p.scheme f ls).farValue v)) := by
  have hatwork := h
  obtain ⟨s, rfl, hs⟩ := h
  exact Engine.farValue_eq hatwork fun l hl _ => congrArg (Except.map FactSet.facts) (hs.get _ hl)

theorem Holds.exists_settle (h : Holds p f ls v a) (level : Level) :
    ∃ b, (settle level ls).Yields a () b ∧ Settled p f ls v b := by
  have hfar := h.farValue
  have hdirection := h.direction ls
  obtain ⟨s, rfl, hs⟩ := h
  refine ⟨⟨p, p.frame f, some (s.withFar _ (p.scheme f ls).direction)⟩,
    Engine.yields_settle hfar ?_, ⟨_, rfl, hs.withFar _⟩, congrArg Except.ok hs.entry_withFar,
    congrArg Except.ok hs.exit_withFar⟩
  rw [hdirection]
  cases (p.scheme f ls).direction <;> rfl

/-- From any earlier state, the solver reaches one that holds the maximal fixed point, and
concludes from there. -/
theorem exists_solve (hp : p.Regular f) (hf : f.graph.Coherent) (hls : f.locations = .ok ls)
    (ha : a.problem = p) (level : Level) :
    ∃ v b, (p.scheme f ls).Greatest v ∧ Settled p f ls v b ∧
      (solve level f a).state = b ∧
      (solve level f a).result = (p.conclude level f b.readings ()).result := by
  have hE := hp.scheme hf hls
  refine Engine.exists_solve (H := NodeStore.Holds (p.scheme f ls)) hp hf hls
    (fun _ _ _ _ _ _ _ => rfl) ⟨_, Run.yields_change rfl, holds_prepare hp hf hls ha⟩
    Holds.exists_seed (fun v a h => Holds.exists_pass h hE level) fun h => ?_
  obtain ⟨b, hb, hsettled⟩ := Holds.exists_settle h level
  exact ⟨b, hb, hsettled.holds.problem, hsettled⟩

theorem solve_of_error {e : Error} (hls : f.locations = .error e) (level : Level)
    (a : NodeAnalysis α) : (solve level f a).result = .error e := by
  have hprepare : (engine.prepare f).Yields a () (a.prepare f) := Run.yields_change rfl
  have hlike : (solve level f a).Like _ := hprepare.bind_like _
  rw [hlike.1]
  exact Run.bind_result_of_error hls _

end NodeAnalysis

end Dataflow
