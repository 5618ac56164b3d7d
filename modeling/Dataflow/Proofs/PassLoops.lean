import Dataflow.Proofs.Problems

/-! # The loop of passes

From the top the solved values only ever sink, and they stay in the domain. A pass that reports a
change has brought some value nearer to the bottom, so sooner or later a pass reports none, and
the limit that the solvers set themselves never comes to bear.
-/
namespace Dataflow

/-- The state after a number of rounds, had all of them been run. -/
def Run.rounds {σ α : Type} (r : Run σ α) (n : Nat) (s : σ) : σ := (fun t => (r t).state)^[n] s

theorem Run.rounds_succ {σ α : Type} (r : Run σ α) (n : Nat) (s : σ) :
    r.rounds (n + 1) s = (r (r.rounds n s)).state := Function.iterate_succ_apply' _ n s

theorem Run.Yields.rounds_succ {σ α : Type} {r : Run σ α} {s t : σ} {a : α} (h : r.Yields s a t)
    (n : Nat) : r.rounds (n + 1) s = r.rounds n t := by
  unfold Run.rounds
  rw [Function.iterate_succ_apply, h.state]

variable {α : Type} [Fact α]

/-- The second value is nearer to the bottom than the first, or as near; both are made of the same
domain. -/
structure FactSet.Sinks (s t : FactSet α) : Prop where
  domain : t.domain = s.domain
  confluence : t.confluence = s.confluence
  subset : s.facts ⊆ s.domain ∧ t.facts ⊆ t.domain
  le : s.confluence.Le t.facts s.facts

section Rounds

variable {σ ι : Type}

/-- What a round does to the values that are read from the state at some slots: all sink, and if
the round reports a change, not all stay the same. -/
structure Descends (slots : ι → Prop) (read : σ → ι → Except Error (FactSet α)) (changed : Bool)
    (s t : σ) : Prop where
  sinks {i : ι} : slots i → ∃ x y, read s i = .ok x ∧ read t i = .ok y ∧ x.Sinks y
  moves : changed = true →
    ∃ i x y, slots i ∧ read s i = .ok x ∧ read t i = .ok y ∧ x.Sinks y ∧ x.facts ≠ y.facts

/-- Every round succeeds and lets the values sink, one round reports no change after all, and the
loop runs up to the first that does. -/
structure Subsides (slots : ι → Prop) (read : σ → ι → Except Error (FactSet α))
    (pass : Run σ Bool) (loop : Run σ Unit) (s : σ) : Prop where
  descends (n : Nat) : ∃ changed,
    pass.Yields (pass.rounds n s) changed (pass.rounds (n + 1) s) ∧
      Descends slots read changed (pass.rounds n s) (pass.rounds (n + 1) s)
  ends : ∃ n, (∀ m < n, (pass (pass.rounds m s)).result = .ok true) ∧
    (pass (pass.rounds n s)).result = .ok false ∧ loop.Yields s () (pass.rounds (n + 1) s)

end Rounds

theorem Confluence.Le.ne_of_lower {c : Confluence} {s t u : OrderedSet α} (hst : c.Le s t)
    (htu : c.Le t u) (h : s ≠ t) : s ≠ u := by
  rintro rfl
  exact h (hst.antisymm htu)

theorem Confluence.Le.ne_of_upper {c : Confluence} {s t u : OrderedSet α} (hst : c.Le s t)
    (htu : c.Le t u) (h : t ≠ u) : s ≠ u := by
  rintro rfl
  exact h (htu.antisymm hst)

namespace Scheme

variable {E : Scheme α} {v : Valuation α} {watched : Location → Bool}

theorem Regular.sweep_le (hE : E.Regular) {ls : List Location} (hls : ∀ l ∈ ls, l ∈ E.locations)
    (h : E.Falling v) (id : QuadId) :
    E.confluence.Le (E.sweep v ls E.direction.solved id) (v E.direction.solved id) := by
  induction ls generalizing v with
  | nil => exact .refl _ _
  | cons l ls ih =>
    have hl : l ∈ E.locations := hls l List.mem_cons_self
    have hrest := ih (fun k hk => hls k (List.mem_cons_of_mem l hk)) (hE.falling_step h hl)
    exact hrest.trans (h.step_le hl id)

/-- What a visit has stirred does not come back within the sweep. -/
theorem Regular.exists_stirred (hE : E.Regular) {ls : List Location}
    (hls : ∀ l ∈ ls, l ∈ E.locations) (h : E.Falling v) (hs : E.stirsAny watched v ls = true) :
    ∃ l ∈ ls, watched l = true ∧
      E.sweep v ls E.direction.solved l.id ≠ v E.direction.solved l.id := by
  induction ls generalizing v with
  | nil => cases hs
  | cons l ls ih =>
    have hl : l ∈ E.locations := hls l List.mem_cons_self
    have htail : ∀ k ∈ ls, k ∈ E.locations := fun k hk => hls k (List.mem_cons_of_mem l hk)
    have hfalling := hE.falling_step h hl
    rw [stirsAny, Bool.or_eq_true] at hs
    rcases hs with hs | hs
    · obtain ⟨hw, hne⟩ : watched l = true ∧
          E.step v l E.direction.solved l.id ≠ v E.direction.solved l.id := by
        simpa [stirs] using hs
      exact ⟨l, List.mem_cons_self, hw,
        (hE.sweep_le htail hfalling l.id).ne_of_upper (h.step_le hl l.id) hne⟩
    · obtain ⟨k, hk, hw, hne⟩ := ih htail hfalling hs
      exact ⟨k, List.mem_cons_of_mem l hk, hw,
        (hE.sweep_le htail hfalling k.id).ne_of_lower (h.step_le hl k.id) hne⟩

section Loop

variable {σ ι : Type} {H : Valuation α → σ → Prop} {pass : Run σ Bool} {slots : ι → Prop}
  {read : σ → ι → Except Error (FactSet α)} (place : ι → Location) (hE : E.Regular)
  (hpass : ∀ v s, H v s →
    ∃ t, pass.Yields s (E.stirsAny watched v (E.direction.arrange E.locations)) t ∧
      H (E.sweep v (E.direction.arrange E.locations)) t)

include hE hpass

theorem Regular.exists_rounds {s : σ} (hv : E.Falling v) (h : H v s) (n : Nat) :
    ∃ w, E.Falling w ∧ H w (pass.rounds n s) := by
  induction n with
  | zero => exact ⟨v, hv, h⟩
  | succ n ih =>
    obtain ⟨w, hw, hH⟩ := ih
    obtain ⟨t, ht, hH'⟩ := hpass w _ hH
    refine ⟨_, hE.falling_sweep E.arrange_subset hw, ?_⟩
    rw [Run.rounds_succ, ht.state]
    exact hH'

/-- Each pass but the last uses up some of the slack, so the loop stops before its fuel does. -/
theorem Regular.exists_last {tell : Nat → Bool → Run σ Unit}
    (htell : ∀ count changed s, (tell count changed).Yields s () s)
    (fuel count : Nat) {s : σ} (hv : E.Falling v) (h : H v s) (hfuel : E.slack watched v < fuel) :
    ∃ n, (∀ m < n, (pass (pass.rounds m s)).result = .ok true) ∧
      (pass (pass.rounds n s)).result = .ok false ∧
      (Run.repeatWhile pass tell fuel count).Yields s () (pass.rounds (n + 1) s) := by
  induction fuel generalizing count v s with
  | zero => omega
  | succ fuel ih =>
    have hls := E.arrange_subset
    obtain ⟨t, ht, hH⟩ := hpass v s h
    rw [Run.repeatWhile]
    cases hs : E.stirsAny watched v (E.direction.arrange E.locations) with
    | false =>
      rw [hs] at ht
      refine ⟨0, fun m hm => absurd hm (Nat.not_lt_zero m), ht.result, ?_⟩
      rw [ht.rounds_succ]
      exact ht.bind ((htell count false t).bind (Run.yields_pure () t))
    | true =>
      rw [hs] at ht
      have hlt := hE.slack_sweep_lt hls hv hs
      obtain ⟨n, htrue, hfalse, hloop⟩ :=
        ih (count + 1) (hE.falling_sweep hls hv) hH (by omega)
      refine ⟨n + 1, fun m hm => ?_, ?_, ?_⟩
      · cases m with
        | zero => exact ht.result
        | succ m =>
          rw [ht.rounds_succ]
          exact htrue m (by omega)
      · rw [ht.rounds_succ]
        exact hfalse
      · rw [ht.rounds_succ]
        exact ht.bind ((htell count true t).bind hloop)

variable (hplace : ∀ i, slots i → place i ∈ E.locations)
  (hread : ∀ v s, H v s → ∀ i, slots i →
    read s i = .ok (E.pack (v E.direction.solved (place i).id)))
  (hwatched : ∀ l ∈ E.locations, watched l = true → ∃ i, slots i ∧ place i = l)

include hplace hread hwatched

theorem Regular.exists_descends {s : σ} (hv : E.Falling v) (h : H v s) :
    ∃ changed t, pass.Yields s changed t ∧ Descends slots read changed s t := by
  have hls := E.arrange_subset
  have hfalling := hE.falling_sweep hls hv
  obtain ⟨t, ht, hH⟩ := hpass v s h
  have hsinks : ∀ l ∈ E.locations, (E.pack (v E.direction.solved l.id)).Sinks
      (E.pack (E.sweep v (E.direction.arrange E.locations) E.direction.solved l.id)) :=
    fun l hl => ⟨rfl, rfl, ⟨hv.inside _ l hl, hfalling.inside _ l hl⟩, hE.sweep_le hls hv l.id⟩
  refine ⟨_, t, ht, fun hi => ?_, fun hs => ?_⟩
  · exact ⟨_, _, hread v s h _ hi, hread _ t hH _ hi, hsinks _ (hplace _ hi)⟩
  · obtain ⟨l, hl, hw, hne⟩ := hE.exists_stirred hls hv hs
    obtain ⟨i, hi, rfl⟩ := hwatched l (hls l hl) hw
    exact ⟨i, _, _, hi, hread v s h i hi, hread _ t hH i hi, hsinks _ (hplace i hi), hne.symm⟩

theorem Regular.subsides {tell : Nat → Bool → Run σ Unit}
    (htell : ∀ count changed s, (tell count changed).Yields s () s)
    {fuel : Nat} (hfuel : E.locations.length * E.domain.size < fuel) (count : Nat) {s : σ}
    (h : H E.topValuation s) :
    Subsides slots read pass (Run.repeatWhile pass tell fuel count) s where
  descends n := by
    obtain ⟨w, hw, hH⟩ := hE.exists_rounds hpass hE.falling_top h n
    obtain ⟨changed, t, ht, hdescends⟩ := hE.exists_descends place hpass hplace hread hwatched hw hH
    rw [Run.rounds_succ, ht.state]
    exact ⟨changed, ht, hdescends⟩
  ends := by
    have hslack := Nat.lt_of_le_of_lt (hE.falling_top.slack_le watched) hfuel
    exact hE.exists_last hpass htell fuel count hE.falling_top h hslack

end Loop

end Scheme

/-- After preparing for a routine and setting the solved values to the top, the passes of the
solver let these values sink until one pass changes none. -/
def NodeAnalysis.LoopEnds (level : Level) (f : Routine) (ls : List Location)
    (a : NodeAnalysis α) : Prop :=
  ∃ b, (seed ls).Yields (a.prepare f) () b ∧
    Subsides (fun l => l ∈ ls) (fun c l => c.get c.direction.solved l.id) (pass level ls)
      (iterate level f.name ls (Problem.passLimit (a.prepare f).frame ls) 1) b

/-- Likewise with a value for every edge on the solved side. -/
def EdgeAnalysis.LoopEnds (level : Level) (f : Routine) (ls : List Location)
    (a : EdgeAnalysis α) : Prop :=
  ∃ b c, (prepare f).Yields a () b ∧ (seed ls).Yields b () c ∧
    Subsides (fun i => i.1 ∈ ls ∧ i.2 ∈ a.problem.direction.slots i.1)
      (fun c (i : Location × Neighbor) => c.get c.direction.solved i.1.id i.2) (pass level ls)
      (iterate level f.name ls (Problem.passLimit c.frame ls) 1) c

section Solvers

variable {f : Routine} {ls : List Location}

theorem NodeAnalysis.loopEnds {a : NodeAnalysis α} (hp : a.problem.Regular f)
    (hf : f.graph.Coherent) (hls : f.locations = .ok ls) (level : Level) :
    a.LoopEnds level f ls := by
  have hE := hp.scheme hf hls
  obtain ⟨b, hb, hseeded⟩ := (holds_prepare hp hf hls rfl).exists_seed
  refine ⟨b, hb, hE.subsides id (fun v a h => h.exists_pass hE level) (fun l hl => hl)
    (fun v c h l hl => ?_) (fun l hl _ => ⟨l, hl, rfl⟩) (fun _ _ _ => Run.yields_say _ _ _ _)
    (hp.lt_passLimit ls) 1 hseeded⟩
  have hdirection : c.direction = (a.problem.scheme f ls).direction := h.direction ls
  rw [hdirection]
  exact h.get _ hl

theorem EdgeAnalysis.loopEnds {a : EdgeAnalysis α} (hp : a.problem.Regular f)
    (hf : f.graph.Coherent) (hls : f.locations = .ok ls) (level : Level) :
    a.LoopEnds level f ls := by
  have hE := hp.scheme hf hls
  obtain ⟨b, hb, hprepared⟩ := exists_prepare hp hf hls rfl
  refine ⟨b, b, hb, hprepared.seed, hE.subsides Prod.fst
    (fun v a h => h.exists_pass hp hE level) (fun i hi => hi.1) (fun v c h i hi => ?_)
    (fun l hl _ => ?_) (fun _ _ _ => Run.yields_say _ _ _ _) ?_ 1 hprepared⟩
  · have hdirection : c.direction = (a.problem.scheme f ls).direction := h.direction ls
    rw [hdirection]
    exact h.get hi.1 hi.2
  · obtain ⟨n, hn⟩ := List.exists_mem_of_ne_nil _ (a.problem.direction.slots_ne_nil l)
    exact ⟨(l, n), ⟨hl, hn⟩, rfl⟩
  · rw [hprepared.frame]
    exact hp.lt_passLimit ls

end Solvers

/-- On every routine that has been built and has locations, whatever they have solved before, the
loops of both solvers end for every problem that comes with the library: no pass takes a solved
value away from the bottom or out of the domain, a pass that reports a change brings one nearer to
the bottom, and after finitely many passes one reports no change. -/
theorem pass_loops_end (level : Level) (f : Routine) (built : f.graph.Built)
    (ls : List Location) (hls : f.locations = .ok ls) :
    (∀ (mode : NullCheck.Mode) (a : NodeAnalysis Register),
        a.problem = NullCheck.guardedProblem mode → a.LoopEnds level f ls) ∧
      (∀ a : NodeAnalysis QuadId,
        a.problem = ReachingDefinition.problem → a.LoopEnds level f ls) ∧
      (∀ a : NodeAnalysis Register,
        a.problem = LiveVariable.problem → a.LoopEnds level f ls) ∧
      (∀ (mode : NullCheck.Mode) (a : EdgeAnalysis Register),
        a.problem = NullCheck.problem mode → a.LoopEnds level f ls) ∧
      ∀ a : EdgeAnalysis QuadId,
        a.problem = ReachingDefinition.problem → a.LoopEnds level f ls := by
  have hf := built.coherent
  refine ⟨fun mode a ha => ?_, fun a ha => ?_, fun a ha => ?_, fun mode a ha => ?_,
    fun a ha => ?_⟩
  · exact NodeAnalysis.loopEnds (ha ▸ NullCheck.regular_guardedProblem mode f) hf hls level
  · exact NodeAnalysis.loopEnds (ha ▸ ReachingDefinition.regular_problem f) hf hls level
  · exact NodeAnalysis.loopEnds (ha ▸ LiveVariable.regular_problem f) hf hls level
  · exact EdgeAnalysis.loopEnds (ha ▸ NullCheck.regular_problem mode f) hf hls level
  · exact EdgeAnalysis.loopEnds (ha ▸ ReachingDefinition.regular_problem f) hf hls level

theorem pass_loops_end_on_loop : ∃ g ls, FlowGraph.ofOutline FlowGraph.loopOutline = .ok g ∧
    g.locations = .ok ls ∧
    (EdgeAnalysis.ofProblem (NullCheck.problem .moveAware)).LoopEnds .off ⟨"loop", [], g⟩ ls ∧
    (NodeAnalysis.ofProblem LiveVariable.problem).LoopEnds .off ⟨"loop", [], g⟩ ls := by
  obtain ⟨g, hg, ls, hls⟩ : ∃ g, FlowGraph.ofOutline FlowGraph.loopOutline = .ok g ∧
    ∃ ls, g.locations = .ok ls := ⟨_, rfl, _, rfl⟩
  obtain ⟨_, _, hlive, hchecks, _⟩ := pass_loops_end .off ⟨"loop", [], g⟩
    (FlowGraph.built_ofOutline hg) ls hls
  exact ⟨g, ls, hg, hls, hchecks .moveAware _ rfl, hlive _ rfl⟩

end Dataflow
