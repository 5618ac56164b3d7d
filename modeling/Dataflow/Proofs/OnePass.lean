import Dataflow.Proofs.Acyclic
import Dataflow.Proofs.Convergence
import Dataflow.Proofs.PassLoops

/-! # One pass is enough without cycles

Where every location is visited after all whose values flow into it, a sweep meets final values
only. So the first pass leaves the maximal fixed point behind, and a second one, if there is one,
has nothing to change.
-/
namespace Dataflow

variable {α : Type} [Fact α]

namespace Scheme

variable {E : Scheme α} {ls : List Location}

theorem solvesAt_sweep (hnd : (ls.map Location.id).Nodup)
    (hapart : ∀ l ∈ ls, .quad l.id ∉ E.direction.incoming l)
    (hahead : ls.Pairwise (fun k l => .quad l.id ∉ E.direction.incoming k)) (v : Valuation α) :
    ∀ l ∈ ls, E.SolvesAt (E.sweep v ls) l := by
  induction ls generalizing v with
  | nil => simp
  | cons l ls ih =>
    obtain ⟨hnew, hnd⟩ := List.nodup_cons.1 hnd
    obtain ⟨hl, hapart⟩ := List.forall_mem_cons.1 hapart
    obtain ⟨hlater, hahead⟩ := List.pairwise_cons.1 hahead
    -- nothing that flows into `l` is written after `l` has been visited
    have hmet : E.met (E.sweep (E.step v l) ls) l = E.met v l := by
      apply met_congr
      intro id hid
      have hold : id ∉ ls.map Location.id := by
        simp only [List.mem_map, not_exists, not_and]
        rintro k hk rfl
        exact hlater k hk hid
      rw [sweep_other hold]
      apply step_other
      rintro rfl
      exact hl hid
    rw [List.forall_mem_cons]
    refine ⟨?_, ih hnd hapart hahead (E.step v l)⟩
    show E.SolvesAt (E.sweep (E.step v l) ls) l
    constructor
    · rw [sweep_other hnew, step_given, hmet]
    · rw [sweep_other hnew, sweep_other hnew, step_solved, step_given]

theorem Regular.solves_sweep (hE : E.Regular) (onward : E.direction.Onward E.locations)
    (v : Valuation α) : E.Solves (E.sweep v (E.direction.arrange E.locations)) := by
  have hperm := E.arrange_perm
  intro l hl
  apply solvesAt_sweep ((hperm.map Location.id).nodup_iff.2 hE.nodup) _ onward.ahead
  · exact hperm.mem_iff.2 hl
  · intro k hk
    exact onward.apart (hperm.mem_iff.1 hk)

theorem Regular.greatest_sweep (hE : E.Regular) (onward : E.direction.Onward E.locations) :
    E.Greatest (E.sweep E.topValuation (E.direction.arrange E.locations)) := by
  obtain ⟨hagain, hstill⟩ :=
    (hE.solves_sweep onward E.topValuation).sweep_eq E.arrange_subset (fun _ => true)
  have hdescend : E.descend (fun _ => true) (E.locations.length * E.domain.size + 2)
      E.topValuation = E.sweep E.topValuation (E.direction.arrange E.locations) := by
    simp [descend, hagain, hstill]
  rw [← hdescend]
  apply hE.greatest_descend
  · exact fun _ _ _ _ _ _ _ => rfl
  · omega

end Scheme

section Rounds

variable {σ : Type}

/-- The first round succeeds and a second one would report no change, so that the loop, which goes
on while a round reports a change, runs one round or two and ends in `t`. -/
structure AtOnce (pass : Run σ Bool) (loop : Run σ Unit) (s t : σ) : Prop where
  first : ∃ changed, pass.Yields s changed (pass.rounds 1 s)
  second : pass.Yields (pass.rounds 1 s) false (pass.rounds 2 s)
  ends : ∃ n ≤ 1, (∀ m < n, (pass (pass.rounds m s)).result = .ok true) ∧
    (pass (pass.rounds n s)).result = .ok false ∧ loop.Yields s () t ∧ t = pass.rounds (n + 1) s

variable {E : Scheme α} {watched : Location → Bool} {H : Valuation α → σ → Prop}
  {pass : Run σ Bool}

theorem Scheme.Regular.exists_atOnce (hE : E.Regular) (onward : E.direction.Onward E.locations)
    (hpass : ∀ v s, H v s →
      ∃ t, pass.Yields s (E.stirsAny watched v (E.direction.arrange E.locations)) t ∧
        H (E.sweep v (E.direction.arrange E.locations)) t)
    {tell : Nat → Bool → Run σ Unit}
    (htell : ∀ count changed s, (tell count changed).Yields s () s)
    {fuel : Nat} (hfuel : E.locations.length * E.domain.size < fuel) (count : Nat) {s : σ}
    (h : H E.topValuation s) :
    ∃ t, AtOnce pass (Run.repeatWhile pass tell fuel count) s t ∧
      H (E.sweep E.topValuation (E.direction.arrange E.locations)) (pass.rounds 1 s) := by
  obtain ⟨s₁, hfirst, hswept⟩ := hpass _ s h
  obtain ⟨s₂, hsecond, _⟩ := hpass _ s₁ hswept
  rw [((hE.solves_sweep onward E.topValuation).sweep_eq E.arrange_subset watched).2] at hsecond
  have hone : pass.rounds 1 s = s₁ := by rw [hfirst.rounds_succ]; rfl
  have htwo : pass.rounds 2 s = s₂ := by rw [hfirst.rounds_succ, hsecond.rounds_succ]; rfl
  have hslack := Nat.lt_of_le_of_lt (hE.falling_top.slack_le watched) hfuel
  obtain ⟨n, htrue, hfalse, hloop⟩ :=
    hE.exists_last hpass htell fuel count hE.falling_top h hslack
  have hn : n ≤ 1 := by
    by_contra hmore
    have hgoes := htrue 1 (by omega)
    rw [hone, hsecond.result] at hgoes
    cases hgoes
  refine ⟨_, ⟨⟨_, hone ▸ hfirst⟩, ?_, n, hn, htrue, hfalse, hloop, rfl⟩, hone ▸ hswept⟩
  rw [hone, htwo]
  exact hsecond

end Rounds

/-- On both sides of every quad of the routine the same value is to be read. -/
def NodeAnalysis.SameSides (f : Routine) (a b : NodeAnalysis α) : Prop :=
  ∀ q ∈ f.quads, ∀ side, ∃ s, a.get side q.id = .ok s ∧ b.get side q.id = .ok s

structure EdgeAnalysis.SameSides (f : Routine) (ls : List Location) (a b : EdgeAnalysis α) :
    Prop where
  quads : ∀ q ∈ f.quads, ∀ side, ∃ s, a.getAll side q.id = .ok s ∧ b.getAll side q.id = .ok s
  edges : ∀ l ∈ ls, ∀ n ∈ a.direction.slots l, ∃ s,
    a.get a.direction.solved l.id n = .ok s ∧ b.get a.direction.solved l.id n = .ok s

/-- On both sides of every quad the value of the maximal fixed point is to be read. -/
def NodeAnalysis.ShowsGreatest (E : Scheme α) (a : NodeAnalysis α) : Prop :=
  ∃ v, E.Greatest v ∧ ∀ side, ∀ l ∈ E.locations, a.get side l.id = .ok (E.pack (v side l.id))

/-- Also along every edge on the solved side, where the equations by edge have their maximal fixed
point too. -/
def EdgeAnalysis.ShowsGreatest (E : Scheme α) (a : EdgeAnalysis α) : Prop :=
  ∃ v, E.Greatest v ∧ E.EdgeGreatest (v.spread E.direction) ∧
    (∀ side, ∀ l ∈ E.locations, a.getAll side l.id = .ok (E.pack (v side l.id))) ∧
    ∀ l ∈ E.locations, ∀ n ∈ E.direction.slots l,
      a.get E.direction.solved l.id n = .ok (E.pack (v E.direction.solved l.id))

/-- The solver succeeds. Its loop of passes ends at once, and the first pass leaves the maximal
fixed point on the sides of the quads, where the solver lets it stand to the end. -/
def NodeAnalysis.ConvergesAtOnce (level : Level) (f : Routine) (ls : List Location)
    (a : NodeAnalysis α) : Prop :=
  ∃ b c found final, (seed ls).Yields (a.prepare f) () b ∧
    AtOnce (pass level ls) (iterate level f.name ls (Problem.passLimit (a.prepare f).frame ls) 1)
      b c ∧
    ((pass level ls).rounds 1 b).ShowsGreatest (a.problem.scheme f ls) ∧
    (do settle level ls; conclude level f : Run (NodeAnalysis α) _).Yields c found final ∧
    (solve level f).Yields a found final ∧ ((pass level ls).rounds 1 b).SameSides f final

def EdgeAnalysis.ConvergesAtOnce (level : Level) (f : Routine) (ls : List Location)
    (a : EdgeAnalysis α) : Prop :=
  ∃ a' b c found final, (prepare f).Yields a () a' ∧ (seed ls).Yields a' () b ∧
    AtOnce (pass level ls) (iterate level f.name ls (Problem.passLimit b.frame ls) 1) b c ∧
    ((pass level ls).rounds 1 b).ShowsGreatest (a.problem.scheme f ls) ∧
    (do settle level ls; conclude level f : Run (EdgeAnalysis α) _).Yields c found final ∧
    (solve level f).Yields a found final ∧ ((pass level ls).rounds 1 b).SameSides f ls final

def Solver.ConvergesAtOnce (level : Level) (f : Routine) (ls : List Location) : Solver → Prop
  | nodeRegister a => a.ConvergesAtOnce level f ls
  | nodeQuad a => a.ConvergesAtOnce level f ls
  | edgeRegister a => a.ConvergesAtOnce level f ls
  | edgeQuad a => a.ConvergesAtOnce level f ls

section Solvers

variable {p : Problem α} {f : Routine} {ls : List Location} {found : Valuation α → List QuadId}
  (hp : p.Regular f) (hc : p.Concludes f found) (hf : f.graph.Coherent)
  (hls : f.locations = .ok ls) (onward : p.direction.Onward ls)

include hp hc hf hls onward

theorem NodeAnalysis.convergesAtOnce {a : NodeAnalysis α} (ha : a.problem = p) (level : Level) :
    a.ConvergesAtOnce level f ls := by
  have hE := hp.scheme hf hls
  obtain ⟨v, hv, hsettled, hresult⟩ := solve_eq hp hc hf hls ha level
  have hprepared := holds_prepare hp hf hls ha
  obtain ⟨b, hb, hseeded⟩ := hprepared.exists_seed
  obtain ⟨c, hatOnce, hswept⟩ := hE.exists_atOnce onward (fun v a h => h.exists_pass hE level)
    (fun _ _ _ => Run.yields_say _ _ _ _) (hp.lt_passLimit ls) 1 hseeded
  obtain ⟨n, _, _, _, hloop, _⟩ := hatOnce.ends
  rw [← hprepared.frame] at hatOnce
  rw [← hseeded.frame] at hloop
  have hgreatest := hE.greatest_sweep onward
  have hprepare : (engine.prepare f).Yields a () (a.prepare f) := Run.yields_change rfl
  have hlike : (solve level f a).Like
      ((do settle level ls; conclude level f : Run (NodeAnalysis α) _) c) :=
    (hprepare.bind_like _).trans <| ((Run.yields_ofExcept hls _).bind_like _).trans <|
      (hb.bind_like _).trans <| ((Run.yields_get _).bind_like _).trans <| hloop.bind_like _
  refine ⟨b, c, found v, _, hb, hatOnce, ha ▸ ⟨_, hgreatest, fun side l hl => hswept.get side hl⟩,
    .of_result_like hlike hresult, Run.yields_of_result hresult, fun q hq side => ?_⟩
  obtain ⟨l, hl, rfl⟩ := FlowGraph.exists_location_of_quad hls hq
  refine ⟨_, hswept.get side hl, ?_⟩
  rw [hgreatest.unique hv side hl]
  exact hsettled.holds.get side hl

theorem EdgeAnalysis.convergesAtOnce {a : EdgeAnalysis α} (ha : a.problem = p) (level : Level) :
    a.ConvergesAtOnce level f ls := by
  have hE := hp.scheme hf hls
  obtain ⟨v, hv, hsettled, hresult⟩ := solve_eq hp hc hf hls ha level
  obtain ⟨b, hb, hprepared⟩ := exists_prepare hp hf hls ha
  obtain ⟨c, hatOnce, hswept⟩ := hE.exists_atOnce onward (fun v a h => h.exists_pass hp hE level)
    (fun _ _ _ => Run.yields_say _ _ _ _) (hp.lt_passLimit ls) 1 hprepared
  rw [← hprepared.frame] at hatOnce
  obtain ⟨n, _, _, _, hloop, _⟩ := hatOnce.ends
  have hgreatest := hE.greatest_sweep onward
  have hlike : (solve level f a).Like
      ((do settle level ls; conclude level f : Run (EdgeAnalysis α) _) c) :=
    (hb.bind_like _).trans <| ((Run.yields_ofExcept hls _).bind_like _).trans <|
      (hprepared.seed.bind_like _).trans <| ((Run.yields_get _).bind_like _).trans <|
      hloop.bind_like _
  have hshows : ((pass level ls).rounds 1 b).ShowsGreatest (p.scheme f ls) :=
    ⟨_, hgreatest, hgreatest.spread hE, fun side l hl => hswept.getAll hgreatest.inside side hl,
      fun l hl n hn => hswept.get hl hn⟩
  refine ⟨b, b, c, found v, _, hb, hprepared.seed, hatOnce, ha ▸ hshows,
    .of_result_like hlike hresult, Run.yields_of_result hresult, fun q hq side => ?_,
    fun l hl n hn => ?_⟩
  · obtain ⟨l, hl, rfl⟩ := FlowGraph.exists_location_of_quad hls hq
    refine ⟨_, hswept.getAll hgreatest.inside side hl, ?_⟩
    rw [hgreatest.unique hv side hl]
    exact hsettled.holds.getAll hv.inside side hl
  · have hdirection : ((pass level ls).rounds 1 b).direction = (p.scheme f ls).direction :=
      hswept.direction ls
    rw [hdirection] at hn ⊢
    refine ⟨_, hswept.get hl hn, ?_⟩
    rw [hgreatest.unique hv _ hl]
    exact hsettled.holds.get hl hn

end Solvers

theorem Solver.Standard.convergesAtOnce {solver : Solver} (h : solver.Standard) {f : Routine}
    (hf : f.graph.Coherent) {ls : List Location} (hls : f.locations = .ok ls)
    (onward : ∀ d : Direction, d.Onward ls) (level : Level) :
    solver.ConvergesAtOnce level f ls := by
  cases h with
  | nullChecks mode hp =>
    exact NodeAnalysis.convergesAtOnce (NullCheck.regular_guardedProblem mode f)
      (NullCheck.concludes_guardedProblem mode f) hf hls (onward _) hp level
  | edgeNullChecks mode hp =>
    exact EdgeAnalysis.convergesAtOnce (NullCheck.regular_problem mode f)
      (NullCheck.concludes_problem mode f) hf hls (onward _) hp level
  | liveVariables hp =>
    exact NodeAnalysis.convergesAtOnce (LiveVariable.regular_problem f)
      (LiveVariable.concludes_problem f) hf hls (onward _) hp level
  | reachingDefinitions hp =>
    exact NodeAnalysis.convergesAtOnce (ReachingDefinition.regular_problem f)
      (ReachingDefinition.concludes_problem f) hf hls (onward _) hp level
  | edgeReachingDefinitions hp =>
    exact EdgeAnalysis.convergesAtOnce (ReachingDefinition.regular_problem f)
      (ReachingDefinition.concludes_problem f) hf hls (onward _) hp level

/-- On a routine that has been built, whose blocks are all reached from the entry and whose edges
close no cycle, every pass of the library solves with one working pass: the first leaves the maximal
fixed point on both sides of every quad and along every edge, and so the final values, a second one
reports no change, and the solver makes no third. That holds whatever the solver has solved
before. -/
theorem acyclic_routines_converge_in_one_pass {f : Routine} (built : f.graph.Built)
    (oneWay : f.graph.OneWay) :
    ∃ ls, f.locations = .ok ls ∧ ∀ (name : String) (solver : Solver) (level : Level),
      Pass.Serves name solver → solver.ConvergesAtOnce level f ls := by
  have hf := built.coherent
  obtain ⟨ls, hls⟩ := oneWay.exists_locations
  refine ⟨ls, hls, fun name solver level serves => ?_⟩
  exact serves.standard.convergesAtOnce hf hls (fun d => oneWay.onward hf hls d) level

/-- Two ways, one of them through an empty block, from the entry `5` down to a check. The blocks are
numbered against the flow. -/
def diamondOutline : FlowGraph.Outline where
  entry := some 5
  blocks := [⟨1, [⟨9, .nullCheck ⟨"y"⟩⟩]⟩, ⟨3, [⟨2, .move ⟨"y"⟩ (.register ⟨"x"⟩)⟩]⟩, ⟨4, []⟩,
    ⟨5, [⟨6, .nullCheck ⟨"x"⟩⟩]⟩]
  edges := [⟨5, 4⟩, ⟨5, 3⟩, ⟨4, 1⟩, ⟨3, 1⟩]

theorem oneWay_of_diamondOutline {g : FlowGraph} (hg : FlowGraph.ofOutline diamondOutline = .ok g) :
    g.OneWay := by
  obtain ⟨k, hk, hentry, hkeys, hedges⟩ : ∃ k, FlowGraph.ofOutline diamondOutline = .ok k ∧
      k.entry = some 5 ∧ k.blocks.keys = [1, 3, 4, 5] ∧ k.edges = diamondOutline.edges :=
    ⟨_, rfl, rfl, rfl, rfl⟩
  cases hk.symm.trans hg
  have hdown : ∀ e ∈ g.edges, e.tail < e.head := by
    rw [hedges]
    decide +kernel
  have hfalls : ∀ {i j}, g.LeadsTo i j → j < i := by
    intro i j hpath
    induction hpath with
    | single hedge => exact hdown _ hedge
    | tail _ hedge ih => exact UInt64.lt_trans (hdown _ hedge) ih
  have hleft : ⟨5, 4⟩ ∈ g.edges := by simp [hedges, diamondOutline]
  have hright : ⟨5, 3⟩ ∈ g.edges := by simp [hedges, diamondOutline]
  have hlast : ⟨3, 1⟩ ∈ g.edges := by simp [hedges, diamondOutline]
  refine ⟨fun {i b} hb => ⟨5, hentry, ?_⟩, fun i hpath => UInt64.lt_irrefl i (hfalls hpath)⟩
  have hi : i ∈ g.blocks.keys := OrderedMap.mem_keys_iff.2 ⟨b, hb⟩
  simp only [hkeys, List.mem_cons, List.not_mem_nil, or_false] at hi
  rcases hi with rfl | rfl | rfl | rfl
  · exact .tail (.single hright) hlast
  · exact .single hright
  · exact .single hleft
  · exact .refl

/-- Forward for the checks: behind the move both registers are known, so the first pass leaves one
in front of the last check and two behind it. Backward for the live variables: in front of the first
check both are live after one pass. -/
theorem diamond_converges_in_one_pass : ∃ g ls b d, FlowGraph.ofOutline diamondOutline = .ok g ∧
    g.OneWay ∧ g.locations = .ok ls ∧
    (Solver.edgeRegister (.ofProblem (NullCheck.problem .moveAware))).ConvergesAtOnce .off
      ⟨"diamond", [], g⟩ ls ∧
    (do EdgeAnalysis.prepare ⟨"diamond", [], g⟩; EdgeAnalysis.seed ls : Run _ Unit).Yields
      (.ofProblem (NullCheck.problem .moveAware)) () b ∧
    (∀ side, [6, 2, 9].mapM (fun id => do
        let value ← ((EdgeAnalysis.pass .off ls).rounds 1 b).getAll side id
        return value.facts.toList) = .ok (match side with
      | .input => [[], [⟨"x"⟩], [⟨"x"⟩]]
      | .output => [[⟨"x"⟩], [⟨"x"⟩, ⟨"y"⟩], [⟨"x"⟩, ⟨"y"⟩]])) ∧
    (Solver.nodeRegister (.ofProblem LiveVariable.problem)).ConvergesAtOnce .off
      ⟨"diamond", [], g⟩ ls ∧
    (NodeAnalysis.seed ls).Yields
      (.prepare (.ofProblem LiveVariable.problem) ⟨"diamond", [], g⟩) () d ∧
    ∀ side, [6, 2, 9].mapM (fun id => do
        let value ← ((NodeAnalysis.pass .off ls).rounds 1 d).get side id
        return value.facts.toList) = .ok (match side with
      | .input => [[⟨"x"⟩, ⟨"y"⟩], [⟨"x"⟩], [⟨"y"⟩]]
      | .output => [[⟨"x"⟩, ⟨"y"⟩], [⟨"y"⟩], []]) := by
  obtain ⟨g, ls, hg, hls⟩ : ∃ g ls, FlowGraph.ofOutline diamondOutline = .ok g ∧
      g.locations = .ok ls := ⟨_, _, rfl, rfl⟩
  have honeWay := oneWay_of_diamondOutline hg
  obtain ⟨ks, hks, hall⟩ := acyclic_routines_converge_in_one_pass (f := ⟨"diamond", [], g⟩)
    (FlowGraph.built_ofOutline hg) honeWay
  cases hks.symm.trans hls
  refine ⟨g, ls, _, _, hg, honeWay, hls,
    hall "edge-null-checks" _ .off (Pass.serves_of_named rfl), Run.yields_of_result ?_, ?_,
    hall "live-variables" _ .off (Pass.serves_of_named rfl), Run.yields_of_result ?_, ?_⟩
  all_goals cases hg; cases hls
  · rfl
  · intro side
    cases side <;> decide +kernel
  · rfl
  · intro side
    cases side <;> decide +kernel

end Dataflow
