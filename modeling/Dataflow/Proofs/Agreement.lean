import Dataflow.Proofs.Problems

/-! # Agreement of the two solvers

Both solvers reach the maximal fixed point, and there is only one. So a problem solved on one
value per side and on one value per edge gives the same values and the same answer, although
the two watch for changes in different ways and may stop in different passes.
-/
namespace Dataflow

variable {α : Type} [Fact α]

/-- Solving on either storage has the same result. After success the values of every quad are
the same, also along each edge to a successor, and so are those at the boundaries. -/
def NodeAnalysis.AgreesWith (level level' : Level) (f : Routine) (a : NodeAnalysis α)
    (b : EdgeAnalysis α) : Prop :=
  let x := NodeAnalysis.solve level f a
  let y := EdgeAnalysis.solve level' f b
  x.result = y.result ∧ ∀ ids, x.result = .ok ids →
    (∀ q ∈ f.quads, ∃ i o ns,
      x.state.get .input q.id = .ok i ∧ y.state.getAll .input q.id = .ok i ∧
      x.state.get .output q.id = .ok o ∧ y.state.getAll .output q.id = .ok o ∧
      f.graph.successors q.id = .ok ns ∧ ∀ n ∈ ns, y.state.get .output q.id n = .ok o) ∧
    (∃ s, x.state.entry = .ok s ∧ y.state.entry = .ok s) ∧
    ∃ s, x.state.exit = .ok s ∧ y.state.exit = .ok s

theorem Scheme.farValue_congr {E : Scheme α} {v w : Valuation α}
    (h : ∀ l ∈ E.locations, v E.direction.solved l.id = w E.direction.solved l.id) :
    E.farValue v = E.farValue w := by
  apply List.foldl_ext
  intro s l hl
  rw [h l (List.mem_filter.1 hl).1]

theorem Scheme.entryValue_congr {E : Scheme α} {v w : Valuation α}
    (h : ∀ l ∈ E.locations, v E.direction.solved l.id = w E.direction.solved l.id) :
    E.entryValue v = E.entryValue w := by
  unfold entryValue
  rw [farValue_congr h]

theorem Scheme.exitValue_congr {E : Scheme α} {v w : Valuation α}
    (h : ∀ l ∈ E.locations, v E.direction.solved l.id = w E.direction.solved l.id) :
    E.exitValue v = E.exitValue w := by
  unfold exitValue
  rw [farValue_congr h]

theorem NullCheck.redundantChecks_congr {f : Routine} {v w : Valuation Register}
    (h : ∀ side, ∀ q ∈ f.quads, v side q.id = w side q.id) :
    redundantChecks f v = redundantChecks f w := by
  have hfilter : (f.nullChecks.filter fun q => decide (v .input q.id = v .output q.id)) =
      f.nullChecks.filter fun q => decide (w .input q.id = w .output q.id) := by
    apply List.filter_congr
    intro q hq
    have hmem : q ∈ f.quads := (List.mem_filter.1 hq).1
    rw [h .input q hmem, h .output q hmem]
  unfold redundantChecks
  rw [hfilter]

/-- A forward problem gives the same answers on both storages, if what it concludes depends on
the values of the quads only. The problem may be stated in two ways that ask the same. -/
theorem NodeAnalysis.agreesWith {f : Routine} {a : NodeAnalysis α} {b : EdgeAnalysis α}
    {found : Valuation α → List QuadId} (ha : a.problem.Regular f) (hb : b.problem.Regular f)
    (hac : a.problem.Concludes f found) (hbc : b.problem.Concludes f found)
    (hsame : ∀ ls, b.problem.scheme f ls = a.problem.scheme f ls)
    (hdir : a.problem.direction = .forward)
    (hfound : ∀ v w : Valuation α, (∀ side, ∀ q ∈ f.quads, v side q.id = w side q.id) →
      found v = found w)
    (hf : f.graph.Coherent) (level level' : Level) : a.AgreesWith level level' f b := by
  cases hls : f.locations with
  | error e =>
    have hx := NodeAnalysis.solve_of_error hls level a
    have hy := EdgeAnalysis.solve_of_error hls level' b
    refine ⟨hx.trans hy.symm, fun ids hids => ?_⟩
    rw [hx] at hids
    cases hids
  | ok ls =>
    obtain ⟨v, hv, hnode, hx⟩ := NodeAnalysis.solve_eq ha hac hf hls rfl level
    obtain ⟨w, hw, hedge, hy⟩ := EdgeAnalysis.solve_eq hb hbc hf hls rfl level'
    have hin := hw.inside
    have hsolved : (b.problem.scheme f ls).direction.solved = .output := by
      rw [hsame]
      exact congrArg Direction.solved hdir
    have hentry := hedge.entry
    have hexit := hedge.exit
    rw [hsame] at hw hentry hexit
    have heq : ∀ side, ∀ l ∈ ls, v side l.id = w side l.id := fun side l hl => hv.unique hw side hl
    have hquads : ∀ side, ∀ q ∈ f.quads, v side q.id = w side q.id := by
      intro side q hq
      obtain ⟨l, hl, rfl⟩ := FlowGraph.exists_location_of_quad hls hq
      exact heq side l hl
    refine ⟨by rw [hx, hy, hfound v w hquads], fun ids _ => ⟨fun q hq => ?_, ?_, ?_⟩⟩
    · obtain ⟨l, hl, rfl⟩ := FlowGraph.exists_location_of_quad hls hq
      have hall : ∀ side, (EdgeAnalysis.solve level' f b).state.getAll side l.quad.id =
          .ok ((a.problem.scheme f ls).pack (v side l.id)) := by
        intro side
        rw [heq side l hl, ← hsame]
        exact hedge.holds.getAll hin side hl
      refine ⟨_, _, l.successors, hnode.holds.get .input hl, hall .input,
        hnode.holds.get .output hl, hall .output, ?_, fun n hn => ?_⟩
      · exact hf.successors_eq_ok hls hl
      · have hout : n ∈ (b.problem.scheme f ls).direction.outgoing l := by
          rw [hsame]
          show n ∈ a.problem.direction.outgoing l
          rw [hdir]
          exact hn
        have hget := hedge.holds.get hl (Direction.mem_slots hout)
        rw [hsolved, hsame, ← heq .output l hl] at hget
        exact hget
    · rw [← Scheme.entryValue_congr fun l hl => heq _ l hl] at hentry
      exact ⟨_, hnode.entry, hentry⟩
    · rw [← Scheme.exitValue_congr fun l hl => heq _ l hl] at hexit
      exact ⟨_, hnode.exit, hexit⟩

/-- On every routine that has been built, with an entry or without, the two solvers agree on
redundant null checks in either mode and on reaching definitions. -/
theorem node_and_edge_solvers_agree (level level' : Level) (f : Routine)
    (built : f.graph.Built) :
    (∀ (mode : NullCheck.Mode) (a : NodeAnalysis Register) (b : EdgeAnalysis Register),
        a.problem = NullCheck.guardedProblem mode → b.problem = NullCheck.problem mode →
        a.AgreesWith level level' f b) ∧
      ∀ (a : NodeAnalysis QuadId) (b : EdgeAnalysis QuadId),
        a.problem = ReachingDefinition.problem → b.problem = ReachingDefinition.problem →
        a.AgreesWith level level' f b := by
  have hf := built.coherent
  constructor
  · intro mode a b ha hb
    refine NodeAnalysis.agreesWith (ha ▸ NullCheck.regular_guardedProblem mode f)
      (hb ▸ NullCheck.regular_problem mode f) (ha ▸ NullCheck.concludes_guardedProblem mode f)
      (hb ▸ NullCheck.concludes_problem mode f) (fun ls => ?_) (ha ▸ rfl)
      (fun v w => NullCheck.redundantChecks_congr) hf level level'
    rw [ha, hb]
    rfl
  · intro a b ha hb
    refine NodeAnalysis.agreesWith (ha ▸ ReachingDefinition.regular_problem f)
      (hb ▸ ReachingDefinition.regular_problem f) (ha ▸ ReachingDefinition.concludes_problem f)
      (hb ▸ ReachingDefinition.concludes_problem f) (fun ls => ?_) (ha ▸ rfl)
      (fun v w _ => rfl) hf level level'
    rw [ha, hb]

theorem solvers_agree_on_loop : ∃ g, FlowGraph.ofOutline FlowGraph.loopOutline = .ok g ∧
    (NodeAnalysis.ofProblem (NullCheck.guardedProblem .basic)).AgreesWith .off .trace
      ⟨"loop", [], g⟩ (EdgeAnalysis.ofProblem (NullCheck.problem .basic)) := by
  obtain ⟨g, hg⟩ : ∃ g, FlowGraph.ofOutline FlowGraph.loopOutline = .ok g := ⟨_, rfl⟩
  have hall := node_and_edge_solvers_agree .off .trace ⟨"loop", [], g⟩
    (FlowGraph.built_ofOutline hg)
  exact ⟨g, hg, hall.1 .basic _ _ rfl rfl⟩

end Dataflow
