import Dataflow.Proofs.Failing

/-! # What a pass changes

A null check pass takes out the checks of registers that its values prove in front of the check,
and no other quad. The other passes take out nothing. Whatever is not taken out stays as it was and
where it was.
-/
namespace Dataflow

theorem OrderedSet.toList_pairwise_lt (s : OrderedSet QuadId) : s.toList.Pairwise (· < ·) := by
  refine s.ascending.imp fun h => ?_
  simpa using Std.compare_eq_lt.1 h

namespace Solver

variable {mode : NullCheck.Mode} {solver other : Solver}

theorem Checks.of_sameTask (h : other.Checks mode) (hsame : solver.SameTask other) :
    solver.Checks mode := by
  cases hsame with
  | nodeRegister hp => exact hp.trans h
  | edgeRegister hp => exact hp.trans h
  | nodeQuad => exact absurd h not_false
  | edgeQuad => exact absurd h not_false

/-- The solver judges no quad redundant. -/
inductive Idle : Solver → Prop
  | liveVariables {a : NodeAnalysis Register} :
      a.problem = LiveVariable.problem → Idle (nodeRegister a)
  | reachingDefinitions {a : NodeAnalysis QuadId} :
      a.problem = ReachingDefinition.problem → Idle (nodeQuad a)
  | edgeReachingDefinitions {a : EdgeAnalysis QuadId} :
      a.problem = ReachingDefinition.problem → Idle (edgeQuad a)

theorem Idle.of_sameTask (h : other.Idle) (hsame : solver.SameTask other) : solver.Idle := by
  cases h with
  | liveVariables hp =>
    cases hsame with
    | nodeRegister h => exact .liveVariables (h.trans hp)
  | reachingDefinitions hp =>
    cases hsame with
    | nodeQuad h => exact .reachingDefinitions (h.trans hp)
  | edgeReachingDefinitions hp =>
    cases hsame with
    | edgeQuad h => exact .edgeReachingDefinitions (h.trans hp)

theorem Idle.solve_eq (h : solver.Idle) {f : Routine} (hf : f.graph.Coherent) {ls : List Location}
    (hls : f.locations = .ok ls) (level : Level) : (solve level f solver).result = .ok [] := by
  cases h with
  | liveVariables hp =>
    obtain ⟨_, _, _, hresult⟩ := NodeAnalysis.solve_eq (LiveVariable.regular_problem f)
      (LiveVariable.concludes_problem f) hf hls hp level
    exact hresult
  | reachingDefinitions hp =>
    obtain ⟨_, _, _, hresult⟩ := NodeAnalysis.solve_eq (ReachingDefinition.regular_problem f)
      (ReachingDefinition.concludes_problem f) hf hls hp level
    exact hresult
  | edgeReachingDefinitions hp =>
    obtain ⟨_, _, _, hresult⟩ := EdgeAnalysis.solve_eq (ReachingDefinition.regular_problem f)
      (ReachingDefinition.concludes_problem f) hf hls hp level
    exact hresult

end Solver

namespace Pass

variable {name : String} {mode : NullCheck.Mode} {level : Level} {solver solver' : Solver}
  {f f' : Routine} {report : Report}

theorem Serves.checks_of_named {fresh : Solver} (h : Serves name solver)
    (hnamed : named name = .ok fresh) (hfresh : fresh.Checks mode) : solver.Checks mode := by
  obtain ⟨other, hother, hsame⟩ := h
  cases hother.symm.trans hnamed
  exact hfresh.of_sameTask hsame

theorem Serves.exists_checks (h : Serves name solver) (hname : name ∈ nullCheckNames) :
    ∃ mode, solver.Checks mode := by
  obtain ⟨mode, fresh, hnamed, hwork, hchecks⟩ := exists_mode hname
  exact ⟨mode, h.checks_of_named hnamed (hchecks fresh hwork)⟩

theorem Serves.idle (h : Serves name solver) (hname : name ∉ nullCheckNames) : solver.Idle := by
  obtain ⟨fresh, hnamed, hsame⟩ := h
  refine Solver.Idle.of_sameTask ?_ hsame
  have hall := mem_all_of_named hnamed
  simp only [all, List.mem_cons, List.not_mem_nil, or_false, Prod.mk.injEq] at hall
  rcases hall with ⟨rfl, rfl⟩ | ⟨rfl, rfl⟩ | ⟨rfl, rfl⟩ | ⟨rfl, rfl⟩ | ⟨rfl, rfl⟩ | ⟨rfl, rfl⟩
  · exact absurd (by decide) hname
  · exact .edgeReachingDefinitions rfl
  · exact .liveVariables rfl
  · exact absurd (by decide) hname
  · exact absurd (by decide) hname
  · exact .reachingDefinitions rfl

theorem exists_locations_of_run (built : f.graph.Built)
    (h : (run level).Yields (solver, f) report (solver', f')) : ∃ ls, f.locations = .ok ls := by
  obtain ⟨found, hsolve, _⟩ := of_run built h
  cases hls : f.locations with
  | ok ls => exact ⟨ls, rfl⟩
  | error e => cases hsolve.result.symm.trans (Solver.solve_of_error hls level solver)

end Pass

/-- A pass that succeeds reports, in ascending order, exactly the null checks whose register is
known in front of them, if it is a null check pass, and nothing if it is not. In the routine these
quads are missing afterwards, and all else is in its place. -/
theorem pass_changes_only_removed_null_checks {name : String} {solver solver' : Solver}
    (serves : Pass.Serves name solver) {f f' : Routine} (built : f.graph.Built) {level : Level}
    {report : Pass.Report} (h : (Pass.run level).Yields (solver, f) report (solver', f')) :
    report.routine = f.name ∧ report.removed.Pairwise (· < ·) ∧
      (name ∈ Pass.nullCheckNames →
        (∀ q ∈ f.quads, ∃ s, solver'.registers .input q.id = .ok s) ∧
        ∀ id, id ∈ report.removed ↔ ∃ q ∈ f.quads, q.id = id ∧ ∃ r s,
          q.operation = .nullCheck r ∧ solver'.registers .input id = .ok s ∧ r ∈ s.facts) ∧
      (name ∉ Pass.nullCheckNames → report.removed = [] ∧ f' = f) ∧
      f'.name = f.name ∧ f'.parameters = f.parameters ∧ f'.graph.entry = f.graph.entry ∧
      f'.graph.edges = f.graph.edges ∧
      f'.graph.blockList.map Block.index = f.graph.blockList.map Block.index ∧
      f'.graph.blockList.map Block.quads =
        f.graph.blockList.map fun b => b.quads.filter fun q => q.id ∉ report.removed := by
  have hf := built.coherent
  obtain ⟨found, hsolve, hreport, hname, hparameters, _, herased, hsame⟩ := Pass.of_run built h
  refine ⟨by rw [hreport], ?_, fun hchecks => ?_, fun hidle => ?_, hname, hparameters,
    herased.entry, herased.edges, ?_, ?_⟩
  · rw [hreport]
    exact OrderedSet.toList_pairwise_lt _
  · obtain ⟨mode, hmode⟩ := serves.exists_checks hchecks
    obtain ⟨ks, v, hks, hv, _, hread, hremoved⟩ := Pass.exists_values_of_run hmode built h
    refine ⟨fun q hq => ⟨_, hread .input q hq⟩, fun id => ?_⟩
    rw [hremoved, NullCheck.mem_redundantChecks_iff hks hv.solves]
    constructor
    · rintro ⟨q, hq, rfl, r, hcheck, hr⟩
      exact ⟨q, hq, rfl, r, _, hcheck, hread .input q hq, hr⟩
    · rintro ⟨q, hq, rfl, r, s, hcheck, hs, hr⟩
      cases (hread .input q hq).symm.trans hs
      exact ⟨q, hq, rfl, r, hcheck, hr⟩
  · obtain ⟨ls, hls⟩ := Pass.exists_locations_of_run built h
    have hnone : found = [] :=
      Except.ok.inj (hsolve.result.symm.trans ((serves.idle hidle).solve_eq hf hls level))
    have hremoved : report.removed = [] := by rw [hreport, hnone]; rfl
    exact ⟨hremoved, hsame hremoved⟩
  · rw [herased.blockList_eq, List.map_map]
    rfl
  · rw [herased.blockList_eq, List.map_map]
    congr 1
    funext b
    simp [Block.without]

/-- Around the loop only the check of the copy goes, and its block keeps the copy. -/
theorem loop_changes_only_in_check_of_copy : ∃ g report t,
    FlowGraph.ofOutline FlowGraph.loopOutline = .ok g ∧
    (Pass.run .off).Yields (.edgeRegister (.ofProblem (NullCheck.problem .moveAware)),
      ⟨"loop", [], g⟩) report t ∧ report.removed = [3] ∧
    (∃ s, t.1.registers .input 3 = .ok s ∧ (⟨"y"⟩ : Register) ∈ s.facts) ∧
    t.2.graph.edges = g.edges ∧ t.2.graph.blockList.map Block.quads =
      [[⟨1, .nullCheck ⟨"x"⟩⟩], [], [⟨2, .move ⟨"y"⟩ (.register ⟨"x"⟩)⟩]] := by
  obtain ⟨g, hg, hresult, hquads, hblocks⟩ : ∃ g,
      FlowGraph.ofOutline FlowGraph.loopOutline = .ok g ∧
      (Pass.run .off (.edgeRegister (.ofProblem (NullCheck.problem .moveAware)),
        ⟨"loop", [], g⟩)).result = .ok ⟨"loop", [3]⟩ ∧
      g.quads = [⟨1, .nullCheck ⟨"x"⟩⟩, ⟨2, .move ⟨"y"⟩ (.register ⟨"x"⟩)⟩,
        ⟨3, .nullCheck ⟨"y"⟩⟩] ∧
      (g.blockList.map fun b => b.quads.filter fun q => q.id ∉ [3]) =
        [[⟨1, .nullCheck ⟨"x"⟩⟩], [], [⟨2, .move ⟨"y"⟩ (.register ⟨"x"⟩)⟩]] :=
    ⟨_, rfl, by decide +kernel, rfl, rfl⟩
  have hrun := Run.yields_of_result hresult
  obtain ⟨_, _, hremoved, _, _, _, _, hedges, _, hleft⟩ :=
    pass_changes_only_removed_null_checks (Pass.serves_of_named rfl : Pass.Serves
      "edge-null-checks" _) (FlowGraph.built_ofOutline hg) hrun
  obtain ⟨q, hq, hid, r, s, hcheck, hs, hr⟩ :=
    ((hremoved (by decide)).2 3).1 List.mem_cons_self
  refine ⟨g, _, _, hg, hrun, rfl, ⟨s, hs, ?_⟩, hedges, hleft.trans hblocks⟩
  have hy : q = ⟨3, .nullCheck ⟨"y"⟩⟩ := by
    change q ∈ g.quads at hq
    rw [hquads] at hq
    simp only [List.mem_cons, List.not_mem_nil, or_false] at hq
    rcases hq with rfl | rfl | rfl
    · cases hid
    · cases hid
    · rfl
  rw [hy] at hcheck
  cases hcheck
  exact hr

end Dataflow
