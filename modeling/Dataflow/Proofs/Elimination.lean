import Dataflow.Pass
import Dataflow.Proofs.Unproven

/-! # Null check elimination

A null check pass takes out exactly the checks of registers that are not unproven where the
check stands, and keeps everything else of the routine.
-/
namespace Dataflow

namespace FlowGraph

variable {g h k : FlowGraph} {ids others : List QuadId}

theorem erased_nil (g : FlowGraph) : g.Erased [] g where
  blocks i := by
    cases g.blocks.get? i with
    | none => rfl
    | some b => rw [Option.map_some, Block.without_nil]
  edges := rfl
  entry := rfl

theorem Erased.trans (hg : g.Erased ids h) (hh : h.Erased others k) :
    g.Erased (ids ++ others) k where
  blocks i := by
    rw [hh.blocks, hg.blocks]
    cases g.blocks.get? i with
    | none => rfl
    | some b => simp only [Option.map_some, Block.without_without]
  edges := hh.edges.trans hg.edges
  entry := hh.entry.trans hg.entry

theorem Erased.blocks_eq (hg : g.Erased ids h) : h.blocks = g.blocks.map (·.without ids) := by
  refine OrderedMap.ext fun i => ?_
  rw [hg.blocks, OrderedMap.get?_map]

theorem Erased.blockList_eq (hg : g.Erased ids h) :
    h.blockList = g.blockList.map (·.without ids) := by
  rw [blockList, blockList, hg.blocks_eq]
  simp [OrderedMap.values, OrderedMap.map]

theorem Erased.quadsAt_eq (hg : g.Erased ids h) (i : BlockIndex) :
    h.quadsAt i = (g.quadsAt i).filter (fun q => !ids.contains q.id) := by
  unfold quadsAt
  rw [hg.blocks]
  cases g.blocks.get? i <;> rfl

theorem mem_quads_iff_within {q : Quad} :
    q ∈ g.quads ↔ ∃ i rest, g.Within ⟨i, q :: rest⟩ := by
  rw [mem_quads]
  constructor
  · rintro ⟨i, b, hb, hq⟩
    obtain ⟨pre, rest, hquads⟩ := List.append_of_mem hq
    refine ⟨i, rest, pre, ?_⟩
    rw [quadsAt_eq hb, hquads]
  · rintro ⟨i, rest, hq⟩
    obtain ⟨b, hb⟩ := exists_block_of_within hq
    refine ⟨i, b, hb, ?_⟩
    rw [← quadsAt_eq hb]
    exact hq.subset List.mem_cons_self

theorem Erased.mem_quads_iff (hg : g.Erased ids h) {q : Quad} :
    q ∈ h.quads ↔ q ∈ g.quads ∧ q.id ∉ ids := by
  have hat : ∀ (g : FlowGraph), q ∈ g.quads ↔ ∃ i, q ∈ g.quadsAt i := by
    intro g
    rw [mem_quads_iff_within]
    constructor
    · rintro ⟨i, rest, hq⟩
      exact ⟨i, hq.subset List.mem_cons_self⟩
    · rintro ⟨i, hq⟩
      obtain ⟨pre, rest, hquads⟩ := List.append_of_mem hq
      exact ⟨i, rest, pre, hquads.symm⟩
  rw [hat, hat]
  simp only [hg.quadsAt_eq, List.mem_filter, Bool.not_eq_true', List.contains_eq_mem,
    decide_eq_false_iff_not, exists_and_right]

theorem Erased.exists_locations (hg : g.Erased ids h) (hls : ∃ ls, g.locations = .ok ls) :
    ∃ ls, h.locations = .ok ls := by
  rw [exists_locations_iff] at hls ⊢
  rcases hls with hnone | hentry
  · refine .inl fun i => ?_
    rw [hg.blocks, hnone]
    rfl
  · rw [hg.entry]
    exact .inr hentry

end FlowGraph

namespace NullCheck

open FlowGraph (Point)

variable {f : Routine} {ls : List Location} {mode : Mode} {v : Valuation Register} {id : QuadId}

/-- A check with its register proven in front of it, and so of no effect. -/
structure Needless (g : FlowGraph) (mode : Mode) (i : BlockIndex) (q : Quad) (rest : List Quad)
    (r : Register) : Prop where
  within : g.Within ⟨i, q :: rest⟩
  check : q.operation = .nullCheck r
  proven : ¬ Unproven g mode ⟨i, q :: rest⟩ r

theorem same_iff_mem_input {l : Location} {r : Register}
    (hv : ((problem mode).scheme f ls).Solves v) (hl : l ∈ ls)
    (hcheck : l.quad.operation = .nullCheck r) :
    v .input l.id = v .output l.id ↔ r ∈ v .input l.id := by
  have hsolved : v .output l.id = transfer mode l.quad (v .input l.id) := (hv l hl).2
  have hdefined : l.quad.defined = [] := by rw [Quad.defined, hcheck]; rfl
  have hmem : ∀ s, s ∈ v .output l.id ↔ s ∈ v .input l.id ∨ s = r := by
    intro s
    rw [hsolved, mem_transfer, checks_iff, hcheck, hdefined]
    simp only [List.not_mem_nil, not_false_eq_true, and_true, and_false, or_false,
      Operation.nullCheck.injEq, @eq_comm _ r s]
  constructor
  · intro heq
    rw [heq]
    exact (hmem r).2 (.inr rfl)
  · intro hr
    apply OrderedSet.ext
    intro s
    rw [hmem]
    constructor
    · exact .inl
    · rintro (hs | rfl)
      · exact hs
      · exact hr

/-- A check is found redundant if its register is known in front of it. -/
theorem mem_redundantChecks_iff (hls : f.locations = .ok ls)
    (hv : ((problem mode).scheme f ls).Solves v) : id ∈ redundantChecks f v ↔
      ∃ q ∈ f.quads, q.id = id ∧ ∃ r, q.operation = .nullCheck r ∧ r ∈ v .input q.id := by
  have hlist : id ∈ redundantChecks f v ↔
      ∃ q, (q ∈ f.nullChecks ∧ v .input q.id = v .output q.id) ∧ q.id = id := by
    unfold redundantChecks
    rw [OrderedSet.mem_toList, OrderedSet.mem_ofList, List.mem_map]
    simp only [List.mem_filter, decide_eq_true_eq]
  rw [hlist]
  constructor
  · rintro ⟨q, ⟨hq, hsame⟩, rfl⟩
    obtain ⟨hmem, hnull⟩ := List.mem_filter.1 hq
    obtain ⟨r, hcheck⟩ := isNullCheck_iff.1 hnull
    obtain ⟨l, hl, rfl⟩ := FlowGraph.exists_location_of_quad hls hmem
    exact ⟨l.quad, hmem, rfl, r, hcheck, (same_iff_mem_input hv hl hcheck).1 hsame⟩
  · rintro ⟨q, hq, rfl, r, hcheck, hr⟩
    obtain ⟨l, hl, rfl⟩ := FlowGraph.exists_location_of_quad hls hq
    exact ⟨l.quad, ⟨List.mem_filter.2 ⟨hq, isNullCheck_iff.2 ⟨r, hcheck⟩⟩,
      (same_iff_mem_input hv hl hcheck).2 hr⟩, rfl⟩

/-- The checks found redundant are the needless ones. -/
theorem mem_redundantChecks (hf : f.graph.Coherent) (hls : f.locations = .ok ls)
    (hv : ((problem mode).scheme f ls).Greatest v) :
    id ∈ redundantChecks f v ↔ ∃ i q rest r, q.id = id ∧ Needless f.graph mode i q rest r := by
  rw [mem_redundantChecks_iff hls hv.solves]
  constructor
  · rintro ⟨q, hq, rfl, r, hcheck, hr⟩
    obtain ⟨l, hl, rfl⟩ := FlowGraph.exists_location_of_quad hls hq
    obtain ⟨i, rest, hat⟩ := hf.exists_located hls hl
    exact ⟨i, l.quad, rest, r, rfl, hat.within, hcheck, ((mem_input hf hls hv hl hat).1 hr).2⟩
  · rintro ⟨i, q, rest, r, rfl, hw, hcheck, hproven⟩
    obtain ⟨l, hl, rfl, hat⟩ := hf.exists_location hls hw
    have hmem : l.quad ∈ f.quads := FlowGraph.mem_quads_of_location hls hl
    have hmentioned : r ∈ mentioned f :=
      mem_mentioned hmem (.inr (checks_iff.2 hcheck).2)
    exact ⟨l.quad, hmem, rfl, r, hcheck, (mem_input hf hls hv hl hat).2 ⟨hmentioned, hproven⟩⟩

end NullCheck

namespace Solver

/-- The solver looks for redundant null checks in this mode, on either storage. -/
def Checks (mode : NullCheck.Mode) : Solver → Prop
  | nodeRegister a => a.problem = NullCheck.guardedProblem mode
  | edgeRegister a => a.problem = NullCheck.problem mode
  | _ => False

/-- The registers known on one side of a quad, over all its edges. -/
def registers (side : Side) (id : QuadId) : Solver → Except Error (FactSet Register)
  | nodeRegister a => a.get side id
  | edgeRegister a => a.getAll side id
  | _ => .error .uninitialized

def exitRegisters : Solver → Except Error (FactSet Register)
  | nodeRegister a => a.exit
  | edgeRegister a => a.exit
  | _ => .error .uninitialized

variable {mode : NullCheck.Mode} {solver : Solver} {f : Routine} {ls : List Location}

/-- Whatever the solver holds, it finds the maximal fixed point and what holds there at the exit.
-/
theorem Checks.solve_exit_eq (hs : Checks mode solver) (hf : f.graph.Coherent)
    (hls : f.locations = .ok ls) (level : Level) :
    ∃ v, ((NullCheck.problem mode).scheme f ls).Greatest v ∧
      (solve level f solver).result = .ok (NullCheck.redundantChecks f v) ∧
      Checks mode (solve level f solver).state ∧
      (∀ side, ∀ q ∈ f.quads, registers side q.id (solve level f solver).state =
        .ok (((NullCheck.problem mode).scheme f ls).pack (v side q.id))) ∧
      exitRegisters (solve level f solver).state = .ok (((NullCheck.problem mode).scheme f ls).pack
        (((NullCheck.problem mode).scheme f ls).farValue v)) := by
  cases solver with
  | nodeRegister a =>
    obtain ⟨v, hv, hsettled, hresult⟩ := NodeAnalysis.solve_eq
      (NullCheck.regular_guardedProblem mode f) (NullCheck.concludes_guardedProblem mode f) hf hls
      hs level
    refine ⟨v, hv, hresult, ?_, fun side q hq => ?_, hsettled.exit⟩
    · obtain ⟨s, hstate, _⟩ := hsettled.holds
      show (NodeAnalysis.solve level f a).state.problem = _
      rw [hstate]
    · obtain ⟨l, hl, rfl⟩ := FlowGraph.exists_location_of_quad hls hq
      exact hsettled.holds.get side hl
  | edgeRegister a =>
    obtain ⟨v, hv, hsettled, hresult⟩ := EdgeAnalysis.solve_eq
      (NullCheck.regular_problem mode f) (NullCheck.concludes_problem mode f) hf hls hs level
    refine ⟨v, hv, hresult, ?_, fun side q hq => ?_, hsettled.exit⟩
    · obtain ⟨s, hstate, _⟩ := hsettled.holds
      show (EdgeAnalysis.solve level f a).state.problem = _
      rw [hstate]
    · obtain ⟨l, hl, rfl⟩ := FlowGraph.exists_location_of_quad hls hq
      exact hsettled.holds.getAll hv.inside side hl
  | nodeQuad a => exact absurd hs not_false
  | edgeQuad a => exact absurd hs not_false

theorem Checks.solve_eq (hs : Checks mode solver) (hf : f.graph.Coherent)
    (hls : f.locations = .ok ls) (level : Level) :
    ∃ v, ((NullCheck.problem mode).scheme f ls).Greatest v ∧
      (solve level f solver).result = .ok (NullCheck.redundantChecks f v) ∧
      Checks mode (solve level f solver).state ∧
      ∀ side, ∀ q ∈ f.quads, registers side q.id (solve level f solver).state =
        .ok (((NullCheck.problem mode).scheme f ls).pack (v side q.id)) := by
  obtain ⟨v, hv, hresult, hchecks, hread, _⟩ := hs.solve_exit_eq hf hls level
  exact ⟨v, hv, hresult, hchecks, hread⟩

theorem Checks.solve_of_error (hs : Checks mode solver) {e : Error} (hls : f.locations = .error e)
    (level : Level) : (solve level f solver).result = .error e := by
  cases solver with
  | nodeRegister a => exact NodeAnalysis.solve_of_error hls level a
  | edgeRegister a => exact EdgeAnalysis.solve_of_error hls level a
  | nodeQuad a => exact absurd hs not_false
  | edgeQuad a => exact absurd hs not_false

end Solver

namespace Pass

def nullCheckNames : List String := ["null-checks", "move-null-checks", "edge-null-checks"]

/-- The solver of the named null check pass, whatever it still holds from earlier routines. -/
inductive AtWork (name : String) : Solver → Prop
  | node {fresh a : NodeAnalysis Register} : named name = .ok (.nodeRegister fresh) →
      a.problem = fresh.problem → AtWork name (.nodeRegister a)
  | edge {fresh a : EdgeAnalysis Register} : named name = .ok (.edgeRegister fresh) →
      a.problem = fresh.problem → AtWork name (.edgeRegister a)

/-- A null check pass starts with a fresh solver and has one mode, whatever its solver holds. -/
theorem exists_mode {name : String} (hname : name ∈ nullCheckNames) :
    ∃ mode fresh, named name = .ok fresh ∧ AtWork name fresh ∧
      ∀ solver, AtWork name solver → Solver.Checks mode solver := by
  have hfresh : ∃ mode fresh, named name = .ok fresh ∧ AtWork name fresh ∧
      Solver.Checks mode fresh := by
    simp only [nullCheckNames, List.mem_cons, List.not_mem_nil, or_false] at hname
    rcases hname with rfl | rfl | rfl
    · exact ⟨.basic, _, rfl, .node rfl rfl, rfl⟩
    · exact ⟨.moveAware, _, rfl, .node rfl rfl, rfl⟩
    · exact ⟨.moveAware, _, rfl, .edge rfl rfl, rfl⟩
  obtain ⟨mode, fresh, hfresh, hwork, hchecks⟩ := hfresh
  refine ⟨mode, fresh, hfresh, hwork, fun solver h => ?_⟩
  cases h with
  | node hnode hproblem =>
    cases hfresh.symm.trans hnode
    exact hproblem.trans hchecks
  | edge hedge hproblem =>
    cases hfresh.symm.trans hedge
    exact hproblem.trans hchecks

variable {level : Level} {mode : NullCheck.Mode} {solver solver' : Solver} {f f' : Routine}

theorem of_eraseQuad {id : QuadId} (built : f.graph.Built)
    (h : (eraseQuad level id).Yields f () f') :
    f'.name = f.name ∧ f'.parameters = f.parameters ∧ f'.graph.Built ∧
      f.graph.Erased [id] f'.graph := by
  obtain ⟨_, _, hget, h⟩ := h.of_bind
  obtain ⟨rfl, rfl⟩ := (Run.yields_get f).unique hget
  obtain ⟨q, _, hzoom, h⟩ := h.of_bind
  obtain ⟨graph, herase, rfl⟩ := hzoom.of_zoom
  obtain ⟨_, rfl⟩ := (Run.yields_say _ _ _ _).unique h
  exact ⟨rfl, rfl, herase.state ▸ built.edited (.eraseQuad f.graph id),
    (built.coherent.eraseQuad_erased herase).1⟩

theorem of_eraseQuads {ids : List QuadId} (built : f.graph.Built)
    (h : (ids.forM fun id => (eraseQuad level id).zoom Prod.snd
      (fun (s : Solver × Routine) f => (s.1, f))).Yields (solver, f) () (solver', f')) :
    solver' = solver ∧ f'.name = f.name ∧ f'.parameters = f.parameters ∧ f'.graph.Built ∧
      f.graph.Erased ids f'.graph := by
  induction ids generalizing f with
  | nil =>
    obtain ⟨_, heq⟩ := (Run.yields_pure () (solver, f)).unique h
    cases heq
    exact ⟨rfl, rfl, rfl, built, FlowGraph.erased_nil _⟩
  | cons id ids ih =>
    obtain ⟨_, ⟨s, k⟩, hfirst, hrest⟩ := Run.Yields.of_bind h
    obtain ⟨k, hfirst, heq⟩ := hfirst.of_zoom
    cases heq
    obtain ⟨hname, hparameters, hbuilt, herased⟩ := of_eraseQuad built hfirst
    obtain ⟨hsolver, hname', hparameters', hbuilt', herased'⟩ := ih hbuilt hrest
    exact ⟨hsolver, hname'.trans hname, hparameters'.trans hparameters, hbuilt',
      herased.trans herased'⟩

/-- What a null check pass does to a routine: it takes out the needless checks. -/
structure Eliminated (mode : NullCheck.Mode) (f : Routine) (ids : List QuadId) (f' : Routine) :
    Prop where
  name : f'.name = f.name
  parameters : f'.parameters = f.parameters
  built : f'.graph.Built
  erased : f.graph.Erased ids f'.graph
  locations : ∃ ls, f.locations = .ok ls
  mem_iff (id : QuadId) : id ∈ ids ↔
    ∃ i q rest r, q.id = id ∧ NullCheck.Needless f.graph mode i q rest r

/-- What a run that succeeds has done: it has solved the routine, and has taken out of it what
was found. -/
theorem of_run {report : Report} (built : f.graph.Built)
    (h : (run level).Yields (solver, f) report (solver', f')) :
    ∃ found, (Solver.solve level f).Yields solver found solver' ∧
      report = ⟨f.name, (OrderedSet.ofList found).toList⟩ ∧
      f'.name = f.name ∧ f'.parameters = f.parameters ∧ f'.graph.Built ∧
      f.graph.Erased report.removed f'.graph ∧ (report.removed = [] → f' = f) := by
  obtain ⟨_, _, hget, h⟩ := h.of_bind
  obtain ⟨rfl, rfl⟩ := (Run.yields_get (solver, f)).unique hget
  obtain ⟨found, _, hfound, h⟩ := h.of_bind
  obtain ⟨solved, hsolve, rfl⟩ := hfound.of_mapError.of_zoom
  obtain ⟨_, ⟨s, k⟩, herase, h⟩ := h.of_bind
  obtain ⟨rfl, heq⟩ := (Run.yields_pure _ _).unique h
  cases heq
  obtain ⟨rfl, hname, hparameters, hbuilt, herased⟩ := of_eraseQuads built herase
  refine ⟨found, hsolve, rfl, hname, hparameters, hbuilt, herased, fun hnone => ?_⟩
  dsimp only at hnone
  rw [hnone] at herase
  obtain ⟨_, heq⟩ := (Run.yields_pure () _).unique herase
  exact (Prod.mk.inj heq).2.symm

/-- The values that the solver of a null check pass is left with, and the checks that they show to
be redundant. -/
theorem exists_values_of_run {report : Report} (hs : solver.Checks mode) (built : f.graph.Built)
    (h : (run level).Yields (solver, f) report (solver', f')) :
    ∃ ls v, f.locations = .ok ls ∧ ((NullCheck.problem mode).scheme f ls).Greatest v ∧
      solver'.Checks mode ∧
      (∀ side, ∀ q ∈ f.quads, solver'.registers side q.id =
        .ok (((NullCheck.problem mode).scheme f ls).pack (v side q.id))) ∧
      ∀ id, id ∈ report.removed ↔ id ∈ NullCheck.redundantChecks f v := by
  obtain ⟨found, hsolve, rfl, _⟩ := of_run built h
  cases hls : f.locations with
  | error e => cases hsolve.result.symm.trans (hs.solve_of_error hls level)
  | ok ls =>
    obtain ⟨v, hv, hresult, hchecks, hread⟩ := hs.solve_eq built.coherent hls level
    cases hsolve.result.symm.trans hresult
    rw [hsolve.state] at hchecks hread
    refine ⟨ls, v, rfl, hv, hchecks, hread, fun id => ?_⟩
    rw [OrderedSet.mem_toList, OrderedSet.mem_ofList]

theorem eliminated_of_run {report : Report} (hs : solver.Checks mode) (built : f.graph.Built)
    (h : (run level).Yields (solver, f) report (solver', f')) :
    report.routine = f.name ∧ Eliminated mode f report.removed f' ∧ solver'.Checks mode := by
  obtain ⟨ls, v, hls, hv, hchecks, _, hremoved⟩ := exists_values_of_run hs built h
  obtain ⟨found, _, hreport, hname, hparameters, hbuilt, herased, _⟩ := of_run built h
  refine ⟨by rw [hreport], ⟨hname, hparameters, hbuilt, herased, ⟨ls, hls⟩, fun id => ?_⟩, hchecks⟩
  rw [hremoved, NullCheck.mem_redundantChecks built.coherent hls hv]

end Pass

end Dataflow
