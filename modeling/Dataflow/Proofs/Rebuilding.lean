import Dataflow.Proofs.Outlines
import Dataflow.Proofs.Serving

/-! # Graphs built again

A graph that is built again from its outline has the same blocks, edges and entry. Its nodes may
stand in another order, but no order, neighbor or location depends on that, and so no pass does:
it finds and logs the same, leaves the same values and takes the same quads out.
-/
namespace Dataflow

/-- The routine over the graph with other nodes. -/
def Routine.withNodes (f : Routine) (nodes : List BlockIndex) : Routine :=
  { f with graph := f.graph.withNodes nodes }

theorem Routine.withNodes_locations (f : Routine) (nodes : List BlockIndex) :
    (f.withNodes nodes).locations = f.locations := f.graph.withNodes_locations nodes

variable {α : Type} [Fact α]

/-- The problem does not look at the nodes of a graph. -/
structure Problem.Blind (p : Problem α) : Prop where
  frame (f : Routine) (nodes : List BlockIndex) : p.frame (f.withNodes nodes) = p.frame f
  conclude (level : Level) (f : Routine) (nodes : List BlockIndex) (values : Readings α) :
    p.conclude level (f.withNodes nodes) values = p.conclude level f values

section Solving

variable {p : Problem α} (level : Level) (f : Routine) (nodes : List BlockIndex)

theorem Engine.solve_withNodes {σ τ : Type} {e : Engine σ τ α} (he : e.Steady) (hp : p.Blind)
    (hprepare : Run.EqOn (Analysis.On p) (e.prepare (f.withNodes nodes)) (e.prepare f))
    {a : Analysis σ α} (ha : a.problem = p) :
    e.solve level (f.withNodes nodes) a = e.solve level f a := by
  have hconclude : Run.EqOn (Analysis.On p) (e.conclude level (f.withNodes nodes))
      (e.conclude level f) := by
    intro b hb
    unfold conclude
    rw [show b.problem = p from hb, hp.conclude]
  unfold solve
  rw [f.withNodes_locations]
  refine hprepare.bind (he.prepare p _) (fun _ => (Run.keeps_ofExcept _ _).eqOn_bind fun ls =>
    (he.keeps_seed ls).eqOn_bind fun _ b hb => ?_) a ha
  -- the limit of passes is read off the state, so the state comes in here
  exact (he.keeps_iterate level f.name ls (Problem.passLimit b.frame ls) 1).eqOn_bind
    (fun _ => (he.keeps_settle level ls).eqOn_bind fun _ => hconclude) b hb

theorem NodeAnalysis.solve_withNodes (hp : p.Blind) {a : NodeAnalysis α} (ha : a.problem = p) :
    solve level (f.withNodes nodes) a = solve level f a := by
  refine Engine.solve_withNodes level f nodes steady_engine hp (fun b hb => ?_) ha
  have hprepare : prepare b (f.withNodes nodes) = prepare b f := by
    unfold prepare
    rw [show b.problem = p from hb, hp.frame]
    rfl
  exact congrArg (fun c => (⟨.ok (), c, []⟩ : Outcome (NodeAnalysis α) Unit)) hprepare

theorem EdgeAnalysis.solve_withNodes (hp : p.Blind) {a : EdgeAnalysis α} (ha : a.problem = p) :
    solve level (f.withNodes nodes) a = solve level f a := by
  refine Engine.solve_withNodes level f nodes steady_engine hp (fun b hb => ?_) ha
  show prepare (f.withNodes nodes) b = prepare f b
  unfold prepare
  simp only [Run.get_bind, Run.put_bind, f.withNodes_locations, show b.problem = p from hb,
    hp.frame]
  rfl

end Solving

theorem NullCheck.blind_problem (mode : Mode) : (problem mode).Blind := ⟨fun _ _ => rfl,
  fun _ _ _ _ => rfl⟩

theorem NullCheck.blind_guardedProblem (mode : Mode) : (guardedProblem mode).Blind :=
  ⟨fun _ _ => rfl, fun _ _ _ _ => rfl⟩

theorem ReachingDefinition.blind_problem : problem.Blind := ⟨fun _ _ => rfl, fun _ _ _ _ => rfl⟩

theorem LiveVariable.blind_problem : problem.Blind := ⟨fun _ _ => rfl, fun _ _ _ _ => rfl⟩

theorem Solver.Standard.solve_withNodes {solver : Solver} (h : solver.Standard) (level : Level)
    (f : Routine) (nodes : List BlockIndex) :
    solve level (f.withNodes nodes) solver = solve level f solver := by
  cases h with
  | nullChecks mode hp =>
    rw [solve, solve, NodeAnalysis.solve_withNodes level f nodes
      (NullCheck.blind_guardedProblem mode) hp]
  | edgeNullChecks mode hp =>
    rw [solve, solve, EdgeAnalysis.solve_withNodes level f nodes (NullCheck.blind_problem mode) hp]
  | liveVariables hp =>
    rw [solve, solve, NodeAnalysis.solve_withNodes level f nodes LiveVariable.blind_problem hp]
  | reachingDefinitions hp =>
    rw [solve, solve, NodeAnalysis.solve_withNodes level f nodes
      ReachingDefinition.blind_problem hp]
  | edgeReachingDefinitions hp =>
    rw [solve, solve, EdgeAnalysis.solve_withNodes level f nodes
      ReachingDefinition.blind_problem hp]

namespace Pass

theorem eraseQuad_withNodes (level : Level) (id : QuadId) (f : Routine)
    (nodes : List BlockIndex) :
    eraseQuad level id (f.withNodes nodes) =
      (eraseQuad level id f).mapState (·.withNodes nodes) := by
  unfold eraseQuad
  rw [Run.get_bind, Run.get_bind]
  refine Run.bind_mapState ?_ fun _ _ => rfl
  show (FlowGraph.eraseQuad id (f.graph.withNodes nodes)).mapState _ = _
  rw [FlowGraph.eraseQuad_withNodes]
  rfl

/-- The pass goes on as before, whatever the nodes. -/
theorem run_withNodes {solver : Solver} (h : solver.Standard) (level : Level) (f : Routine)
    (nodes : List BlockIndex) : run level (solver, f.withNodes nodes) =
      (run level (solver, f)).mapState fun s => (s.1, s.2.withNodes nodes) := by
  rw [run_eq, run_eq]
  refine Run.bind_mapState ?_ fun redundant => ?_
  · simp only [Run.mapError, Run.zoom, h.solve_withNodes]
    rfl
  · have herase : ∀ id (s : Solver × Routine),
        (eraseQuad level id).zoom Prod.snd (fun (s : Solver × Routine) f => (s.1, f))
            (s.1, s.2.withNodes nodes) =
          ((eraseQuad level id).zoom Prod.snd (fun s f => (s.1, f)) s).mapState
            fun s => (s.1, s.2.withNodes nodes) := by
      intro id s
      simp only [Run.zoom, eraseQuad_withNodes]
      rfl
    intro s
    exact Run.bind_mapState (Run.forM_mapState
      (φ := fun s : Solver × Routine => (s.1, s.2.withNodes nodes)) herase _ s) fun _ _ => rfl

/-- The outcomes agree in all that a pass shows: its report or error, its log, the values that
its solver holds and the routine that it leaves. -/
structure Alike (o p : Outcome (Solver × Routine) Report) : Prop where
  result : p.result = o.result
  log : p.log = o.log
  solver : p.state.1 = o.state.1
  name : p.state.2.name = o.state.2.name
  parameters : p.state.2.parameters = o.state.2.parameters
  outline : p.state.2.graph.outline = o.state.2.graph.outline

end Pass

/-- Nothing that can be asked of the graphs tells them apart. -/
structure FlowGraph.Indistinct (g h : FlowGraph) : Prop where
  entry : h.entry = g.entry
  blocks : h.blocks = g.blocks
  edges : h.edges = g.edges
  blockOrder : h.blockOrder = g.blockOrder
  predecessors (id : QuadId) : h.predecessors id = g.predecessors id
  successors (id : QuadId) : h.successors id = g.successors id
  locations : h.locations = g.locations
  outline : h.outline = g.outline

theorem FlowGraph.indistinct_withNodes (g : FlowGraph) (nodes : List BlockIndex) :
    g.Indistinct (g.withNodes nodes) where
  entry := g.withNodes_entry nodes
  blocks := g.withNodes_blocks nodes
  edges := g.withNodes_edges nodes
  blockOrder := g.withNodes_blockOrder nodes
  predecessors := g.withNodes_predecessors nodes
  successors := g.withNodes_successors nodes
  locations := g.withNodes_locations nodes
  outline := g.withNodes_outline nodes

/-- The outline of a graph that has been built can be built again. Neither the graph itself nor
any pass over it tells the result from the original. -/
theorem rebuilt_graphs_are_indistinct {g : FlowGraph} (built : g.Built) :
    ∃ h, FlowGraph.ofOutline g.outline = .ok h ∧ g.Indistinct h ∧
      ∀ (name : String) (solver : Solver), Pass.Serves name solver →
        ∀ (level : Level) (routine : String) (parameters : List Register),
          Pass.Alike (Pass.run level (solver, ⟨routine, parameters, g⟩))
            (Pass.run level (solver, ⟨routine, parameters, h⟩)) := by
  obtain ⟨nodes, hnodes⟩ := built.coherent.exists_ofOutline
  refine ⟨_, hnodes, g.indistinct_withNodes nodes, fun name solver serves level routine ps => ?_⟩
  have hrun : Pass.run level (solver, ⟨routine, ps, g.withNodes nodes⟩) = _ :=
    Pass.run_withNodes serves.standard level ⟨routine, ps, g⟩ nodes
  rw [hrun]
  exact ⟨rfl, rfl, rfl, rfl, rfl, rfl⟩

/-- The nodes of a graph whose blocks have come in descending order are not those of the graph
built again. -/
theorem rebuilt_loop_is_indistinct : ∃ g h,
    FlowGraph.ofOutline { FlowGraph.loopOutline with
      blocks := FlowGraph.loopOutline.blocks.reverse } = .ok g ∧
    FlowGraph.ofOutline g.outline = .ok h ∧ g.links.nodes = [2, 1, 0] ∧
    h.links.nodes = [0, 1, 2] ∧ g.Indistinct h ∧
    ∃ solver, Pass.named "edge-null-checks" = .ok solver ∧
      Pass.Alike (Pass.run .trace (solver, ⟨"loop", [], g⟩))
        (Pass.run .trace (solver, ⟨"loop", [], h⟩)) := by
  obtain ⟨g, hg, hdescending⟩ : ∃ g, FlowGraph.ofOutline { FlowGraph.loopOutline with
      blocks := FlowGraph.loopOutline.blocks.reverse } = .ok g ∧ g.links.nodes = [2, 1, 0] :=
    ⟨_, rfl, rfl⟩
  obtain ⟨h, hh, hsame, hpasses⟩ := rebuilt_graphs_are_indistinct (FlowGraph.built_ofOutline hg)
  have hascending : h.links.nodes = [0, 1, 2] := by
    cases hg
    cases hh
    rfl
  exact ⟨g, h, hg, hh, hdescending, hascending, hsame, _, rfl, hpasses "edge-null-checks" _
    (Pass.serves_of_named rfl) .trace "loop" []⟩

end Dataflow
