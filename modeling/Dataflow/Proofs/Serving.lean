import Dataflow.Pass
import Dataflow.Proofs.Agreement
import Dataflow.Proofs.Underway

/-! # The solvers of the passes

A solver may serve many routines, one after the other. It keeps its problem through all of them,
whether they succeed or fail. For the problems of the library, what it finds in a routine then
depends neither on what it holds from earlier ones nor on what is logged.
-/
namespace Dataflow

variable {α : Type} [Fact α]

namespace Engine

variable {σ τ : Type} {e : Engine σ τ α} (he : e.Steady) {p : Problem α}

include he

theorem Steady.keeps_pass (level : Level) (ls : List Location) :
    Run.Keeps (Analysis.On p) (e.pass level ls) := by
  refine Engine.keeps_pass fun l _ => keeps_visitAt fun ha h => ?_
  obtain ⟨x, b, _, hb, hprocess⟩ := exists_of_visit h
  exact (he.process hprocess).on ((he.setGiven hb).on ha)

theorem Steady.keeps_seed (ls : List Location) : Run.Keeps (Analysis.On p) (e.seed ls) := by
  refine Run.Keeps.forM fun l _ a ha => ?_
  refine (Run.keeps_ofExcept (Analysis.On p) a.scratch).bind (fun scratch => ?_) a ha
  exact Run.Keeps.forM fun write hwrite => Run.keeps_change fun hb h => (he.writes hwrite h).on hb

theorem Steady.keeps_iterate (level : Level) (name : String) (ls : List Location)
    (fuel count : Nat) : Run.Keeps (Analysis.On p) (e.iterate level name ls fuel count) :=
  Engine.keeps_iterate (he.keeps_pass level ls) name fuel count

theorem Steady.keeps_settle (level : Level) (ls : List Location) :
    Run.Keeps (Analysis.On p) (e.settle level ls) :=
  Engine.keeps_settle (fun ha _ _ h => (he.setExit h).on ha) fun ha _ _ h => (he.setEntry h).on ha

theorem Steady.keeps_solve (level : Level) (f : Routine) :
    Run.Keeps (Analysis.On p) (e.solve level f) := by
  refine (he.prepare p f).bind fun _ => (Run.keeps_ofExcept _ _).bind fun ls =>
    (he.keeps_seed ls).bind fun _ a ha => ?_
  refine (he.keeps_iterate level f.name ls _ 1).bind (fun _ => (he.keeps_settle level ls).bind
    fun _ => ?_) a ha
  exact fun _ hb => hb

end Engine

/-- The problem can be solved in the routine, and what is found then are quads of the routine,
determined by the values of its quads. -/
structure Problem.Settles (p : Problem α) (f : Routine) (found : Valuation α → List QuadId) :
    Prop where
  regular : p.Regular f
  concludes : p.Concludes f found
  congr {v w : Valuation α} : (∀ side, ∀ q ∈ f.quads, v side q.id = w side q.id) →
    found v = found w
  known {v : Valuation α} {id : QuadId} : id ∈ found v → ∃ q ∈ f.quads, q.id = id

theorem NullCheck.exists_of_mem_redundantChecks {f : Routine} {v : Valuation Register}
    {id : QuadId} (h : id ∈ redundantChecks f v) : ∃ q ∈ f.quads, q.id = id := by
  rw [redundantChecks, OrderedSet.mem_toList, OrderedSet.mem_ofList, List.mem_map] at h
  obtain ⟨q, hq, rfl⟩ := h
  exact ⟨q, (List.mem_filter.1 (List.mem_filter.1 hq).1).1, rfl⟩

theorem NullCheck.settles_problem (mode : Mode) (f : Routine) :
    (problem mode).Settles f (redundantChecks f) where
  regular := regular_problem mode f
  concludes := concludes_problem mode f
  congr := redundantChecks_congr
  known := exists_of_mem_redundantChecks

theorem NullCheck.settles_guardedProblem (mode : Mode) (f : Routine) :
    (guardedProblem mode).Settles f (redundantChecks f) where
  regular := regular_guardedProblem mode f
  concludes := concludes_guardedProblem mode f
  congr := redundantChecks_congr
  known := exists_of_mem_redundantChecks

theorem ReachingDefinition.settles_problem (f : Routine) : problem.Settles f (fun _ => []) where
  regular := regular_problem f
  concludes := concludes_problem f
  congr _ := rfl
  known h := absurd h List.not_mem_nil

theorem LiveVariable.settles_problem (f : Routine) : problem.Settles f (fun _ => []) where
  regular := regular_problem f
  concludes := concludes_problem f
  congr _ := rfl
  known h := absurd h List.not_mem_nil

section Found

variable {p : Problem α} {f : Routine} {found : Valuation α → List QuadId} {ls : List Location}

theorem Problem.Settles.found_eq (hp : p.Settles f found) (hls : f.locations = .ok ls)
    {v w : Valuation α} (hv : (p.scheme f ls).Greatest v) (hw : (p.scheme f ls).Greatest w) :
    found v = found w := by
  refine hp.congr fun side q hq => ?_
  obtain ⟨l, hl, rfl⟩ := FlowGraph.exists_location_of_quad hls hq
  exact hv.unique hw side hl

/-- The solver keeps to its problem, fails where there are no locations, and otherwise concludes
from the maximal fixed point. -/
structure Engine.Correct {σ τ : Type} (e : Engine σ τ α) : Prop where
  steady : e.Steady
  error {f : Routine} {x : Error} : f.locations = .error x → ∀ (level : Level) (a : Analysis σ α),
    (e.solve level f a).result = .error x
  greatest {p : Problem α} {f : Routine} {ls : List Location}
    {found : Valuation α → List QuadId} : p.Regular f → p.Concludes f found → f.graph.Coherent →
    f.locations = .ok ls → ∀ {a : Analysis σ α}, a.problem = p → ∀ level : Level,
      ∃ v, (p.scheme f ls).Greatest v ∧ (e.solve level f a).result = .ok (found v)

theorem NodeAnalysis.correct_engine : (engine (α := α)).Correct where
  steady := steady_engine
  error := solve_of_error
  greatest hp hc hf hls _ ha level := by
    obtain ⟨v, hv, _, hresult⟩ := solve_eq hp hc hf hls ha level
    exact ⟨v, hv, hresult⟩

theorem EdgeAnalysis.correct_engine : (engine (α := α)).Correct where
  steady := steady_engine
  error := solve_of_error
  greatest hp hc hf hls _ ha level := by
    obtain ⟨v, hv, _, hresult⟩ := solve_eq hp hc hf hls ha level
    exact ⟨v, hv, hresult⟩

/-- What is found in a routine depends neither on the state before nor on the level. -/
theorem Engine.Correct.exists_found {σ τ : Type} {e : Engine σ τ α} (he : e.Correct)
    (hp : p.Settles f found) (hf : f.graph.Coherent) (hls : f.locations = .ok ls) :
    ∃ ids, (∀ id ∈ ids, ∃ q ∈ f.quads, q.id = id) ∧
      ∀ (level : Level) (a : Analysis σ α), a.problem = p →
        (e.solve level f a).result = .ok ids := by
  obtain ⟨v, hv, _⟩ := he.greatest hp.regular hp.concludes hf hls (a := .ofProblem p) rfl .off
  refine ⟨found v, fun id => hp.known, fun level a ha => ?_⟩
  obtain ⟨w, hw, hresult⟩ := he.greatest hp.regular hp.concludes hf hls ha level
  rw [hresult, hp.found_eq hls hw hv]

end Found

namespace Solver

/-- The two have the same problem to solve, on storage of the same kind. -/
inductive SameTask : Solver → Solver → Prop
  | nodeRegister {a b : NodeAnalysis Register} :
      a.problem = b.problem → SameTask (nodeRegister a) (nodeRegister b)
  | nodeQuad {a b : NodeAnalysis QuadId} :
      a.problem = b.problem → SameTask (nodeQuad a) (nodeQuad b)
  | edgeRegister {a b : EdgeAnalysis Register} :
      a.problem = b.problem → SameTask (edgeRegister a) (edgeRegister b)
  | edgeQuad {a b : EdgeAnalysis QuadId} :
      a.problem = b.problem → SameTask (edgeQuad a) (edgeQuad b)

theorem SameTask.refl (solver : Solver) : SameTask solver solver := by
  cases solver with
  | nodeRegister a => exact .nodeRegister rfl
  | nodeQuad a => exact .nodeQuad rfl
  | edgeRegister a => exact .edgeRegister rfl
  | edgeQuad a => exact .edgeQuad rfl

theorem SameTask.trans {s t u : Solver} (hst : s.SameTask t) (htu : t.SameTask u) :
    s.SameTask u := by
  cases hst with
  | nodeRegister h =>
    cases htu with
    | nodeRegister h' => exact .nodeRegister (h.trans h')
  | nodeQuad h =>
    cases htu with
    | nodeQuad h' => exact .nodeQuad (h.trans h')
  | edgeRegister h =>
    cases htu with
    | edgeRegister h' => exact .edgeRegister (h.trans h')
  | edgeQuad h =>
    cases htu with
    | edgeQuad h' => exact .edgeQuad (h.trans h')

/-- A solver stays with its task, whatever it is given to solve. -/
theorem SameTask.solve (level : Level) (f : Routine) (solver : Solver) :
    SameTask (solver.solve level f).state solver := by
  cases solver with
  | nodeRegister a => exact .nodeRegister (NodeAnalysis.steady_engine.keeps_solve level f a rfl)
  | nodeQuad a => exact .nodeQuad (NodeAnalysis.steady_engine.keeps_solve level f a rfl)
  | edgeRegister a => exact .edgeRegister (EdgeAnalysis.steady_engine.keeps_solve level f a rfl)
  | edgeQuad a => exact .edgeQuad (EdgeAnalysis.steady_engine.keeps_solve level f a rfl)

/-- The tasks of the passes. -/
inductive Standard : Solver → Prop
  | nullChecks (mode : NullCheck.Mode) {a : NodeAnalysis Register} :
      a.problem = NullCheck.guardedProblem mode → Standard (nodeRegister a)
  | edgeNullChecks (mode : NullCheck.Mode) {a : EdgeAnalysis Register} :
      a.problem = NullCheck.problem mode → Standard (edgeRegister a)
  | liveVariables {a : NodeAnalysis Register} :
      a.problem = LiveVariable.problem → Standard (nodeRegister a)
  | reachingDefinitions {a : NodeAnalysis QuadId} :
      a.problem = ReachingDefinition.problem → Standard (nodeQuad a)
  | edgeReachingDefinitions {a : EdgeAnalysis QuadId} :
      a.problem = ReachingDefinition.problem → Standard (edgeQuad a)

variable {solver other : Solver} {f : Routine} {ls : List Location}

theorem Standard.of_sameTask (h : other.Standard) (hsame : solver.SameTask other) :
    solver.Standard := by
  cases h with
  | nullChecks mode hp =>
    cases hsame with
    | nodeRegister h => exact .nullChecks mode (h.trans hp)
  | edgeNullChecks mode hp =>
    cases hsame with
    | edgeRegister h => exact .edgeNullChecks mode (h.trans hp)
  | liveVariables hp =>
    cases hsame with
    | nodeRegister h => exact .liveVariables (h.trans hp)
  | reachingDefinitions hp =>
    cases hsame with
    | nodeQuad h => exact .reachingDefinitions (h.trans hp)
  | edgeReachingDefinitions hp =>
    cases hsame with
    | edgeQuad h => exact .edgeReachingDefinitions (h.trans hp)

theorem solve_of_error {e : Error} (hls : f.locations = .error e) (level : Level)
    (solver : Solver) : (solve level f solver).result = .error e := by
  cases solver with
  | nodeRegister a => exact NodeAnalysis.solve_of_error hls level a
  | nodeQuad a => exact NodeAnalysis.solve_of_error hls level a
  | edgeRegister a => exact EdgeAnalysis.solve_of_error hls level a
  | edgeQuad a => exact EdgeAnalysis.solve_of_error hls level a

/-- What is found in a routine is fixed by the task. -/
theorem Standard.exists_found (h : solver.Standard) (hf : f.graph.Coherent)
    (hls : f.locations = .ok ls) : ∃ ids, (∀ id ∈ ids, ∃ q ∈ f.quads, q.id = id) ∧
      ∀ level, (solve level f solver).result = .ok ids := by
  cases h with
  | nullChecks mode hp =>
    obtain ⟨ids, hids, hresult⟩ :=
      NodeAnalysis.correct_engine.exists_found (NullCheck.settles_guardedProblem mode f) hf hls
    exact ⟨ids, hids, fun level => hresult level _ hp⟩
  | edgeNullChecks mode hp =>
    obtain ⟨ids, hids, hresult⟩ :=
      EdgeAnalysis.correct_engine.exists_found (NullCheck.settles_problem mode f) hf hls
    exact ⟨ids, hids, fun level => hresult level _ hp⟩
  | liveVariables hp =>
    obtain ⟨ids, hids, hresult⟩ :=
      NodeAnalysis.correct_engine.exists_found (LiveVariable.settles_problem f) hf hls
    exact ⟨ids, hids, fun level => hresult level _ hp⟩
  | reachingDefinitions hp =>
    obtain ⟨ids, hids, hresult⟩ :=
      NodeAnalysis.correct_engine.exists_found (ReachingDefinition.settles_problem f) hf hls
    exact ⟨ids, hids, fun level => hresult level _ hp⟩
  | edgeReachingDefinitions hp =>
    obtain ⟨ids, hids, hresult⟩ :=
      EdgeAnalysis.correct_engine.exists_found (ReachingDefinition.settles_problem f) hf hls
    exact ⟨ids, hids, fun level => hresult level _ hp⟩

end Solver

namespace Pass

/-- The solver of the named pass, whatever it still holds from earlier routines. -/
def Serves (name : String) (solver : Solver) : Prop :=
  ∃ fresh, named name = .ok fresh ∧ solver.SameTask fresh

theorem mem_all_of_named {name : String} {solver : Solver} (h : named name = .ok solver) :
    (name, solver) ∈ all := by
  unfold named at h
  cases hfind : all.find? (fun p => p.1 == name) with
  | none =>
    rw [hfind] at h
    cases h
  | some p =>
    rw [hfind] at h
    cases h
    have hname : p.1 = name := by simpa using List.find?_some hfind
    rw [← hname]
    exact List.mem_of_find?_eq_some hfind

theorem standard_of_mem_all {p : String × Solver} (h : p ∈ all) : p.2.Standard := by
  simp only [all, List.mem_cons, List.not_mem_nil, or_false] at h
  rcases h with rfl | rfl | rfl | rfl | rfl | rfl
  · exact .edgeNullChecks .moveAware rfl
  · exact .edgeReachingDefinitions rfl
  · exact .liveVariables rfl
  · exact .nullChecks .moveAware rfl
  · exact .nullChecks .basic rfl
  · exact .reachingDefinitions rfl

theorem serves_of_named {name : String} {solver : Solver} (h : named name = .ok solver) :
    Serves name solver := ⟨solver, h, .refl solver⟩

theorem Serves.solve {name : String} {solver : Solver} (h : Serves name solver) (level : Level)
    (f : Routine) : Serves name (solver.solve level f).state := by
  obtain ⟨fresh, hnamed, hsame⟩ := h
  exact ⟨fresh, hnamed, (Solver.SameTask.solve level f solver).trans hsame⟩

theorem Serves.standard {name : String} {solver : Solver} (h : Serves name solver) :
    solver.Standard := by
  obtain ⟨fresh, hnamed, hsame⟩ := h
  exact (standard_of_mem_all (mem_all_of_named hnamed)).of_sameTask hsame

/-- A pass is solving, erasing and reporting. -/
theorem run_eq (level : Level) (solver : Solver) (f : Routine) :
    run level (solver, f) = (do
      let redundant ← ((Solver.solve level f).zoom Prod.fst
        (fun (s : Solver × Routine) solver => (solver, s.2))).mapError
          (.failed s!"Failed to analyze {f.name}")
      (OrderedSet.ofList redundant).toList.forM fun id => (eraseQuad level id).zoom Prod.snd
        (fun (s : Solver × Routine) f => (s.1, f))
      pure ⟨f.name, (OrderedSet.ofList redundant).toList⟩ : Run (Solver × Routine) Report)
        (solver, f) := rfl

end Pass

end Dataflow
