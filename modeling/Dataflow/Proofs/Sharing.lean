import Dataflow.Proofs.Failing
import Dataflow.Proofs.Idempotence

/-! # One solver for many routines

Preparing for a routine replaces whatever a solver holds from earlier ones. Only if a routine has
no locations do the values by edge stay those of the routine before, and then solving fails. So
the solver that a pass shares among the routines of a program does for each of them what a fresh
one would do.
-/
namespace Dataflow

/-- The outcomes show the same: the result, the log and, after success, the state. -/
structure Outcome.Same {σ α : Type} (o p : Outcome σ α) : Prop where
  result : o.result = p.result
  log : o.log = p.log
  state {a : α} : o.result = .ok a → o.state = p.state

namespace Outcome.Same

variable {σ τ α β : Type} {o p : Outcome σ α}

theorem refl (o : Outcome σ α) : o.Same o := ⟨rfl, rfl, fun _ => rfl⟩

theorem eq_of_ok (h : o.Same p) {a : α} (ha : o.result = .ok a) : o = p := by
  cases o
  cases p
  cases h.result
  cases h.log
  cases h.state ha
  rfl

theorem mapState (h : o.Same p) (f : σ → τ) : (o.mapState f).Same (p.mapState f) :=
  ⟨h.result, h.log, fun ha => congrArg f (h.state ha)⟩

theorem mapError {r : Run σ α} {s t : σ} (h : (r s).Same (r t)) (f : Error → Error) :
    (r.mapError f s).Same (r.mapError f t) where
  result := congrArg (Except.mapError f) h.result
  log := h.log
  state ha := h.state (Run.yields_of_result ha).of_mapError.result

/-- A state that does not show in the first part of a run does not show in the whole. -/
theorem bind {r : Run σ α} {s t : σ} (h : (r s).Same (r t)) (f : α → Run σ β) :
    ((r >>= f) s).Same ((r >>= f) t) := by
  rw [Run.bind_apply, Run.bind_apply]
  cases hresult : (r s).result with
  | error e =>
    rw [← h.result, hresult, h.log]
    exact ⟨rfl, rfl, fun hok => by cases hok⟩
  | ok a =>
    rw [← h.eq_of_ok hresult, hresult]
    exact refl _

end Outcome.Same

section Solving

variable {α : Type} [Fact α] (level : Level) (f : Routine)

theorem NodeAnalysis.solve_congr {a b : NodeAnalysis α} (h : a.problem = b.problem) :
    (solve level f a).Same (solve level f b) := by
  have hprepare : a.prepare f = b.prepare f := by
    unfold prepare
    rw [h]
  have hsame : (engine.prepare f a).Same (engine.prepare f b) :=
    ⟨rfl, rfl, fun _ => hprepare⟩
  exact hsame.bind _

theorem EdgeAnalysis.prepare_congr {a b : EdgeAnalysis α} (h : a.problem = b.problem) :
    (prepare f a).Same (prepare f b) := by
  obtain ⟨p, _, _⟩ := a
  obtain ⟨_, _, _⟩ := b
  cases h
  unfold prepare
  simp only [Run.get_bind, Run.put_bind]
  cases f.locations with
  | error e => exact ⟨rfl, rfl, fun hok => by cases hok⟩
  | ok ls => exact ⟨rfl, rfl, fun _ => rfl⟩

theorem EdgeAnalysis.solve_congr {a b : EdgeAnalysis α} (h : a.problem = b.problem) :
    (solve level f a).Same (solve level f b) := (prepare_congr f h).bind _

end Solving

namespace Solver

variable {s t : Solver}

/-- What shows of solving a routine depends on the task alone. -/
theorem SameTask.solve_same (h : s.SameTask t) (level : Level) (f : Routine) :
    (Solver.solve level f s).Same (Solver.solve level f t) := by
  cases h with
  | nodeRegister h => exact (NodeAnalysis.solve_congr level f h).mapState _
  | nodeQuad h => exact (NodeAnalysis.solve_congr level f h).mapState _
  | edgeRegister h => exact (EdgeAnalysis.solve_congr level f h).mapState _
  | edgeQuad h => exact (EdgeAnalysis.solve_congr level f h).mapState _

def having (solver : Solver) (history : List (Level × Routine)) : Solver :=
  history.foldl (fun s call => (Solver.solve call.1 call.2 s).state) solver

theorem SameTask.having (h : s.SameTask t) (history : List (Level × Routine)) :
    (s.having history).SameTask t := by
  induction history generalizing s with
  | nil => exact h
  | cons call history ih => exact ih ((SameTask.solve call.1 call.2 s).trans h)

end Solver

namespace Pass

variable {solver fresh : Solver} {level : Level} {f : Routine}

theorem run_same (h : solver.SameTask fresh) (level : Level) (f : Routine) :
    (run level (solver, f)).Same (run level (fresh, f)) := by
  have hsolve : ((Solver.solve level f).zoom Prod.fst
      (fun (s : Solver × Routine) solver => (solver, s.2)) (solver, f)).Same
        ((Solver.solve level f).zoom Prod.fst
          (fun (s : Solver × Routine) solver => (solver, s.2)) (fresh, f)) :=
    (h.solve_same level f).mapState _
  rw [run_eq, run_eq]
  exact (hsolve.mapError _).bind _

/-- Of the state of a pass, solving touches the solver and erasing the routine. -/
theorem keeps_run (fresh : Solver) (level : Level) :
    Run.Keeps (fun s : Solver × Routine => s.1.SameTask fresh) (run level) := by
  rintro ⟨solver, f⟩ h
  rw [run_eq]
  refine Run.Keeps.bind (P := fun s : Solver × Routine => s.1.SameTask fresh) ?_ ?_ _ h
  · exact fun s hs => (Solver.SameTask.solve level f s.1).trans hs
  · exact fun ids => .bind (.forM fun id _ s hs => hs) fun _ s hs => hs

theorem run_error_state (hs : solver.Standard) (hf : f.graph.Coherent) {e : Error}
    (he : (run level (solver, f)).result = .error e) : (run level (solver, f)).state.2 = f := by
  cases hls : f.locations with
  | error x => rw [(run_of_error (Solver.solve_of_error hls level solver)).2]
  | ok ls =>
    obtain ⟨report, f', hrun⟩ := exists_run hs hf hls
    cases he.symm.trans (hrun level).result

/-- One round of the loop over routines, by what a fresh solver does to the first of them. -/
theorem runAll_cons_same (h : solver.SameTask fresh) (name : String) (routines : List Routine)
    {report : Report} (hreport : (run level (fresh, f)).result = .ok report) :
    ∃ solver', solver'.SameTask fresh ∧ (runAll level name solver (f :: routines)).Like
      ⟨(runAll level name solver' routines).result.map (report :: ·),
        (run level (fresh, f)).state.2 :: (runAll level name solver' routines).state, []⟩ := by
  have hsame := run_same h level f
  have hok := hsame.result.trans hreport
  have hyields := Run.yields_of_result hok
  rw [hsame.state hok] at hyields
  exact ⟨_, keeps_run fresh level (fresh, f) (.refl fresh),
    runAll_cons_of_ok name routines hyields⟩

/-- Where a fresh solver succeeds on every routine, so does the one that serves them all. -/
theorem runAll_of_ok (name : String) {routines : List Routine} {reports : List Report}
    (hreports : routines.map (fun f => (run level (fresh, f)).result) = reports.map .ok)
    (h : solver.SameTask fresh) : (runAll level name solver).Yields routines reports
      (routines.map fun f => (run level (fresh, f)).state.2) := by
  induction routines generalizing solver reports with
  | nil =>
    cases List.map_eq_nil_iff.1 hreports.symm
    exact ⟨[], rfl⟩
  | cons f routines ih =>
    obtain ⟨report, reports, rfl, hreport, hreports⟩ := List.map_eq_cons_iff.1 hreports.symm
    obtain ⟨solver', h', hlike⟩ := runAll_cons_same h name routines hreport.symm
    have hrest := ih hreports.symm h'
    rw [hrest.result, hrest.state] at hlike
    exact .of_like hlike

/-- The first routine on which a fresh solver fails ends the loop. -/
theorem runAll_of_error (name : String) {done : List Routine} (later : List Routine) {e : Error}
    (hdone : ∀ k ∈ done, ∃ report, (run level (fresh, k)).result = .ok report)
    (he : (run level (fresh, f)).result = .error e) (hs : fresh.Standard)
    (hf : f.graph.Coherent) (h : solver.SameTask fresh) :
    (runAll level name solver (done ++ f :: later)).Like
      ⟨.error e, done.map (fun k => (run level (fresh, k)).state.2) ++ f :: later, []⟩ := by
  induction done generalizing solver with
  | nil =>
    have herror := (run_same h level f).result.trans he
    have hlike := runAll_cons_of_error name later herror
    rw [run_error_state (hs.of_sameTask h) hf herror] at hlike
    exact hlike
  | cons k done ih =>
    obtain ⟨⟨report, hreport⟩, hdone⟩ := List.forall_mem_cons.1 hdone
    obtain ⟨solver', h', hlike⟩ := runAll_cons_same h name (done ++ f :: later) hreport
    have hrest := ih hdone h'
    rw [hrest.1, hrest.2] at hlike
    exact hlike

end Pass

/-- A solver that has been given any routines before shows, on the next one, what it would have
shown at first: the same result, the same log and, after success, the same values throughout. So
a pass over the routines of a program does to each of them, up to the first that fails, what a
fresh solver does to that routine alone, and leaves the one that fails and all later ones as they
were. -/
theorem shared_solver_works_as_fresh_ones :
    (∀ (solver : Solver) (history : List (Level × Routine)) (level : Level) (f : Routine),
      (Solver.solve level f (solver.having history)).Same (Solver.solve level f solver)) ∧
    ∀ (name : String) (fresh : Solver), Pass.named name = .ok fresh →
      ∀ (level : Level) (p : Program), (∀ f ∈ p.routines, f.graph.Built) →
        (∀ reports, p.routines.map (fun f => (Pass.run level (fresh, f)).result) =
            reports.map .ok →
          (Pass.optimize level name).Yields p reports
            ⟨p.routines.map fun f => (Pass.run level (fresh, f)).state.2⟩) ∧
        ∀ done f later e, p.routines = done ++ f :: later →
          (∀ k ∈ done, ∃ report, (Pass.run level (fresh, k)).result = .ok report) →
          (Pass.run level (fresh, f)).result = .error e →
          (Pass.optimize level name p).Like
            ⟨.error e, ⟨done.map (fun k => (Pass.run level (fresh, k)).state.2) ++ f :: later⟩,
              []⟩ := by
  refine ⟨fun solver history level f => ?_, fun name fresh hnamed level p built => ⟨?_, ?_⟩⟩
  · exact ((Solver.SameTask.refl solver).having history).solve_same level f
  · intro reports hreports
    have hall := Pass.runAll_of_ok name hreports (.refl fresh)
    exact (Run.yields_ofExcept hnamed p).bind hall.zoom
  · intro done f later e hp hdone he
    have hf := (built f (by rw [hp]; simp)).coherent
    have hall := Pass.runAll_of_error name later hdone he
      (Pass.serves_of_named hnamed).standard hf (.refl fresh)
    rw [← hp] at hall
    have hlike := (Run.yields_ofExcept hnamed p).bind_like fun solver =>
      (Pass.runAll level name solver).zoom Program.routines (fun _ routines => ⟨routines⟩)
    exact hlike.trans ⟨hall.1, congrArg Program.mk hall.2⟩

theorem shared_solver_stops_at_loop_without_entry : ∃ g h fresh first,
    FlowGraph.ofOutline FlowGraph.loopOutline = .ok g ∧
    FlowGraph.ofOutline { FlowGraph.loopOutline with entry := none } = .ok h ∧
    Pass.named "edge-null-checks" = .ok fresh ∧
    (Pass.run .debug (fresh, ⟨"first", [], g⟩)).result = .ok ⟨"first", [3]⟩ ∧
    (Pass.run .debug (fresh, ⟨"first", [], g⟩)).state.2 = first ∧
    (Pass.optimize .debug "edge-null-checks"
      ⟨[⟨"first", [], g⟩, ⟨"second", [], h⟩, ⟨"third", [], g⟩]⟩).Like
        ⟨.error (.failed "Failed to analyze second" (.graph .noEntry)),
          ⟨[first, ⟨"second", [], h⟩, ⟨"third", [], g⟩]⟩, []⟩ := by
  obtain ⟨g, hg, hfirst⟩ : ∃ g, FlowGraph.ofOutline FlowGraph.loopOutline = .ok g ∧
      (Pass.run .debug (.edgeRegister (.ofProblem (NullCheck.problem .moveAware)),
        ⟨"first", [], g⟩)).result = .ok ⟨"first", [3]⟩ := ⟨_, rfl, by decide +kernel⟩
  obtain ⟨h, hh, hsecond⟩ : ∃ h,
      FlowGraph.ofOutline { FlowGraph.loopOutline with entry := none } = .ok h ∧
      (Pass.run .debug (.edgeRegister (.ofProblem (NullCheck.problem .moveAware)),
        ⟨"second", [], h⟩)).result = .error (.failed "Failed to analyze second" (.graph .noEntry)) :=
    ⟨_, rfl, by decide +kernel⟩
  refine ⟨g, h, _, _, hg, hh, rfl, hfirst, rfl, ?_⟩
  refine (shared_solver_works_as_fresh_ones.2 "edge-null-checks" _ rfl .debug _ ?_).2
    [⟨"first", [], g⟩] ⟨"second", [], h⟩ [⟨"third", [], g⟩] _ rfl ?_ hsecond
  · simp [FlowGraph.built_ofOutline hg, FlowGraph.built_ofOutline hh]
  · simp [hfirst]

end Dataflow
