import Dataflow.Proofs.Elimination
import Dataflow.Proofs.Serving

/-! # When a pass fails

A pass needs the order of the blocks, and there is none without an entry. That is all that can go
wrong: whatever else a solver or the erasing of quads looks up is there. A pass that fails has
changed nothing in the routine, and one that succeeds does the same whatever is logged.
-/
namespace Dataflow

namespace FlowGraph

variable {g : FlowGraph}

theorem Coherent.walk_known (hg : g.Coherent) (fuel : Nat)
    {stack discovered finished : List BlockIndex}
    (hstack : ∀ i ∈ stack, ∃ b, g.blocks.get? i = some b)
    (hfinished : ∀ i ∈ finished, ∃ b, g.blocks.get? i = some b) :
    ∀ i ∈ g.walk fuel stack discovered finished, ∃ b, g.blocks.get? i = some b := by
  induction fuel generalizing stack discovered finished with
  | zero => exact hfinished
  | succ fuel ih =>
    cases stack with
    | nil => exact hfinished
    | cons top stack =>
      have htop := hstack top List.mem_cons_self
      rw [walk]
      split
      · refine ih (fun i hi => hstack i (List.mem_cons_of_mem top hi)) ?_
        split
        · exact hfinished
        · exact List.forall_mem_cons.2 ⟨htop, hfinished⟩
      · refine ih (fun i hi => ?_) hfinished
        rcases List.mem_append.1 hi with hi | hi
        · have hafter := (List.mem_filter.1 (List.mem_reverse.1 hi)).1
          exact (hg.edges_known (mem_after.1 hafter)).2
        · exact hstack i hi

theorem Coherent.exists_block_of_order (hg : g.Coherent) {i : BlockIndex}
    (hi : i ∈ g.blockOrder) : ∃ b, g.block i = .ok b := by
  have hreached : ∀ i ∈ g.reached, ∃ b, g.blocks.get? i = some b := by
    unfold reached
    cases hentry : g.entry with
    | none => exact fun i hi => absurd hi List.not_mem_nil
    | some e =>
      refine hg.walk_known _ (fun i hi => ?_) (fun i hi => absurd hi List.not_mem_nil)
      cases List.mem_singleton.1 hi
      exact hg.entry_known hentry
  have hknown : ∃ b, g.blocks.get? i = some b := by
    rcases List.mem_append.1 hi with hi | hi
    · exact hreached i hi
    · exact OrderedMap.mem_keys_iff.1 (List.mem_filter.1 hi).1
  obtain ⟨b, hb⟩ := hknown
  exact ⟨b, by rw [block, hb]⟩

theorem exists_error_iff :
    (∃ x, g.locations = .error x) ↔ g.blockList ≠ [] ∧ g.entry = none := by
  have hempty : (∀ i, g.blocks.get? i = none) ↔ g.blockList = [] := by
    rw [← OrderedMap.isEmpty_iff, OrderedMap.isEmpty, List.isEmpty_iff, blockList,
      OrderedMap.values, List.map_eq_nil_iff]
  have hnot : (∃ x, g.locations = .error x) ↔ ¬ ∃ ls, g.locations = .ok ls := by
    cases g.locations <;> simp
  rw [hnot, exists_locations_iff, hempty, not_or, not_not]

theorem Coherent.exists_eraseQuad (hg : g.Coherent) {q : Quad} (hq : q ∈ g.quads) :
    ∃ h, (FlowGraph.eraseQuad q.id).Yields g q h := by
  rcases hg.eraseQuad_cases q.id with ⟨b, r, hb, hr, hid, heq⟩ | ⟨hnone, _⟩
  · obtain ⟨_, _, hat⟩ := mem_quads_iff_within.1 hq
    obtain ⟨_, _, hat'⟩ := mem_quads_iff_within.1 (mem_quads.2 ⟨b.index, b, hb, hr⟩)
    obtain ⟨_, rfl, _⟩ := hg.point_unique hat' hat hid
    exact ⟨_, [], heq⟩
  · obtain ⟨i, b, hb, hm⟩ := mem_quads.1 hq
    cases hnone.symm.trans (hg.homes_iff.2 ⟨b, hb, List.mem_map.2 ⟨q, hm, rfl⟩⟩)

end FlowGraph

namespace Pass

variable {f : Routine} {solver : Solver}

theorem exists_eraseQuad (hf : f.graph.Coherent) {q : Quad} (hq : q ∈ f.quads) :
    ∃ f', f'.graph.Coherent ∧ f.graph.Erased [q.id] f'.graph ∧
      ∀ level, (eraseQuad level q.id).Yields f () f' := by
  obtain ⟨graph, herase⟩ := hf.exists_eraseQuad hq
  have hcoherent := hf.eraseQuad q.id
  rw [herase.state] at hcoherent
  refine ⟨{ f with graph := graph }, hcoherent, (hf.eraseQuad_erased herase).1, fun level => ?_⟩
  exact (Run.yields_get f).bind (herase.zoom.bind (Run.yields_say _ _ _ _))

theorem exists_eraseQuads {ids : List QuadId} (hf : f.graph.Coherent) (hnodup : ids.Nodup)
    (hknown : ∀ id ∈ ids, ∃ q ∈ f.quads, q.id = id) :
    ∃ f', ∀ (level : Level) (solver : Solver),
      (ids.forM fun id => (eraseQuad level id).zoom Prod.snd
        (fun (s : Solver × Routine) f => (s.1, f))).Yields (solver, f) () (solver, f') := by
  induction ids generalizing f with
  | nil => exact ⟨f, fun _ solver => Run.yields_pure () (solver, f)⟩
  | cons id ids ih =>
    obtain ⟨hnew, hdistinct⟩ := List.nodup_cons.1 hnodup
    obtain ⟨⟨q, hq, rfl⟩, hothers⟩ := List.forall_mem_cons.1 hknown
    obtain ⟨k, hk, herased, hfirst⟩ := exists_eraseQuad hf hq
    -- the others have other identities, so they are still there
    have hleft : ∀ id ∈ ids, ∃ q ∈ k.quads, q.id = id := by
      intro id hid
      obtain ⟨r, hr, rfl⟩ := hothers id hid
      refine ⟨r, herased.mem_quads_iff.2 ⟨hr, fun hm => ?_⟩, rfl⟩
      exact hnew (List.mem_singleton.1 hm ▸ hid)
    obtain ⟨f', hrest⟩ := ih hk hdistinct hleft
    refine ⟨f', fun level solver => ?_⟩
    have hzoomed : ((eraseQuad level q.id).zoom Prod.snd
        (fun (s : Solver × Routine) f => (s.1, f))).Yields (solver, f) () (solver, k) :=
      (hfirst level).zoom
    exact hzoomed.bind (hrest level solver)

theorem run_of_error {level : Level} {e : Error}
    (h : (Solver.solve level f solver).result = .error e) :
    (run level (solver, f)).result = .error (.failed s!"Failed to analyze {f.name}" e) ∧
      (run level (solver, f)).state = ((Solver.solve level f solver).state, f) := by
  have hsolve : (((Solver.solve level f).zoom Prod.fst
      (fun (s : Solver × Routine) solver => (solver, s.2))).mapError
      (.failed s!"Failed to analyze {f.name}") (solver, f)).result =
        .error (.failed s!"Failed to analyze {f.name}" e) := by
    show (Solver.solve level f solver).result.mapError _ = _
    rw [h]
    rfl
  rw [run_eq, Run.bind_apply, hsolve]
  exact ⟨rfl, rfl⟩

/-- Where there are locations, the pass of a standard solver takes out what the solver finds. -/
theorem exists_report (hs : solver.Standard) (hf : f.graph.Coherent) {ls : List Location}
    (hls : f.locations = .ok ls) : ∃ ids f', ∀ level,
      (Solver.solve level f solver).result = .ok ids ∧
      (run level).Yields (solver, f) ⟨f.name, (OrderedSet.ofList ids).toList⟩
        ((Solver.solve level f solver).state, f') := by
  obtain ⟨ids, hknown, hresult⟩ := hs.exists_found hf hls
  obtain ⟨f', herase⟩ := exists_eraseQuads hf (OrderedSet.ofList ids).toList_nodup
    fun id hid => hknown id (OrderedSet.mem_ofList.1 (OrderedSet.mem_toList.1 hid))
  refine ⟨ids, f', fun level => ⟨hresult level, ?_⟩⟩
  have hsolve : (Solver.solve level f).Yields solver ids _ := Run.yields_of_result (hresult level)
  exact (Run.yields_get _).bind ((hsolve.zoom.mapError _).bind
    ((herase level _).bind (Run.yields_pure _ _)))

/-- It succeeds, and logging shows in the log only. -/
theorem exists_run (hs : solver.Standard) (hf : f.graph.Coherent) {ls : List Location}
    (hls : f.locations = .ok ls) : ∃ report f', ∀ level,
      (run level).Yields (solver, f) report ((Solver.solve level f solver).state, f') := by
  obtain ⟨ids, f', hrun⟩ := exists_report hs hf hls
  exact ⟨_, f', fun level => (hrun level).2⟩

end Pass

/-- Whatever its solver still holds and whatever is logged, a pass over a routine that has been
built fails exactly if there are blocks and no entry. The failure tells so and leaves the routine
as it was. In every other case the pass succeeds, and only the log depends on the level. -/
theorem passes_fail_only_without_entry {name : String} {solver : Solver}
    (serves : Pass.Serves name solver) {f : Routine} (built : f.graph.Built) :
    (∀ level, (∃ e, (Pass.run level (solver, f)).result = .error e) ↔
        f.graph.blockList ≠ [] ∧ f.graph.entry = none) ∧
      (∀ level e, (Pass.run level (solver, f)).result = .error e →
        e = .failed ("Failed to analyze " ++ f.name) (.graph .noEntry) ∧
        GraphFault.message .noEntry = "no entry block" ∧
        (Pass.run level (solver, f)).state.2 = f ∧
        Pass.Serves name (Pass.run level (solver, f)).state.1) ∧
      (∀ i ∈ f.graph.blockOrder, ∃ b, f.graph.block i = .ok b) ∧
      (¬ (f.graph.blockList ≠ [] ∧ f.graph.entry = none) →
        ∃ report f', ∀ level, ∃ solver', Pass.Serves name solver' ∧
          (Pass.run level).Yields (solver, f) report (solver', f')) := by
  have hf := built.coherent
  have hsuccess : ∀ ls, f.locations = .ok ls → ∃ report f', ∀ level, ∃ solver',
      Pass.Serves name solver' ∧ (Pass.run level).Yields (solver, f) report (solver', f') := by
    intro ls hls
    obtain ⟨report, f', hrun⟩ := Pass.exists_run serves.standard hf hls
    exact ⟨report, f', fun level => ⟨_, serves.solve level f, hrun level⟩⟩
  have hfailure : ∀ level e, (Pass.run level (solver, f)).result = .error e →
      ∃ x, f.locations = .error x := by
    intro level e he
    cases hls : f.locations with
    | error x => exact ⟨x, rfl⟩
    | ok ls =>
      obtain ⟨_, _, hruns⟩ := hsuccess ls hls
      obtain ⟨_, _, hrun⟩ := hruns level
      cases he.symm.trans hrun.result
  refine ⟨fun level => ?_, fun level e he => ?_, fun i => hf.exists_block_of_order, fun hnot => ?_⟩
  · rw [← FlowGraph.exists_error_iff]
    constructor
    · rintro ⟨e, he⟩
      exact hfailure level e he
    · rintro ⟨x, hls⟩
      exact ⟨_, (Pass.run_of_error (Solver.solve_of_error hls level solver)).1⟩
  · obtain ⟨x, hls⟩ := hfailure level e he
    obtain ⟨hresult, hstate⟩ := Pass.run_of_error (Solver.solve_of_error hls level solver)
    obtain ⟨rfl, _⟩ := FlowGraph.locations_eq_error hls
    cases he.symm.trans hresult
    rw [hstate]
    exact ⟨rfl, rfl, rfl, serves.solve level f⟩
  · cases hls : f.locations with
    | error x => exact absurd (FlowGraph.exists_error_iff.1 ⟨x, hls⟩) hnot
    | ok ls => exact hsuccess ls hls

theorem pass_fails_on_loop_without_entry : ∃ g h solver,
    FlowGraph.ofOutline FlowGraph.loopOutline = .ok g ∧
    FlowGraph.ofOutline { FlowGraph.loopOutline with entry := none } = .ok h ∧
    Pass.named "edge-null-checks" = .ok solver ∧
    (∃ report f', ∀ level, ∃ solver', Pass.Serves "edge-null-checks" solver' ∧
      (Pass.run level).Yields (solver, ⟨"loop", [], g⟩) report (solver', f')) ∧
    ∃ e, (Pass.run .trace (solver, ⟨"loop", [], h⟩)).result = .error e := by
  obtain ⟨g, hg, hentry⟩ : ∃ g, FlowGraph.ofOutline FlowGraph.loopOutline = .ok g ∧
      g.entry ≠ none := ⟨_, rfl, Option.some_ne_none _⟩
  obtain ⟨h, hh, hblocks, hnone⟩ : ∃ h,
      FlowGraph.ofOutline { FlowGraph.loopOutline with entry := none } = .ok h ∧
        h.blockList ≠ [] ∧ h.entry = none := ⟨_, rfl, List.cons_ne_nil _ _, rfl⟩
  have hserves : Pass.Serves "edge-null-checks" (.edgeRegister (.ofProblem
      (NullCheck.problem .moveAware))) := Pass.serves_of_named rfl
  have hsound := passes_fail_only_without_entry hserves (f := ⟨"loop", [], g⟩)
    (FlowGraph.built_ofOutline hg)
  have hbroken := passes_fail_only_without_entry hserves (f := ⟨"loop", [], h⟩)
    (FlowGraph.built_ofOutline hh)
  exact ⟨g, h, _, hg, hh, rfl, hsound.2.2.2 fun hfails => hentry hfails.2,
    (hbroken.1 .trace).2 ⟨hblocks, hnone⟩⟩

end Dataflow
