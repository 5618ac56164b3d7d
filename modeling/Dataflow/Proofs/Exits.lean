import Dataflow.Proofs.Execution

/-! # The exit of the null check problem

The value at the exit is put together from the values behind the quads that lead there. So it
speaks of every execution that runs a quad, whatever empty blocks come before the end. An execution
that meets no quad on its way has no part in it: where such a way exists, the exit may hold
registers that nothing has checked.
-/
namespace Dataflow

theorem execute_append {oracle : Nat → Bool} {m : Machine} {quads rest : List Quad}
    (h : (execute oracle m (quads ++ rest)).fault = none) :
    (execute oracle m quads).fault = none ∧
      (execute oracle (execute oracle m quads).final rest).fault = none ∧
      (execute oracle m (quads ++ rest)).final =
        (execute oracle (execute oracle m quads).final rest).final := by
  induction quads generalizing m with
  | nil => exact ⟨rfl, h, rfl⟩
  | cons q quads ih =>
    rw [List.cons_append, execute] at h
    rw [List.cons_append, execute, execute]
    cases hact : q.act oracle m with
    | none =>
      rw [hact] at h
      cases h
    | some m' =>
      rw [hact] at h
      exact ih h

namespace NullCheck

open FlowGraph (Point)

/-- Null registers are unproven and, if a quad has been run, already were so behind the last one.
-/
structure Trails (g : FlowGraph) (mode : Mode) (ran : Prop) (x : Point) (m : Machine) : Prop where
  sound : Sound g mode x m
  behind : ran → ∃ id y, g.Behind id y ∧ g.Glide y x ∧ Sound g mode y m

namespace Trails

variable {g : FlowGraph} {mode : Mode} {oracle : Nat → Bool} {ran : Prop} {m m' : Machine}
  {i j : BlockIndex} {q : Quad} {rest : List Quad} {x : Point}

theorem mono {late : Prop} (h : Trails g mode ran x m) (himp : late → ran) :
    Trails g mode late x m := ⟨h.sound, fun hlate => h.behind (himp hlate)⟩

theorem act (h : Trails g mode ran ⟨i, q :: rest⟩ m) (hq : g.Within ⟨i, q :: rest⟩)
    (hact : q.act oracle m = some m') : Trails g mode True ⟨i, rest⟩ m' := by
  have hsound := h.sound.act hq hact
  exact ⟨hsound, fun _ => ⟨q.id, ⟨i, rest⟩, ⟨q, rfl, hq⟩, .refl, hsound⟩⟩

theorem hop (h : Trails g mode ran ⟨i, []⟩ m) (hedge : ⟨i, j⟩ ∈ g.edges) :
    Trails g mode ran (g.start j) m := by
  refine ⟨fun r hr => .hop (h.sound r hr) hedge, fun hran => ?_⟩
  obtain ⟨id, y, hy, hglide, hsound⟩ := h.behind hran
  exact ⟨id, y, hy, hglide.tail (FlowGraph.hop_start hedge), hsound⟩

theorem block (h : Trails g mode ran ⟨i, rest⟩ m) (hrest : g.Within ⟨i, rest⟩)
    (hfault : (execute oracle m rest).fault = none) :
    Trails g mode (ran ∨ rest ≠ []) ⟨i, []⟩ (execute oracle m rest).final := by
  induction rest generalizing ran m with
  | nil => exact h.mono (by simp)
  | cons q rest ih =>
    rw [execute] at hfault ⊢
    cases hact : q.act oracle m with
    | none =>
      rw [hact] at hfault
      cases hfault
    | some m' =>
      rw [hact] at hfault
      exact (ih (h.act hrest hact) hrest.tail hfault).mono fun _ => .inl trivial

theorem walk {walk : List BlockIndex} (h : Trails g mode ran (g.start i) m)
    (hwalk : g.Follows i walk)
    (hfault : (execute oracle m (g.quadsAlong (i :: walk))).fault = none) :
    ∃ last, (i :: walk).getLast? = some last ∧
      Trails g mode (ran ∨ g.quadsAlong (i :: walk) ≠ []) ⟨last, []⟩
        (execute oracle m (g.quadsAlong (i :: walk))).final := by
  induction walk generalizing i m ran with
  | nil =>
    have hquads : g.quadsAlong [i] = g.quadsAt i := by simp [FlowGraph.quadsAlong]
    rw [hquads] at hfault ⊢
    exact ⟨i, rfl, h.block (g.within_start i) hfault⟩
  | cons j walk ih =>
    have hquads : g.quadsAlong (i :: j :: walk) = g.quadsAt i ++ g.quadsAlong (j :: walk) := rfl
    rw [hquads] at hfault ⊢
    obtain ⟨hfirst, hlater, hfinal⟩ := execute_append hfault
    have hblock := (h.block (g.within_start i) hfirst).hop hwalk.1
    obtain ⟨last, hlast, htrails⟩ := ih hblock hwalk.2 hlater
    rw [hfinal]
    refine ⟨last, hlast, htrails.mono ?_⟩
    simp only [ne_eq, List.append_eq_nil_iff, not_and_or, or_assoc, imp_self]

end Trails

section Value

variable {f : Routine} {ls : List Location} {mode : Mode} {v : Valuation Register} {r : Register}

theorem mem_exitValue : r ∈ ((problem mode).scheme f ls).farValue v ↔
    r ∈ mentioned f ∧ ∀ l ∈ ls, .exit ∈ l.successors → r ∈ v .output l.id :=
  Scheme.mem_farValue_must rfl

/-- A register that is unproven behind a quad from where the flow glides to an end is not known at
the exit. -/
theorem Unproven.not_mem_exitValue (hf : f.graph.Coherent) (hls : f.locations = .ok ls)
    (hv : ((problem mode).scheme f ls).Greatest v) {id : QuadId} {x : Point} {last : BlockIndex}
    (hx : f.graph.Behind id x) (hglide : f.graph.Glide x ⟨last, []⟩)
    (hlast : f.graph.after last = []) (h : Unproven f.graph mode x r) :
    r ∉ ((problem mode).scheme f ls).farValue v := by
  intro hr
  obtain ⟨q, _, hq⟩ := hx
  obtain ⟨l, hl, rfl, hat⟩ := hf.exists_location hls hq
  have hout := (mem_exitValue.1 hr).2 l hl (hat.exit_successors.2 ⟨last, hglide, hlast⟩)
  exact ((mem_output hf hls hv hl hat).1 hout).2 h

end Value

end NullCheck

/-- Solving the null check problem on either storage succeeds where there is an entry. The registers
known at the exit are those of the domain that are known behind every quad before the exit. None of
them is null at the end of an execution from the entry, with any machine and any oracle, that runs
at least one quad, does not fault and leaves the routine behind a block without successors. -/
theorem exit_registers_not_null_after_quads {mode : NullCheck.Mode} {solver : Solver}
    (checks : Solver.Checks mode solver) {f : Routine} (built : f.graph.Built) {e : BlockIndex}
    (entry : f.graph.entry = some e) (level : Level) :
    let o := Solver.solve level f solver
    ∃ ids exit, o.result = .ok ids ∧ Solver.exitRegisters o.state = .ok exit ∧
      (∀ r, r ∈ exit.facts ↔ r ∈ NullCheck.mentioned f ∧ ∀ q ∈ f.quads, ∃ ns known,
        f.graph.successors q.id = .ok ns ∧ Solver.registers .output q.id o.state = .ok known ∧
          (.exit ∈ ns → r ∈ known.facts)) ∧
      ∀ (oracle : Nat → Bool) (m : Machine) (walk : List BlockIndex), f.graph.Follows e walk →
        f.graph.quadsAlong (e :: walk) ≠ [] →
        f.graph.exits (e :: walk) (execute oracle m (f.graph.quadsAlong (e :: walk))) = true →
        ∀ r ∈ exit.facts,
          (execute oracle m (f.graph.quadsAlong (e :: walk))).final.null r = false := by
  have hf := built.coherent
  obtain ⟨ls, hls⟩ := FlowGraph.exists_locations_of_entry entry
  obtain ⟨v, hv, hresult, _, hread, hexit⟩ := checks.solve_exit_eq hf hls level
  refine ⟨_, _, hresult, hexit, fun r => ?_, fun oracle m walk hwalk hsome hends r hr => ?_⟩
  · refine NullCheck.mem_exitValue.trans (and_congr_right fun _ => ⟨fun h q hq => ?_, ?_⟩)
    · obtain ⟨l, hl, rfl⟩ := FlowGraph.exists_location_of_quad hls hq
      exact ⟨l.successors, _, hf.successors_eq_ok hls hl,
        hread .output l.quad hq, h l hl⟩
    · intro h l hl hlast
      have hq := FlowGraph.mem_quads_of_location hls hl
      obtain ⟨ns, known, hns, hknown, himp⟩ := h l.quad hq
      cases hns.symm.trans (hf.successors_eq_ok hls hl)
      cases hknown.symm.trans (hread .output l.quad hq)
      exact himp hlast
  · obtain ⟨hfault, hlast⟩ := Bool.and_eq_true_iff.1 hends
    have hstart : NullCheck.Trails f.graph mode False (f.graph.start e) m :=
      ⟨fun r _ => .entry entry, False.elim⟩
    obtain ⟨last, hwalked, htrails⟩ := hstart.walk hwalk (Option.isNone_iff_eq_none.1 hfault)
    rw [hwalked, Option.any_some, List.isEmpty_iff] at hlast
    obtain ⟨id, x, hx, hglide, hsound⟩ := htrails.behind (.inr hsome)
    refine Bool.eq_false_of_not_eq_true fun hnull => ?_
    exact (hsound r hnull).not_mem_exitValue hf hls hv hx hglide hlast hr

/-- A check that can be passed by: the entry leads to the end directly, too. -/
def FlowGraph.detourOutline : Outline where
  entry := some 0
  blocks := [⟨0, []⟩, ⟨1, [⟨1, .nullCheck ⟨"x"⟩⟩]⟩, ⟨2, []⟩]
  edges := [⟨0, 1⟩, ⟨1, 2⟩, ⟨0, 2⟩]

theorem exit_registers_not_null_on_detour : ∃ g,
    FlowGraph.ofOutline FlowGraph.detourOutline = .ok g ∧
    ∃ exit, Solver.exitRegisters (Solver.solve .off ⟨"detour", [], g⟩
        (.edgeRegister (.ofProblem (NullCheck.problem .moveAware)))).state = .ok exit ∧
      exit.facts.toList = [⟨"x"⟩] ∧
      ∀ r ∈ exit.facts, (execute (fun _ => true) ⟨fun r => r ≠ ⟨"x"⟩, 0⟩
        (g.quadsAlong [0, 1, 2])).final.null r = false := by
  obtain ⟨g, hg, hentry, hwalk, hsome, hexits, s, hs, hfacts⟩ : ∃ g,
      FlowGraph.ofOutline FlowGraph.detourOutline = .ok g ∧ g.entry = some 0 ∧
      g.Follows 0 [1, 2] ∧ g.quadsAlong [0, 1, 2] ≠ [] ∧
      g.exits [0, 1, 2] (execute (fun _ => true) ⟨fun r => r ≠ ⟨"x"⟩, 0⟩
        (g.quadsAlong [0, 1, 2])) = true ∧
      ∃ s, Solver.exitRegisters (Solver.solve .off ⟨"detour", [], g⟩
        (.edgeRegister (.ofProblem (NullCheck.problem .moveAware)))).state = .ok s ∧
        s.facts.toList = [⟨"x"⟩] :=
    ⟨_, rfl, rfl, ⟨by decide, by decide, trivial⟩, List.cons_ne_nil _ _, by decide +kernel, _, rfl,
      by decide +kernel⟩
  have hchecks : Solver.Checks .moveAware
      (.edgeRegister (.ofProblem (NullCheck.problem .moveAware))) := rfl
  have hbuilt : (⟨"detour", [], g⟩ : Routine).graph.Built := FlowGraph.built_ofOutline hg
  obtain ⟨_, exit, _, hexit, _, hall⟩ :=
    exit_registers_not_null_after_quads hchecks hbuilt hentry .off
  cases hs.symm.trans hexit
  exact ⟨g, hg, _, hs, hfacts, hall _ _ [1, 2] hwalk hsome hexits⟩

/-- On the way past the check no quad is run, and the checked register may be null at the end; yet
it stands at the exit, in either mode and on either storage. -/
theorem exit_register_null_past_detour : ∃ g,
    FlowGraph.ofOutline FlowGraph.detourOutline = .ok g ∧ g.entry = some 0 ∧ g.Follows 0 [2] ∧
    g.exits [0, 2] (execute (fun _ => true) ⟨fun _ => true, 0⟩ (g.quadsAlong [0, 2])) = true ∧
    ∀ mode, ∀ solver ∈ [Solver.nodeRegister (.ofProblem (NullCheck.guardedProblem mode)),
        Solver.edgeRegister (.ofProblem (NullCheck.problem mode))],
      ∃ ids exit, (Solver.solve .off ⟨"detour", [], g⟩ solver).result = .ok ids ∧
        Solver.exitRegisters (Solver.solve .off ⟨"detour", [], g⟩ solver).state = .ok exit ∧
        ∃ r ∈ exit.facts, (execute (fun _ => true) ⟨fun _ => true, 0⟩
          (g.quadsAlong [0, 2])).final.null r = true := by
  refine ⟨_, rfl, rfl, ⟨by decide, trivial⟩, by decide +kernel, fun mode solver hsolver => ?_⟩
  simp only [List.mem_cons, List.not_mem_nil, or_false] at hsolver
  rcases hsolver with rfl | rfl
  · cases mode with
    | basic => exact ⟨_, _, rfl, rfl, ⟨"x"⟩, List.mem_singleton_self _, rfl⟩
    | moveAware => exact ⟨_, _, rfl, rfl, ⟨"x"⟩, List.mem_singleton_self _, rfl⟩
  · cases mode with
    | basic => exact ⟨_, _, rfl, rfl, ⟨"x"⟩, List.mem_singleton_self _, rfl⟩
    | moveAware => exact ⟨_, _, rfl, rfl, ⟨"x"⟩, List.mem_singleton_self _, rfl⟩

end Dataflow
