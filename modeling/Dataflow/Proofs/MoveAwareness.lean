import Dataflow.Proofs.Removal

/-! # Moves from proven registers

Two schemes that differ in their transfers only can be compared: where one transfer gives at least
what the other gives, so does its maximal fixed point. A null check analysis that follows moves
therefore knows all that one knows that does not, and its passes remove at least the same checks.
-/
namespace Dataflow

namespace Scheme

variable {α : Type} [Fact α] {E : Scheme α} {v w : Valuation α}

theorem Regular.le_of_rising (hE : E.Regular) (hv : E.Greatest v) (hw : E.Rising w)
    (hin : E.Inside w) : ∀ l ∈ E.locations,
      E.confluence.Le (w E.direction.solved l.id) (v E.direction.solved l.id) := by
  have hdescend : E.Greatest (E.descend (fun _ => true)
      (E.locations.length * E.domain.size + 1) E.topValuation) :=
    hE.greatest_descend (fun _ _ _ _ _ _ _ => rfl) (Nat.lt_succ_self _)
  intro l hl
  rw [hv.unique hdescend _ hl]
  exact hE.dominates_descend hw hin _ _ l hl

theorem Regular.below_of_transfer_le (hE : E.Regular) (hv : E.Greatest v)
    {lower : Quad → OrderedSet α → OrderedSet α}
    (hle : ∀ l ∈ E.locations, ∀ s, E.confluence.Le (lower l.quad s) (E.transfer l.quad s))
    (hw : Scheme.Greatest { E with transfer := lower } w) : E.Below w v := by
  have hsolves : ∀ l ∈ E.locations, w E.direction.given l.id = E.met w l ∧
      w E.direction.solved l.id = lower l.quad (w E.direction.given l.id) := hw.solves
  -- a solution for the lower transfers rises for the others
  have hrising : E.Rising w := by
    intro l hl
    obtain ⟨hgiven, hsolved⟩ := hsolves l hl
    rw [hsolved, hgiven]
    exact hle l hl _
  have hbelow := hE.le_of_rising hv hrising hw.inside
  intro side l hl
  rcases Direction.eq_given_or_eq_solved E.direction side with rfl | rfl
  · rw [(hsolves l hl).1, (hv.solves l hl).1]
    exact hE.met_mono hl hbelow
  · exact hbelow l hl

end Scheme

namespace NullCheck

theorem transfer_basic_subset (q : Quad) (s : OrderedSet Register) :
    transfer .basic q s ⊆ transfer .moveAware q s := by
  intro r hr
  rcases mem_transfer.1 hr with hkept | hchecked | ⟨hmove, _⟩
  · exact mem_transfer.2 (.inl hkept)
  · exact mem_transfer.2 (.inr (.inl hchecked))
  · cases (provesMove_eq_true.1 hmove).1

variable {f : Routine} {ls : List Location} {v w : Valuation Register}

theorem basic_subset_moveAware (hf : f.graph.Coherent) (hls : f.locations = .ok ls)
    (hw : ((problem .basic).scheme f ls).Greatest w)
    (hv : ((problem .moveAware).scheme f ls).Greatest v) {q : Quad} (hq : q ∈ f.quads)
    (side : Side) : w side q.id ⊆ v side q.id := by
  obtain ⟨l, hl, rfl⟩ := FlowGraph.exists_location_of_quad hls hq
  have hE := (regular_problem .moveAware f).scheme hf hls
  have hbelow : ((problem .moveAware).scheme f ls).Below w v :=
    hE.below_of_transfer_le hv (fun l _ s => transfer_basic_subset l.quad s) hw
  exact hbelow side l hl

end NullCheck

namespace Pass

theorem Serves.checks_moveAware {name : String} {solver : Solver} (h : Serves name solver)
    (hname : name ∈ ["move-null-checks", "edge-null-checks"]) : solver.Checks .moveAware := by
  simp only [List.mem_cons, List.not_mem_nil, or_false] at hname
  rcases hname with rfl | rfl
  · exact h.checks_of_named rfl rfl
  · exact h.checks_of_named rfl rfl

end Pass

/-- On a routine with locations, solving with moves ignored and solving with moves followed both
succeed, whatever the storage and the level of logging and whatever the solvers held before, and
on both sides of every quad the registers that the first proves are proven by the second too. The
passes that follow moves remove every check that the pass without moves removes. -/
theorem move_awareness_only_adds_proofs {f : Routine} (built : f.graph.Built)
    {ls : List Location} (hls : f.locations = .ok ls) :
    (∀ (plain aware : Solver) (level level' : Level), plain.Checks .basic →
      aware.Checks .moveAware →
      ∃ found found' plain' aware', (Solver.solve level f).Yields plain found plain' ∧
        (Solver.solve level' f).Yields aware found' aware' ∧
        ∀ q ∈ f.quads, ∀ side, ∃ s t, plain'.registers side q.id = .ok s ∧
          aware'.registers side q.id = .ok t ∧ s.facts ⊆ t.facts) ∧
    ∀ name ∈ ["move-null-checks", "edge-null-checks"],
      ∀ (plain aware : Solver) (level level' : Level), Pass.Serves "null-checks" plain →
      Pass.Serves name aware →
      ∃ report report' t t', (Pass.run level).Yields (plain, f) report t ∧
        (Pass.run level').Yields (aware, f) report' t' ∧
        ∀ id ∈ report.removed, id ∈ report'.removed := by
  have hf := built.coherent
  constructor
  · intro plain aware level level' hplain haware
    obtain ⟨w, hw, hresult, _, hread⟩ := hplain.solve_eq hf hls level
    obtain ⟨v, hv, hresult', _, hread'⟩ := haware.solve_eq hf hls level'
    refine ⟨_, _, _, _, Run.yields_of_result hresult, Run.yields_of_result hresult',
      fun q hq side => ⟨_, _, hread side q hq, hread' side q hq, ?_⟩⟩
    exact NullCheck.basic_subset_moveAware hf hls hw hv hq side
  · intro name hname plain aware level level' hplain haware
    obtain ⟨report, f₁, hrun⟩ := Pass.exists_run hplain.standard hf hls
    obtain ⟨report', f₂, hrun'⟩ := Pass.exists_run haware.standard hf hls
    obtain ⟨_, w, hls₁, hw, _, _, hremoved⟩ :=
      Pass.exists_values_of_run (hplain.checks_of_named rfl rfl) built (hrun level)
    obtain ⟨_, v, hls₂, hv, _, _, hremoved'⟩ :=
      Pass.exists_values_of_run (haware.checks_moveAware hname) built (hrun' level')
    cases hls.symm.trans hls₁
    cases hls.symm.trans hls₂
    refine ⟨report, report', _, _, hrun level, hrun' level', fun id hid => ?_⟩
    rw [hremoved, NullCheck.mem_redundantChecks_iff hls hw.solves] at hid
    rw [hremoved', NullCheck.mem_redundantChecks_iff hls hv.solves]
    obtain ⟨q, hq, rfl, r, hcheck, hr⟩ := hid
    exact ⟨q, hq, rfl, r, hcheck, NullCheck.basic_subset_moveAware hf hls hw hv hq .input r hr⟩

/-- A loop that checks a copy of a register and then the register itself, which has been checked
in front of the loop. -/
def recheckOutline : FlowGraph.Outline where
  entry := some 0
  blocks := [⟨0, [⟨1, .nullCheck ⟨"x"⟩⟩]⟩, ⟨1, []⟩,
    ⟨2, [⟨2, .move ⟨"y"⟩ (.register ⟨"x"⟩)⟩, ⟨3, .nullCheck ⟨"y"⟩⟩, ⟨4, .nullCheck ⟨"x"⟩⟩]⟩]
  edges := [⟨0, 1⟩, ⟨1, 2⟩, ⟨2, 1⟩]

/-- The second check of the register goes in either case, the check of the copy with moves only. -/
theorem recheck_removed_with_moves_too : ∃ g report report' t t',
    FlowGraph.ofOutline recheckOutline = .ok g ∧
    (Pass.run .off).Yields (.nodeRegister (.ofProblem (NullCheck.guardedProblem .basic)),
      ⟨"recheck", [], g⟩) report t ∧
    (Pass.run .off).Yields (.edgeRegister (.ofProblem (NullCheck.problem .moveAware)),
      ⟨"recheck", [], g⟩) report' t' ∧
    report.removed = [4] ∧ report'.removed = [3, 4] ∧
    ∀ id ∈ report.removed, id ∈ report'.removed := by
  obtain ⟨g, hg, hresult, hresult', hentry⟩ : ∃ g, FlowGraph.ofOutline recheckOutline = .ok g ∧
      (Pass.run .off (.nodeRegister (.ofProblem (NullCheck.guardedProblem .basic)),
        ⟨"recheck", [], g⟩)).result = .ok ⟨"recheck", [4]⟩ ∧
      (Pass.run .off (.edgeRegister (.ofProblem (NullCheck.problem .moveAware)),
        ⟨"recheck", [], g⟩)).result = .ok ⟨"recheck", [3, 4]⟩ ∧ g.entry = some 0 :=
    ⟨_, rfl, by decide +kernel, by decide +kernel, rfl⟩
  obtain ⟨ls, hls⟩ := FlowGraph.exists_locations_of_entry hentry
  have hadds := (move_awareness_only_adds_proofs (f := ⟨"recheck", [], g⟩)
    (FlowGraph.built_ofOutline hg) hls).2
  obtain ⟨report, report', t, t', hrun, hrun', hsub⟩ := hadds "edge-null-checks" (by decide) _ _
    .off .off (Pass.serves_of_named rfl) (Pass.serves_of_named rfl)
  cases hresult.symm.trans hrun.result
  cases hresult'.symm.trans hrun'.result
  exact ⟨g, _, _, t, t', hg, hrun, hrun', rfl, rfl, hsub⟩

end Dataflow
