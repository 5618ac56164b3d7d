import Dataflow.Proofs.Problems

/-! # Maximal fixed points

With one value per edge the equations read the value of the very edge to a quad. Their maximal
solution is that of the equations by quad, spread over the edges. For every problem that comes
with the library the solvers succeed and leave a maximal solution behind.
-/
namespace Dataflow

variable {α : Type} [Fact α]

/-- A value for the given side of every quad, and one for each of its edges. -/
structure EdgeValuation (α : Type) [Fact α] where
  given : QuadId → OrderedSet α
  solved : QuadId → Neighbor → OrderedSet α

/-- The solved value of a quad on all its edges. -/
def Valuation.spread (v : Valuation α) (d : Direction) : EdgeValuation α :=
  ⟨v d.given, fun id _ => v d.solved id⟩

namespace Scheme

/-- What flows into the quad `id`; a neighbor that is no quad is the boundary. -/
def edgeInflow (E : Scheme α) (w : EdgeValuation α) (id : QuadId) : Neighbor → OrderedSet α
  | .quad p => w.solved p (.quad id)
  | _ => E.boundary

def edgeMet (E : Scheme α) (w : EdgeValuation α) (l : Location) : OrderedSet α :=
  (E.direction.incoming l).foldl (fun s n => E.confluence.meet s (E.edgeInflow w l.id n))
    (E.confluence.top E.domain)

structure EdgeSolves (E : Scheme α) (w : EdgeValuation α) : Prop where
  given {l : Location} : l ∈ E.locations → w.given l.id = E.edgeMet w l
  solved {l : Location} : l ∈ E.locations → ∀ {n : Neighbor}, n ∈ E.direction.slots l →
    w.solved l.id n = E.transfer l.quad (w.given l.id)

structure EdgeInside (E : Scheme α) (w : EdgeValuation α) : Prop where
  given {l : Location} : l ∈ E.locations → w.given l.id ⊆ E.domain
  solved {l : Location} : l ∈ E.locations → ∀ {n : Neighbor}, n ∈ E.direction.slots l →
    w.solved l.id n ⊆ E.domain

structure EdgeBelow (E : Scheme α) (w u : EdgeValuation α) : Prop where
  given {l : Location} : l ∈ E.locations → E.confluence.Le (w.given l.id) (u.given l.id)
  solved {l : Location} : l ∈ E.locations → ∀ {n : Neighbor}, n ∈ E.direction.slots l →
    E.confluence.Le (w.solved l.id n) (u.solved l.id n)

structure EdgeGreatest (E : Scheme α) (w : EdgeValuation α) : Prop where
  solves : E.EdgeSolves w
  inside : E.EdgeInside w
  above (u : EdgeValuation α) : E.EdgeInside u → E.EdgeSolves u → E.EdgeBelow u w

/-- A solution by edge as one by quad: all edges of a quad carry the transfer of its given
value, so that is its solved value. -/
def gather (E : Scheme α) (w : EdgeValuation α) : Valuation α := fun side id =>
  if side = E.direction.given then w.given id
  else match E.locations.find? (fun l => l.id == id) with
    | some l => E.transfer l.quad (w.given id)
    | none => ∅

theorem gather_given (E : Scheme α) (w : EdgeValuation α) (id : QuadId) :
    E.gather w E.direction.given id = w.given id := by simp [gather]

theorem Regular.gather_solved {E : Scheme α} (hE : E.Regular) (w : EdgeValuation α)
    {l : Location} (hl : l ∈ E.locations) :
    E.gather w E.direction.solved l.id = E.transfer l.quad (w.given l.id) := by
  have hfind : E.locations.find? (fun k => k.id == l.id) = some l := by
    cases hfound : E.locations.find? (fun k => k.id == l.id) with
    | none =>
      have hnone := List.find?_eq_none.1 hfound l hl
      simp at hnone
    | some k =>
      have hk := List.mem_of_find?_eq_some hfound
      have hid : k.id = l.id := by simpa using List.find?_some hfound
      rw [List.inj_on_of_nodup_map hE.nodup hk hl hid]
  simp [gather, E.direction.given_ne_solved.symm, hfind]

theorem Regular.gather_solves {E : Scheme α} (hE : E.Regular) {w : EdgeValuation α}
    (hw : E.EdgeSolves w) : E.Solves (E.gather w) := by
  intro l hl
  refine ⟨?_, ?_⟩
  · rw [gather_given, hw.given hl]
    apply List.foldl_ext
    intro s n hn
    cases n with
    | quad id =>
      obtain ⟨k, hk, rfl, hout⟩ := hE.incoming hl hn
      have hsolved := hw.solved hk (Direction.mem_slots hout)
      show E.confluence.meet s (w.solved k.id (.quad l.id)) =
        E.confluence.meet s (E.gather w E.direction.solved k.id)
      rw [hsolved, hE.gather_solved w hk]
    | entry => rfl
    | exit => rfl
  · rw [hE.gather_solved w hl, gather_given]

theorem Regular.gather_inside {E : Scheme α} (hE : E.Regular) {w : EdgeValuation α}
    (hin : E.EdgeInside w) (hw : E.EdgeSolves w) : E.Inside (E.gather w) := by
  intro side l hl
  rcases E.direction.eq_given_or_eq_solved side with rfl | rfl
  · rw [gather_given]
    exact hin.given hl
  · obtain ⟨n, hn⟩ := List.exists_mem_of_ne_nil _ (E.direction.slots_ne_nil l)
    rw [hE.gather_solved w hl, ← hw.solved hl hn]
    exact hin.solved hl hn

/-- Spread over the edges, the maximal fixed point is maximal among the solutions by edge. -/
theorem Greatest.spread {E : Scheme α} (hE : E.Regular) {v : Valuation α} (hv : E.Greatest v) :
    E.EdgeGreatest (v.spread E.direction) where
  solves :=
    { given := fun {l} hl => by
        refine (hv.solves l hl).1.trans ?_
        apply List.foldl_ext
        intro s n _
        cases n <;> rfl
      solved := fun {l} hl _ _ => (hv.solves l hl).2 }
  inside :=
    { given := fun {l} hl => hv.inside _ l hl
      solved := fun {l} hl _ _ => hv.inside _ l hl }
  above u hin hu := by
    have hbelow := hv.above _ (hE.gather_inside hin hu) (hE.gather_solves hu)
    refine ⟨fun {l} hl => ?_, fun {l} hl n hn => ?_⟩
    · have hle := hbelow E.direction.given l hl
      rw [gather_given] at hle
      exact hle
    · have hle := hbelow E.direction.solved l hl
      rw [hE.gather_solved u hl, ← hu.solved hl hn] at hle
      exact hle

end Scheme

/-- Solving succeeds, and the values left on both sides of every quad and at both boundaries
are those of the maximal fixed point. -/
def NodeAnalysis.SolvesMaximally (level : Level) (f : Routine) (ls : List Location)
    (a : NodeAnalysis α) : Prop :=
  let E := a.problem.scheme f ls
  let b := (solve level f a).state
  (∃ ids, (solve level f a).result = .ok ids) ∧
    ∃ v, E.Greatest v ∧
      (∀ side, ∀ l ∈ ls, b.get side l.id = .ok (E.pack (v side l.id))) ∧
      b.entry = .ok (E.pack (E.entryValue v)) ∧ b.exit = .ok (E.pack (E.exitValue v))

/-- Likewise with a value for every edge on the solved side. -/
def EdgeAnalysis.SolvesMaximally (level : Level) (f : Routine) (ls : List Location)
    (a : EdgeAnalysis α) : Prop :=
  let E := a.problem.scheme f ls
  let b := (solve level f a).state
  (∃ ids, (solve level f a).result = .ok ids) ∧
    ∃ w, E.EdgeGreatest w ∧
      (∀ l ∈ ls, b.getAll E.direction.given l.id = .ok (E.pack (w.given l.id)) ∧
        ∀ n ∈ E.direction.slots l,
          b.get E.direction.solved l.id n = .ok (E.pack (w.solved l.id n))) ∧
      ∃ v, w = v.spread E.direction ∧ b.entry = .ok (E.pack (E.entryValue v)) ∧
        b.exit = .ok (E.pack (E.exitValue v))

section Solve

variable {f : Routine} {ls : List Location} {found : Valuation α → List QuadId}

theorem NodeAnalysis.solvesMaximally {a : NodeAnalysis α} (hp : a.problem.Regular f)
    (hc : a.problem.Concludes f found) (hf : f.graph.Coherent) (hls : f.locations = .ok ls)
    (level : Level) : a.SolvesMaximally level f ls := by
  obtain ⟨v, hv, hsettled, hresult⟩ := solve_eq hp hc hf hls rfl level
  exact ⟨⟨_, hresult⟩, v, hv, fun side l hl => hsettled.holds.get side hl, hsettled.entry,
    hsettled.exit⟩

theorem EdgeAnalysis.solvesMaximally {a : EdgeAnalysis α} (hp : a.problem.Regular f)
    (hc : a.problem.Concludes f found) (hf : f.graph.Coherent) (hls : f.locations = .ok ls)
    (level : Level) : a.SolvesMaximally level f ls := by
  obtain ⟨v, hv, hsettled, hresult⟩ := solve_eq hp hc hf hls rfl level
  refine ⟨⟨_, hresult⟩, v.spread _, hv.spread (hp.scheme hf hls), fun l hl => ⟨?_, fun n hn => ?_⟩,
    v, rfl, hsettled.entry, hsettled.exit⟩
  · exact hsettled.holds.getAll hv.inside _ hl
  · exact hsettled.holds.get hl hn

end Solve

/-- On every routine that has been built and has locations, whatever they have solved before,
both solvers reach the maximal fixed point of every problem that comes with the library, at
every quad. -/
theorem solvers_reach_maximal_fixed_points (level : Level) (f : Routine) (built : f.graph.Built)
    (ls : List Location) (hls : f.locations = .ok ls) :
    (∀ q ∈ f.quads, ∃ l ∈ ls, l.quad = q) ∧
      (∀ (mode : NullCheck.Mode) (a : NodeAnalysis Register),
          a.problem = NullCheck.guardedProblem mode → a.SolvesMaximally level f ls) ∧
      (∀ a : NodeAnalysis QuadId,
        a.problem = ReachingDefinition.problem → a.SolvesMaximally level f ls) ∧
      (∀ a : NodeAnalysis Register,
        a.problem = LiveVariable.problem → a.SolvesMaximally level f ls) ∧
      (∀ (mode : NullCheck.Mode) (a : EdgeAnalysis Register),
        a.problem = NullCheck.problem mode → a.SolvesMaximally level f ls) ∧
      ∀ a : EdgeAnalysis QuadId,
        a.problem = ReachingDefinition.problem → a.SolvesMaximally level f ls := by
  have hf := built.coherent
  refine ⟨fun q hq => FlowGraph.exists_location_of_quad hls hq, fun mode a ha => ?_,
    fun a ha => ?_, fun a ha => ?_, fun mode a ha => ?_, fun a ha => ?_⟩
  · exact NodeAnalysis.solvesMaximally (ha ▸ NullCheck.regular_guardedProblem mode f)
      (ha ▸ NullCheck.concludes_guardedProblem mode f) hf hls level
  · exact NodeAnalysis.solvesMaximally (ha ▸ ReachingDefinition.regular_problem f)
      (ha ▸ ReachingDefinition.concludes_problem f) hf hls level
  · exact NodeAnalysis.solvesMaximally (ha ▸ LiveVariable.regular_problem f)
      (ha ▸ LiveVariable.concludes_problem f) hf hls level
  · exact EdgeAnalysis.solvesMaximally (ha ▸ NullCheck.regular_problem mode f)
      (ha ▸ NullCheck.concludes_problem mode f) hf hls level
  · exact EdgeAnalysis.solvesMaximally (ha ▸ ReachingDefinition.regular_problem f)
      (ha ▸ ReachingDefinition.concludes_problem f) hf hls level

theorem maximal_fixed_points_on_loop : ∃ g ls, FlowGraph.ofOutline FlowGraph.loopOutline = .ok g ∧
    g.locations = .ok ls ∧
    (EdgeAnalysis.ofProblem (NullCheck.problem .moveAware)).SolvesMaximally .off
      ⟨"loop", [], g⟩ ls := by
  obtain ⟨g, hg, ls, hls⟩ : ∃ g, FlowGraph.ofOutline FlowGraph.loopOutline = .ok g ∧
    ∃ ls, g.locations = .ok ls := ⟨_, rfl, _, rfl⟩
  have hall := solvers_reach_maximal_fixed_points .off ⟨"loop", [], g⟩
    (FlowGraph.built_ofOutline hg) ls hls
  exact ⟨g, ls, hg, hls, hall.2.2.2.2.1 .moveAware _ rfl⟩

end Dataflow
