import Dataflow.Proofs.Sharing

/-! # The order of construction

Blocks and edges may be inserted in any order. The order of the edges shows in the order of the
blocks and in the order of the neighbors of a quad, so the solvers visit quads and meet values in
another order and may need another number of passes. But the neighbors are the same ones, so the
equations ask the same, and the solvers reach the one maximal fixed point.
-/
namespace Dataflow

/-- The same quad among the same neighbors, in whatever order they are listed. -/
structure Location.Alike (l k : Location) : Prop where
  quad : k.quad = l.quad
  predecessors (n : Neighbor) : n ∈ k.predecessors ↔ n ∈ l.predecessors
  successors (n : Neighbor) : n ∈ k.successors ↔ n ∈ l.successors

namespace Location.Alike

variable {l k : Location}

theorem symm (h : l.Alike k) : k.Alike l :=
  ⟨h.quad.symm, fun n => (h.predecessors n).symm, fun n => (h.successors n).symm⟩

theorem id_eq (h : l.Alike k) : k.id = l.id := congrArg Quad.id h.quad

theorem mem_incoming (h : l.Alike k) (d : Direction) (n : Neighbor) :
    n ∈ d.incoming k ↔ n ∈ d.incoming l := by
  cases d with
  | forward => exact h.predecessors n
  | backward => exact h.successors n

theorem mem_outgoing (h : l.Alike k) (d : Direction) (n : Neighbor) :
    n ∈ d.outgoing k ↔ n ∈ d.outgoing l := by
  cases d with
  | forward => exact h.successors n
  | backward => exact h.predecessors n

end Location.Alike

namespace FlowGraph

/-- The same entry, blocks and edges; what was inserted first may differ. -/
structure Rearranged (g h : FlowGraph) : Prop where
  entry : h.entry = g.entry
  blocks : h.blocks = g.blocks
  edges (e : Edge) : e ∈ h.edges ↔ e ∈ g.edges

namespace Rearranged

variable {g h : FlowGraph}

theorem symm (same : g.Rearranged h) : h.Rearranged g :=
  ⟨same.entry.symm, same.blocks.symm, fun e => (same.edges e).symm⟩

theorem quads_eq (same : g.Rearranged h) : h.quads = g.quads := by
  simp only [quads, blockList, same.blocks]

theorem quadsAt_eq (same : g.Rearranged h) : h.quadsAt = g.quadsAt := by
  funext i
  simp only [quadsAt, same.blocks]

theorem hop_eq (same : g.Rearranged h) : h.Hop = g.Hop := by
  funext x y
  simp only [Hop, same.edges, same.quadsAt_eq]

theorem within_eq (same : g.Rearranged h) : h.Within = g.Within := by
  funext x
  simp only [Within, same.quadsAt_eq]

theorem after_eq_nil_iff (same : g.Rearranged h) (i : BlockIndex) :
    h.after i = [] ↔ g.after i = [] := by
  simp only [List.eq_nil_iff_forall_not_mem, mem_after, same.edges]

/-- What a location tells of one graph it tells of the other. -/
theorem located (same : g.Rearranged h) {l : Location} {i : BlockIndex} {rest : List Quad}
    (hl : g.Located l i rest) : h.Located l i rest where
  within := by simpa only [same.within_eq] using hl.within
  quad_predecessors id := by
    simpa only [Behind, Glide, same.within_eq, same.hop_eq] using hl.quad_predecessors id
  entry_predecessors := by
    simpa only [start, Glide, same.entry, same.quadsAt_eq, same.hop_eq] using
      hl.entry_predecessors
  exit_predecessors := hl.exit_predecessors
  quad_successors id := by
    simpa only [Before, Glide, same.within_eq, same.hop_eq] using hl.quad_successors id
  exit_successors := by
    simpa only [Glide, same.hop_eq, same.after_eq_nil_iff] using hl.exit_successors
  entry_successors := hl.entry_successors

theorem exists_locations (same : g.Rearranged h) (hls : ∃ ls, g.locations = .ok ls) :
    ∃ ks, h.locations = .ok ks := by
  rw [exists_locations_iff] at hls ⊢
  rw [same.blocks, same.entry]
  exact hls

end Rearranged

/-- At one point of a graph there is one list of neighbors, up to its order. -/
theorem Located.alike {g : FlowGraph} {l k : Location} {i : BlockIndex} {rest : List Quad}
    (hl : g.Located l i rest) (hk : g.Located k i rest) (hquad : k.quad = l.quad) :
    l.Alike k where
  quad := hquad
  predecessors n := by
    cases n with
    | quad id => rw [hk.quad_predecessors, hl.quad_predecessors, hquad]
    | entry => rw [hk.entry_predecessors, hl.entry_predecessors, hquad]
    | exit => exact iff_of_false hk.exit_predecessors hl.exit_predecessors
  successors n := by
    cases n with
    | quad id => rw [hk.quad_successors, hl.quad_successors]
    | entry => exact iff_of_false hk.entry_successors hl.entry_successors
    | exit => rw [hk.exit_successors, hl.exit_successors]

theorem Rearranged.exists_alike {g h : FlowGraph} (same : g.Rearranged h) (hg : g.Coherent)
    (hh : h.Coherent) {ls ks : List Location} (hls : g.locations = .ok ls)
    (hks : h.locations = .ok ks) {l : Location} (hl : l ∈ ls) : ∃ k ∈ ks, l.Alike k := by
  obtain ⟨i, rest, hat⟩ := hg.exists_located hls hl
  have hat' := same.located hat
  obtain ⟨k, hk, hquad, hkat⟩ := hh.exists_location hks hat'.within
  exact ⟨k, hk, hat'.alike hkat hquad⟩

end FlowGraph

namespace Scheme

variable {α : Type} [Fact α] {E : Scheme α} {ks : List Location} {v w : Valuation α}

/-- The same equations at other locations. -/
def relocate (E : Scheme α) (ks : List Location) : Scheme α := { E with locations := ks }

/-- The lists have the same locations, up to the order of their neighbors. -/
structure Shuffled (ls ks : List Location) : Prop where
  forth {l : Location} : l ∈ ls → ∃ k ∈ ks, l.Alike k
  back {k : Location} : k ∈ ks → ∃ l ∈ ls, k.Alike l

namespace Shuffled

variable {ls : List Location} {P : Location → Prop}

theorem symm (h : Shuffled ls ks) : Shuffled ks ls := ⟨h.back, h.forth⟩

theorem forall_mem (h : Shuffled ls ks) (hP : ∀ l k, l.Alike k → P l → P k)
    (hall : ∀ l ∈ ls, P l) : ∀ k ∈ ks, P k := by
  intro k hk
  obtain ⟨l, hl, hlike⟩ := h.back hk
  exact hP l k hlike.symm (hall l hl)

theorem exists_mem (h : Shuffled ls ks) (hP : ∀ l k, l.Alike k → P l → P k)
    (hsome : ∃ l ∈ ls, P l) : ∃ k ∈ ks, P k := by
  obtain ⟨l, hl, hPl⟩ := hsome
  obtain ⟨k, hk, hlike⟩ := h.forth hl
  exact ⟨k, hk, hP l k hlike hPl⟩

end Shuffled

theorem met_alike (E : Scheme α) (v : Valuation α) {l k : Location} (h : l.Alike k) :
    E.met v k = E.met v l := by
  apply OrderedSet.ext
  intro a
  cases hc : E.confluence with
  | must => simp only [mem_met_must hc, h.mem_incoming]
  | may => simp only [mem_met_may hc, h.mem_incoming]

theorem Solves.relocate (hv : E.Solves v) (h : Shuffled E.locations ks) :
    (E.relocate ks).Solves v := by
  refine h.forall_mem (fun l k hlike hl => ?_) hv
  obtain ⟨hgiven, hsolved⟩ := hl
  rw [← hlike.id_eq] at hgiven hsolved
  rw [← hlike.quad] at hsolved
  exact ⟨hgiven.trans (E.met_alike v hlike).symm, hsolved⟩

theorem Inside.relocate (hv : E.Inside v) (h : Shuffled E.locations ks) :
    (E.relocate ks).Inside v := by
  refine fun side => h.forall_mem (fun l k hlike hl => ?_) (hv side)
  rw [hlike.id_eq]
  exact hl

theorem Greatest.relocate (hv : E.Greatest v) (h : Shuffled E.locations ks) :
    (E.relocate ks).Greatest v where
  solves := hv.solves.relocate h
  inside := hv.inside.relocate h
  above w hin hw := by
    have hbelow := hv.above w (hin.relocate h.symm) (hw.relocate h.symm)
    refine fun side => h.forall_mem (fun l k hlike hl => ?_) (hbelow side)
    rw [hlike.id_eq]
    exact hl

theorem farValue_relocate (E : Scheme α) (v : Valuation α) (h : Shuffled E.locations ks) :
    (E.relocate ks).farValue v = E.farValue v := by
  apply OrderedSet.ext
  intro a
  cases hc : E.confluence with
  | must =>
    have hP : ∀ l k : Location, l.Alike k →
        (E.direction.farEnd ∈ E.direction.outgoing l → a ∈ v E.direction.solved l.id) →
        E.direction.farEnd ∈ E.direction.outgoing k → a ∈ v E.direction.solved k.id := by
      intro l k hlike hl hfar
      rw [hlike.id_eq]
      exact hl ((hlike.mem_outgoing _ _).1 hfar)
    rw [mem_farValue_must hc, mem_farValue_must (E := E.relocate ks) hc]
    exact and_congr_right fun _ => ⟨h.symm.forall_mem hP, h.forall_mem hP⟩
  | may =>
    have hP : ∀ l k : Location, l.Alike k →
        E.direction.farEnd ∈ E.direction.outgoing l ∧ a ∈ v E.direction.solved l.id →
        E.direction.farEnd ∈ E.direction.outgoing k ∧ a ∈ v E.direction.solved k.id := by
      rintro l k hlike ⟨hfar, ha⟩
      rw [hlike.id_eq]
      exact ⟨(hlike.mem_outgoing _ _).2 hfar, ha⟩
    rw [mem_farValue_may hc, mem_farValue_may (E := E.relocate ks) hc]
    exact ⟨h.symm.exists_mem hP, h.exists_mem hP⟩

/-- The same values at the quads of both schemes and at their boundaries. -/
structure Agree (E F : Scheme α) (v w : Valuation α) : Prop where
  quads (side : Side) {l : Location} : l ∈ E.locations →
    ∃ k ∈ F.locations, l.Alike k ∧ F.pack (w side k.id) = E.pack (v side l.id)
  entry : F.pack (F.entryValue w) = E.pack (E.entryValue v)
  exit : F.pack (F.exitValue w) = E.pack (E.exitValue v)

/-- Maximal fixed points agree, since there is only one. -/
theorem Greatest.agree (hv : E.Greatest v) (hw : (E.relocate ks).Greatest w)
    (h : Shuffled E.locations ks) : E.Agree (E.relocate ks) v w := by
  have heq : ∀ side, ∀ k ∈ ks, w side k.id = v side k.id :=
    fun side k hk => hw.unique (hv.relocate h) side hk
  have hfar : (E.relocate ks).farValue w = E.farValue v :=
    (farValue_congr fun k hk => heq _ k hk).trans (E.farValue_relocate v h)
  refine ⟨fun side l hl => ?_, ?_, ?_⟩
  · obtain ⟨k, hk, hlike⟩ := h.forth hl
    refine ⟨k, hk, hlike, ?_⟩
    rw [heq side k hk, hlike.id_eq]
    rfl
  · show E.pack ((E.relocate ks).entryValue w) = _
    unfold entryValue
    rw [hfar]
    rfl
  · show E.pack ((E.relocate ks).exitValue w) = _
    unfold exitValue
    rw [hfar]
    rfl

end Scheme

section Values

variable {α : Type} [Fact α]

/-- The same values are to be read on both sides of the quads of a routine and at its boundaries.
-/
structure NodeAnalysis.SameValues (f : Routine) (a b : NodeAnalysis α) : Prop where
  quads (side : Side) {q : Quad} : q ∈ f.quads →
    ∃ s, a.get side q.id = .ok s ∧ b.get side q.id = .ok s
  entry : ∃ s, a.entry = .ok s ∧ b.entry = .ok s
  exit : ∃ s, a.exit = .ok s ∧ b.exit = .ok s

/-- Also along each edge to a successor. -/
structure EdgeAnalysis.SameValues (f : Routine) (a b : EdgeAnalysis α) : Prop where
  quads (side : Side) {q : Quad} : q ∈ f.quads →
    ∃ s, a.getAll side q.id = .ok s ∧ b.getAll side q.id = .ok s
  edges {q : Quad} : q ∈ f.quads → ∃ ns, f.graph.successors q.id = .ok ns ∧
    ∀ n ∈ ns, ∃ s, a.get .output q.id n = .ok s ∧ b.get .output q.id n = .ok s
  entry : ∃ s, a.entry = .ok s ∧ b.entry = .ok s
  exit : ∃ s, a.exit = .ok s ∧ b.exit = .ok s

variable {p : Problem α} {f f' : Routine} {found : Valuation α → List QuadId}
  {ls ks : List Location} {v w : Valuation α}

theorem NodeAnalysis.Settled.sameValues {a b : NodeAnalysis α} (ha : a.Settled p f ls v)
    (hb : b.Settled p f' ks w) (hls : f.locations = .ok ls)
    (h : (p.scheme f ls).Agree (p.scheme f' ks) v w) : a.SameValues f b where
  quads side q hq := by
    obtain ⟨l, hl, rfl⟩ := FlowGraph.exists_location_of_quad hls hq
    obtain ⟨k, hk, hlike, heq⟩ := h.quads side hl
    have hget := hb.holds.get side hk
    rw [heq, hlike.id_eq] at hget
    exact ⟨_, ha.holds.get side hl, hget⟩
  entry := ⟨_, ha.entry, h.entry ▸ hb.entry⟩
  exit := ⟨_, ha.exit, h.exit ▸ hb.exit⟩

theorem EdgeAnalysis.Settled.sameValues {a b : EdgeAnalysis α} (ha : a.Settled p f ls v)
    (hb : b.Settled p f' ks w) (hv : (p.scheme f ls).Inside v) (hw : (p.scheme f' ks).Inside w)
    (hdir : p.direction = .forward) (hf : f.graph.Coherent) (hls : f.locations = .ok ls)
    (h : (p.scheme f ls).Agree (p.scheme f' ks) v w) : a.SameValues f b where
  quads side q hq := by
    obtain ⟨l, hl, rfl⟩ := FlowGraph.exists_location_of_quad hls hq
    obtain ⟨k, hk, hlike, heq⟩ := h.quads side hl
    have hget := hb.holds.getAll hw side hk
    rw [heq, hlike.id_eq] at hget
    exact ⟨_, ha.holds.getAll hv side hl, hget⟩
  edges hq := by
    obtain ⟨l, hl, rfl⟩ := FlowGraph.exists_location_of_quad hls hq
    have hsolved : p.direction.solved = .output := by rw [hdir]; rfl
    have hslot : ∀ l : Location, ∀ n ∈ l.successors, n ∈ p.direction.slots l := by
      intro l n hn
      refine Direction.mem_slots ?_
      rw [hdir]
      exact hn
    obtain ⟨k, hk, hlike, heq⟩ := h.quads p.direction.solved hl
    refine ⟨l.successors, hf.successors_eq_ok hls hl, fun n hn => ?_⟩
    have hget := ha.holds.get hl (hslot l n hn)
    have hget' := hb.holds.get hk (hslot k n ((hlike.successors n).2 hn))
    rw [show (p.scheme f' ks).direction.solved = p.direction.solved from rfl, heq,
      hlike.id_eq] at hget'
    rw [← hsolved]
    exact ⟨_, hget, hget'⟩
  entry := ⟨_, ha.entry, h.entry ▸ hb.entry⟩
  exit := ⟨_, ha.exit, h.exit ▸ hb.exit⟩

theorem Scheme.Agree.found_eq (h : (p.scheme f ls).Agree (p.scheme f' ks) v w)
    (hp : p.Settles f found) (hls : f.locations = .ok ls) : found w = found v := by
  refine hp.congr fun side q hq => ?_
  obtain ⟨l, hl, rfl⟩ := FlowGraph.exists_location_of_quad hls hq
  obtain ⟨k, _, hlike, heq⟩ := h.quads side hl
  rw [hlike.id_eq] at heq
  exact congrArg FactSet.facts heq

section Solving

variable (hp : p.Settles f found) (hp' : p.Settles f' found) (hframe : p.frame f' = p.frame f)
  (same : f.graph.Rearranged f'.graph) (hf : f.graph.Coherent) (hf' : f'.graph.Coherent)
  (hls : f.locations = .ok ls) (hks : f'.locations = .ok ks)

include hframe same hf hf' hls hks

theorem Problem.agree (hv : (p.scheme f ls).Greatest v) (hw : (p.scheme f' ks).Greatest w) :
    (p.scheme f ls).Agree (p.scheme f' ks) v w := by
  have hscheme : p.scheme f' ks = (p.scheme f ls).relocate ks := by
    unfold Problem.scheme Scheme.relocate
    rw [hframe]
  rw [hscheme] at hw ⊢
  exact hv.agree hw ⟨same.exists_alike hf hf' hls hks, same.symm.exists_alike hf' hf hks hls⟩

include hp hp'

theorem NodeAnalysis.solve_rearranged {a : NodeAnalysis α} (ha : a.problem = p)
    (level level' : Level) :
    (solve level' f' a).result = (solve level f a).result ∧
      (solve level f a).state.SameValues f (solve level' f' a).state := by
  obtain ⟨v, hv, hsettled, hresult⟩ := solve_eq hp.regular hp.concludes hf hls ha level
  obtain ⟨w, hw, hsettled', hresult'⟩ := solve_eq hp'.regular hp'.concludes hf' hks ha level'
  have hagree := Problem.agree hframe same hf hf' hls hks hv hw
  rw [hresult, hresult', hagree.found_eq hp hls]
  exact ⟨rfl, hsettled.sameValues hsettled' hls hagree⟩

theorem EdgeAnalysis.solve_rearranged (hdir : p.direction = .forward) {a : EdgeAnalysis α}
    (ha : a.problem = p) (level level' : Level) :
    (solve level' f' a).result = (solve level f a).result ∧
      (solve level f a).state.SameValues f (solve level' f' a).state := by
  obtain ⟨v, hv, hsettled, hresult⟩ := solve_eq hp.regular hp.concludes hf hls ha level
  obtain ⟨w, hw, hsettled', hresult'⟩ := solve_eq hp'.regular hp'.concludes hf' hks ha level'
  have hagree := Problem.agree hframe same hf hf' hls hks hv hw
  rw [hresult, hresult', hagree.found_eq hp hls]
  exact ⟨rfl, hsettled.sameValues hsettled' hv.inside hw.inside hdir hf hls hagree⟩

end Solving

end Values

namespace Solver

/-- Solvers of one kind from which the same values are to be read for a routine. -/
inductive SameValues (f : Routine) : Solver → Solver → Prop
  | nodeRegister {a b : NodeAnalysis Register} :
      a.SameValues f b → SameValues f (nodeRegister a) (nodeRegister b)
  | nodeQuad {a b : NodeAnalysis QuadId} :
      a.SameValues f b → SameValues f (nodeQuad a) (nodeQuad b)
  | edgeRegister {a b : EdgeAnalysis Register} :
      a.SameValues f b → SameValues f (edgeRegister a) (edgeRegister b)
  | edgeQuad {a b : EdgeAnalysis QuadId} :
      a.SameValues f b → SameValues f (edgeQuad a) (edgeQuad b)

/-- Of a routine, the problems of the passes see its parameters and quads and how they are
connected. -/
theorem Standard.solve_rearranged {solver : Solver} (h : solver.Standard) {f f' : Routine}
    (same : f.graph.Rearranged f'.graph) (hparams : f'.parameters = f.parameters)
    (hf : f.graph.Coherent) (hf' : f'.graph.Coherent) {ls ks : List Location}
    (hls : f.locations = .ok ls) (hks : f'.locations = .ok ks) (level level' : Level) :
    (solve level' f' solver).result = (solve level f solver).result ∧
      SameValues f (solve level f solver).state (solve level' f' solver).state := by
  have hquads : f'.quads = f.quads := same.quads_eq
  have hmentioned : NullCheck.mentioned f' = NullCheck.mentioned f := by
    simp only [NullCheck.mentioned, hquads, hparams]
  have hfound : NullCheck.redundantChecks f' = NullCheck.redundantChecks f := by
    funext v
    simp only [NullCheck.redundantChecks, Routine.nullChecks, hquads]
  have hdefinitions : ReachingDefinition.Definitions.ofRoutine f' =
      ReachingDefinition.Definitions.ofRoutine f := by
    simp only [ReachingDefinition.Definitions.ofRoutine, hquads]
  have hused : LiveVariable.problem.frame f' = LiveVariable.problem.frame f := by
    simp only [LiveVariable.problem, hquads]
  cases h with
  | nullChecks mode hp =>
    obtain ⟨hresult, hvalues⟩ := NodeAnalysis.solve_rearranged
      (NullCheck.settles_guardedProblem mode f) (hfound ▸ NullCheck.settles_guardedProblem mode f')
      (congrArg (NullCheck.frameOn mode) hmentioned) same hf hf' hls hks hp level level'
    exact ⟨hresult, .nodeRegister hvalues⟩
  | edgeNullChecks mode hp =>
    obtain ⟨hresult, hvalues⟩ := EdgeAnalysis.solve_rearranged
      (NullCheck.settles_problem mode f) (hfound ▸ NullCheck.settles_problem mode f')
      (congrArg (NullCheck.frameOn mode) hmentioned) same hf hf' hls hks rfl hp level level'
    exact ⟨hresult, .edgeRegister hvalues⟩
  | liveVariables hp =>
    obtain ⟨hresult, hvalues⟩ := NodeAnalysis.solve_rearranged
      (LiveVariable.settles_problem f) (LiveVariable.settles_problem f')
      hused same hf hf' hls hks hp level level'
    exact ⟨hresult, .nodeRegister hvalues⟩
  | reachingDefinitions hp =>
    obtain ⟨hresult, hvalues⟩ := NodeAnalysis.solve_rearranged
      (ReachingDefinition.settles_problem f) (ReachingDefinition.settles_problem f')
      (congrArg ReachingDefinition.Definitions.frame hdefinitions) same hf hf' hls hks hp
      level level'
    exact ⟨hresult, .nodeQuad hvalues⟩
  | edgeReachingDefinitions hp =>
    obtain ⟨hresult, hvalues⟩ := EdgeAnalysis.solve_rearranged
      (ReachingDefinition.settles_problem f) (ReachingDefinition.settles_problem f')
      (congrArg ReachingDefinition.Definitions.frame hdefinitions) same hf hf' hls hks rfl hp
      level level'
    exact ⟨hresult, .edgeQuad hvalues⟩

end Solver

/-- Over two routines that have been built with the same parameters, entry, blocks and edges, in
whatever order these were inserted, a pass takes out the same quads and leaves the same values at
every quad and at the boundaries. If there are blocks and no entry it fails on both, with the same
cause. Neither what the solvers hold from earlier routines nor what is logged makes a difference.
-/
theorem passes_do_not_see_construction_order {name : String} {solver solver' : Solver}
    (serves : Pass.Serves name solver) (serves' : Pass.Serves name solver') {f f' : Routine}
    (built : f.graph.Built) (built' : f'.graph.Built) (same : f.graph.Rearranged f'.graph)
    (parameters : f'.parameters = f.parameters) (level level' : Level) :
    (∃ removed, (Pass.run level (solver, f)).result = .ok ⟨f.name, removed⟩ ∧
      (Pass.run level' (solver', f')).result = .ok ⟨f'.name, removed⟩ ∧
      Solver.SameValues f (Pass.run level (solver, f)).state.1
        (Pass.run level' (solver', f')).state.1) ∨
    (f.graph.blockList ≠ [] ∧ f.graph.entry = none) ∧
      ∃ e, (Pass.run level (solver, f)).result =
          .error (.failed ("Failed to analyze " ++ f.name) e) ∧
        (Pass.run level' (solver', f')).result =
          .error (.failed ("Failed to analyze " ++ f'.name) e) := by
  obtain ⟨fresh, hnamed, htask⟩ := serves
  obtain ⟨_, hnamed', htask'⟩ := serves'
  cases hnamed.symm.trans hnamed'
  have hs := (Pass.serves_of_named hnamed).standard
  have hf := built.coherent
  have hf' := built'.coherent
  -- neither history shows, so both passes may as well use the fresh solver
  have hrun := Pass.run_same htask level f
  have hrun' := Pass.run_same htask' level' f'
  cases hls : f.locations with
  | ok ls =>
    obtain ⟨ks, hks⟩ := same.exists_locations ⟨ls, hls⟩
    obtain ⟨hresult, hvalues⟩ :=
      hs.solve_rearranged same parameters hf hf' hls hks level level'
    obtain ⟨ids, k, hyields⟩ := Pass.exists_report hs hf hls
    obtain ⟨ids', k', hyields'⟩ := Pass.exists_report hs hf' hks
    rw [(hyields level).1, (hyields' level').1] at hresult
    cases hresult
    have hok := hrun.result.trans (hyields level).2.result
    have hok' := hrun'.result.trans (hyields' level').2.result
    refine .inl ⟨_, hok, hok', ?_⟩
    rw [hrun.state hok, hrun'.state hok', (hyields level).2.state, (hyields' level').2.state]
    exact hvalues
  | error e =>
    obtain ⟨rfl, _⟩ := FlowGraph.locations_eq_error hls
    have hks : f'.locations = .error (.graph .noEntry) := by
      cases hks : f'.locations with
      | ok ks =>
        obtain ⟨ls, hls'⟩ := same.symm.exists_locations ⟨ks, hks⟩
        cases hls'.symm.trans hls
      | error e => rw [(FlowGraph.locations_eq_error hks).1]
    refine .inr ⟨FlowGraph.exists_error_iff.1 ⟨_, hls⟩, .graph .noEntry, ?_, ?_⟩
    · exact hrun.result.trans (Pass.run_of_error (Solver.solve_of_error hls level fresh)).1
    · exact hrun'.result.trans (Pass.run_of_error (Solver.solve_of_error hks level' fresh)).1

/-- A fork within a loop: one way copies the checked register, the other has no quads. -/
def FlowGraph.forkOutline : Outline where
  entry := some 0
  blocks := [⟨0, [⟨1, .nullCheck ⟨"x"⟩⟩]⟩, ⟨1, [⟨2, .move ⟨"y"⟩ (.register ⟨"x"⟩)⟩]⟩, ⟨2, []⟩,
    ⟨3, [⟨3, .nullCheck ⟨"y"⟩⟩, ⟨4, .nullCheck ⟨"x"⟩⟩]⟩]
  edges := [⟨0, 1⟩, ⟨0, 2⟩, ⟨1, 3⟩, ⟨2, 3⟩, ⟨3, 0⟩]

theorem construction_order_unseen_on_fork : ∃ g h solver,
    FlowGraph.ofOutline FlowGraph.forkOutline = .ok g ∧
    FlowGraph.ofOutline { FlowGraph.forkOutline with
      blocks := FlowGraph.forkOutline.blocks.reverse
      edges := FlowGraph.forkOutline.edges.reverse } = .ok h ∧
    Pass.named "edge-null-checks" = .ok solver ∧ g.blockOrder ≠ h.blockOrder ∧
    ∃ removed, (Pass.run .off (solver, ⟨"one", [], g⟩)).result = .ok ⟨"one", removed⟩ ∧
      (Pass.run .trace (solver, ⟨"other", [], h⟩)).result = .ok ⟨"other", removed⟩ ∧
      Solver.SameValues ⟨"one", [], g⟩ (Pass.run .off (solver, ⟨"one", [], g⟩)).state.1
        (Pass.run .trace (solver, ⟨"other", [], h⟩)).state.1 := by
  -- the graphs are compared part by part, so that neither is unfolded against the other
  obtain ⟨g, h, hg, hh, horder, hblocks, hedges, hentry, hentry'⟩ : ∃ g h,
      FlowGraph.ofOutline FlowGraph.forkOutline = .ok g ∧
      FlowGraph.ofOutline { FlowGraph.forkOutline with
        blocks := FlowGraph.forkOutline.blocks.reverse
        edges := FlowGraph.forkOutline.edges.reverse } = .ok h ∧
      g.blockOrder ≠ h.blockOrder ∧ h.blocks = g.blocks ∧ h.edges = g.edges.reverse ∧
      g.entry = some 0 ∧ h.entry = some 0 :=
    ⟨_, _, rfl, rfl, by decide +kernel, by decide +kernel, rfl, rfl, rfl⟩
  have hserves : Pass.Serves "edge-null-checks" (.edgeRegister (.ofProblem
      (NullCheck.problem .moveAware))) := Pass.serves_of_named rfl
  have hsame : g.Rearranged h :=
    ⟨hentry'.trans hentry.symm, hblocks, fun e => by rw [hedges, List.mem_reverse]⟩
  have hone : (⟨"one", [], g⟩ : Routine).graph.Built := FlowGraph.built_ofOutline hg
  have hother : (⟨"other", [], h⟩ : Routine).graph.Built := FlowGraph.built_ofOutline hh
  rcases passes_do_not_see_construction_order hserves hserves hone hother hsame rfl .off .trace
    with hboth | ⟨⟨_, hnone⟩, _⟩
  · exact ⟨g, h, _, hg, hh, rfl, horder, hboth⟩
  · cases hentry.symm.trans hnone

end Dataflow
