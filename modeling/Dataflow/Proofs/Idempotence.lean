import Dataflow.Proofs.Elimination

/-! # Null check elimination, done twice

Taking out needless checks changes the graph: points move together and blocks may become
empty. Yet a register is unproven at a point exactly if it was unproven at any of the points
that became it, so the remaining checks are as needed as before and the facts at the remaining
quads are the same.
-/
namespace Dataflow

namespace Pass.Eliminated

open FlowGraph (Point)
open NullCheck (Unproven Needless)

variable {mode : NullCheck.Mode} {f f' : Routine} {ids : List QuadId} {i : BlockIndex} {q : Quad}
  {rest : List Quad} {r : Register}

def left (ids : List QuadId) (quads : List Quad) : List Quad :=
  quads.filter (fun q => !ids.contains q.id)

theorem left_cons_of_mem (h : q.id ∈ ids) : left ids (q :: rest) = left ids rest :=
  List.filter_cons_of_neg (by simpa using h)

theorem left_cons_of_not_mem (h : q.id ∉ ids) : left ids (q :: rest) = q :: left ids rest :=
  List.filter_cons_of_pos (by simpa using h)

theorem needless (h : Eliminated mode f ids f') (hf : f.graph.Coherent)
    (hq : f.graph.Within ⟨i, q :: rest⟩) (hid : q.id ∈ ids) :
    ∃ r, Needless f.graph mode i q rest r := by
  obtain ⟨j, p, tail, r, hp, hneedless⟩ := (h.mem_iff q.id).1 hid
  obtain ⟨rfl, rfl, rfl⟩ := hf.point_unique hneedless.within hq hp
  exact ⟨r, hneedless⟩

theorem quadsAt_left (h : Eliminated mode f ids f') (i : BlockIndex) :
    f'.graph.quadsAt i = left ids (f.graph.quadsAt i) := h.erased.quadsAt_eq i

theorem start_left (h : Eliminated mode f ids f') (i : BlockIndex) :
    f'.graph.start i = ⟨i, left ids (f.graph.quadsAt i)⟩ :=
  congrArg (Point.mk i) (h.quadsAt_left i)

theorem within_left (h : Eliminated mode f ids f') (hq : f.graph.Within ⟨i, rest⟩) :
    f'.graph.Within ⟨i, left ids rest⟩ := by
  show left ids rest <:+ f'.graph.quadsAt i
  rw [h.quadsAt_left]
  exact List.IsSuffix.filter _ hq

theorem unproven_left (h : Eliminated mode f ids f') (hf : f.graph.Coherent) {x : Point}
    (hx : Unproven f.graph mode x r) : Unproven f'.graph mode ⟨x.block, left ids x.rest⟩ r := by
  have hkept : ∀ {i q rest} (hq : f.graph.Within ⟨i, q :: rest⟩), q.defined ≠ [] → q.id ∉ ids := by
    intro i q rest hq hdef hid
    obtain ⟨s, hneedless⟩ := h.needless hf hq hid
    rw [Quad.defined, hneedless.check] at hdef
    exact hdef rfl
  induction hx with
  | @entry e r he =>
    show Unproven f'.graph mode ⟨e, left ids (f.graph.quadsAt e)⟩ r
    rw [← h.start_left]
    exact .entry (h.erased.entry.trans he)
  | @hop i j r _ hedge ih =>
    show Unproven f'.graph mode ⟨j, left ids (f.graph.quadsAt j)⟩ r
    rw [← h.start_left]
    exact .hop ih (h.erased.edges ▸ hedge)
  | @keep i q rest r hx hdef hcheck ih =>
    by_cases hid : q.id ∈ ids
    · exact left_cons_of_mem hid ▸ ih
    · exact .keep (left_cons_of_not_mem hid ▸ ih) hdef hcheck
  | @define i q rest r hq hdef hmode =>
    have hid := hkept hq (List.ne_nil_of_mem hdef)
    exact .define (left_cons_of_not_mem hid ▸ h.within_left hq) hdef hmode
  | @copy i q rest r s hx hop ih =>
    have hdef : q.defined ≠ [] := by
      rw [Quad.defined, hop]
      exact List.cons_ne_nil _ _
    exact .copy (left_cons_of_not_mem (hkept hx.within hdef) ▸ ih) hop

/-- A path runs on over checks that are taken out: a needless check does not prove anything
that is unproven in front of it. -/
theorem unproven_of_suffix (h : Eliminated mode f ids f') (hf : f.graph.Coherent)
    {quads : List Quad} (hx : Unproven f.graph mode ⟨i, quads⟩ r) (hs : rest <:+ quads)
    (hleft : left ids rest = left ids quads) : Unproven f.graph mode ⟨i, rest⟩ r := by
  obtain ⟨pre, rfl⟩ := hs
  have hpre : left ids pre = [] := by
    unfold left at hleft ⊢
    rw [List.filter_append] at hleft
    exact List.self_eq_append_left.1 hleft
  clear hleft
  induction pre with
  | nil => exact hx
  | cons q pre ih =>
    have hid : q.id ∈ ids := by
      by_contra hid
      rw [left_cons_of_not_mem hid] at hpre
      cases hpre
    rw [left_cons_of_mem hid] at hpre
    obtain ⟨s, hneedless⟩ := h.needless hf hx.within hid
    refine ih ?_ hpre
    refine .keep hx ?_ ?_
    · rw [Quad.defined, hneedless.check]
      exact List.not_mem_nil
    · rw [hneedless.check]
      intro heq
      cases heq
      exact hneedless.proven hx

/-- A quad that is left stood in the graph before, in front of all points that became the
point behind it. -/
theorem exists_before (h : Eliminated mode f ids f') {quads : List Quad}
    (hq : f'.graph.Within ⟨i, q :: quads⟩) : q.id ∉ ids ∧ ∃ tail,
      f.graph.Within ⟨i, q :: tail⟩ ∧ left ids tail = quads ∧
      ∀ rest, f.graph.Within ⟨i, rest⟩ → left ids rest = quads → rest <:+ tail := by
  have hsuffix : q :: quads <:+ left ids (f.graph.quadsAt i) := h.quadsAt_left i ▸ hq
  have hfind : ∀ n : List Quad, q :: quads <:+ left ids n →
      q.id ∉ ids ∧ ∃ tail, q :: tail <:+ n ∧ left ids tail = quads := by
    intro n
    induction n with
    | nil =>
      intro hs
      exact absurd (List.suffix_nil.1 hs) (List.cons_ne_nil _ _)
    | cons p n ih =>
      intro hs
      by_cases hid : p.id ∈ ids
      · rw [left_cons_of_mem hid] at hs
        obtain ⟨hq, tail, htail, hleft⟩ := ih hs
        exact ⟨hq, tail, htail.trans (List.suffix_cons p n), hleft⟩
      · rw [left_cons_of_not_mem hid] at hs
        rcases List.suffix_cons_iff.1 hs with heq | hs
        · obtain ⟨rfl, rfl⟩ := List.cons.inj heq
          exact ⟨hid, n, List.suffix_refl _, rfl⟩
        · obtain ⟨hq, tail, htail, hleft⟩ := ih hs
          exact ⟨hq, tail, htail.trans (List.suffix_cons p n), hleft⟩
  obtain ⟨hid, tail, htail, hleft⟩ := hfind _ hsuffix
  refine ⟨hid, tail, htail, hleft, fun rest hrest heq => ?_⟩
  rcases List.suffix_or_suffix_of_suffix hrest htail with hs | hs
  · rcases List.suffix_cons_iff.1 hs with rfl | hs
    · rw [left_cons_of_not_mem hid, hleft] at heq
      exact absurd (congrArg List.length heq) (by simp)
    · exact hs
  · have hlength := (List.IsSuffix.filter (fun q => !ids.contains q.id) hs).length_le
    have hcons : left ids (q :: tail) = q :: quads := by rw [left_cons_of_not_mem hid, hleft]
    unfold left at hcons heq
    rw [hcons, heq] at hlength
    exact absurd hlength (by simp)

/-- What is unproven was so, at every point that became this one. -/
theorem unproven_of_left (h : Eliminated mode f ids f') (hf : f.graph.Coherent) {y : Point}
    (hy : Unproven f'.graph mode y r) (hrest : f.graph.Within ⟨y.block, rest⟩)
    (hleft : left ids rest = y.rest) : Unproven f.graph mode ⟨y.block, rest⟩ r := by
  induction hy generalizing rest with
  | @entry e r he =>
    have hentry : f.graph.entry = some e := h.erased.entry ▸ he
    exact h.unproven_of_suffix hf (.entry hentry) hrest (hleft.trans (h.quadsAt_left e))
  | @hop i j r _ hedge ih =>
    have hend : Unproven f.graph mode ⟨i, []⟩ r := ih (List.nil_suffix) rfl
    have hstart : Unproven f.graph mode (f.graph.start j) r := .hop hend (h.erased.edges ▸ hedge)
    exact h.unproven_of_suffix hf hstart hrest (hleft.trans (h.quadsAt_left j))
  | @keep i q quads r hy hdef hcheck ih =>
    obtain ⟨hid, tail, htail, heq, hall⟩ := h.exists_before hy.within
    have hbefore := ih htail (by rw [left_cons_of_not_mem hid, heq])
    exact h.unproven_of_suffix hf (.keep hbefore hdef hcheck) (hall rest hrest hleft)
      (hleft.trans heq.symm)
  | @define i q quads r hq hdef hmode =>
    obtain ⟨hid, tail, htail, heq, hall⟩ := h.exists_before hq
    exact h.unproven_of_suffix hf (.define htail hdef hmode) (hall rest hrest hleft)
      (hleft.trans heq.symm)
  | @copy i q quads r s hy hop ih =>
    obtain ⟨hid, tail, htail, heq, hall⟩ := h.exists_before hy.within
    have hbefore := ih htail (by rw [left_cons_of_not_mem hid, heq])
    exact h.unproven_of_suffix hf (.copy hbefore hop) (hall rest hrest hleft)
      (hleft.trans heq.symm)

theorem unproven_iff (h : Eliminated mode f ids f') (hf : f.graph.Coherent)
    (hrest : f.graph.Within ⟨i, rest⟩) :
    Unproven f'.graph mode ⟨i, left ids rest⟩ r ↔ Unproven f.graph mode ⟨i, rest⟩ r :=
  ⟨fun hy => h.unproven_of_left hf hy hrest rfl, fun hx => h.unproven_left hf hx⟩

theorem not_needless (h : Eliminated mode f ids f') (hf : f.graph.Coherent) :
    ¬ Needless f'.graph mode i q rest r := by
  intro hn
  obtain ⟨hid, tail, htail, heq, _⟩ := h.exists_before hn.within
  have hleft : left ids (q :: tail) = q :: rest := by rw [left_cons_of_not_mem hid, heq]
  refine hid ((h.mem_iff q.id).2 ⟨i, q, tail, r, rfl, htail, hn.check, fun hx => hn.proven ?_⟩)
  rw [← hleft]
  exact (h.unproven_iff hf htail).2 hx

theorem mentioned_subset (h : Eliminated mode f ids f') :
    NullCheck.mentioned f' ⊆ NullCheck.mentioned f := by
  intro r hr
  unfold NullCheck.mentioned at hr ⊢
  rw [OrderedSet.mem_ofList, List.mem_append, List.mem_flatMap] at hr ⊢
  rcases hr with hr | ⟨q, hq, hr⟩
  · exact .inl (h.parameters ▸ hr)
  · exact .inr ⟨q, (h.erased.mem_quads_iff.1 hq).1, hr⟩

/-- At a quad that is left both maximal fixed points hold the same of what is still
mentioned. -/
theorem mem_iff_of_mentioned (h : Eliminated mode f ids f') (hf : f.graph.Coherent)
    {ls ls' : List Location} (hls : f.locations = .ok ls) (hls' : f'.locations = .ok ls')
    {v v' : Valuation Register} (hv : ((NullCheck.problem mode).scheme f ls).Greatest v)
    (hv' : ((NullCheck.problem mode).scheme f' ls').Greatest v') (hq : q ∈ f'.quads) (side : Side) :
    r ∈ v' side q.id ↔ r ∈ v side q.id ∧ r ∈ NullCheck.mentioned f' := by
  obtain ⟨hmem, hid⟩ := h.erased.mem_quads_iff.1 hq
  obtain ⟨i, rest, hw⟩ := FlowGraph.mem_quads_iff_within.1 hmem
  obtain ⟨l, hl, rfl, hat⟩ := hf.exists_location hls hw
  have hcons : left ids (l.quad :: rest) = l.quad :: left ids rest := left_cons_of_not_mem hid
  have hw' : f'.graph.Within ⟨i, l.quad :: left ids rest⟩ := hcons ▸ h.within_left hw
  obtain ⟨l', hl', hquad, hat'⟩ := h.built.coherent.exists_location hls' hw'
  have hlid : l.quad.id = l'.id := congrArg Quad.id hquad.symm
  have hboth : ∃ unproven : Prop,
      (r ∈ v side l.id ↔ r ∈ NullCheck.mentioned f ∧ ¬ unproven) ∧
      (r ∈ v' side l'.id ↔ r ∈ NullCheck.mentioned f' ∧ ¬ unproven) := by
    cases side with
    | input =>
      have hbefore : Unproven f'.graph mode ⟨i, l'.quad :: left ids rest⟩ r ↔
          Unproven f.graph mode ⟨i, l.quad :: rest⟩ r := by
        rw [hquad, ← hcons]
        exact h.unproven_iff hf hw
      refine ⟨_, NullCheck.mem_input hf hls hv hl hat, ?_⟩
      rw [NullCheck.mem_input h.built.coherent hls' hv' hl' hat', hbefore]
    | output =>
      refine ⟨_, NullCheck.mem_output hf hls hv hl hat, ?_⟩
      rw [NullCheck.mem_output h.built.coherent hls' hv' hl' hat', h.unproven_iff hf hw.tail]
  obtain ⟨unproven, hfirst, hsecond⟩ := hboth
  have hsub := h.mentioned_subset r
  rw [hlid, hsecond, ← hlid, show l.quad.id = l.id from rfl, hfirst]
  tauto

end Pass.Eliminated

namespace Pass

variable {level level' : Level} {mode : NullCheck.Mode} {solver : Solver} {f f' : Routine}
  {ids : List QuadId}

/-- A second pass over a routine finds nothing and changes nothing. -/
theorem Eliminated.exists_run (h : Eliminated mode f ids f') (hf : f.graph.Coherent)
    (hs : solver.Checks mode) (level : Level) :
    ∃ solver', (run level).Yields (solver, f') ⟨f'.name, []⟩ (solver', f') ∧
      solver'.Checks mode := by
  obtain ⟨ls, hls⟩ := h.erased.exists_locations h.locations
  obtain ⟨v, hv, hresult, hchecks, _⟩ := hs.solve_eq h.built.coherent hls level
  have hnone : NullCheck.redundantChecks f' v = [] := by
    apply List.eq_nil_iff_forall_not_mem.2
    intro id hid
    obtain ⟨i, q, rest, r, _, hn⟩ :=
      (NullCheck.mem_redundantChecks h.built.coherent hls hv).1 hid
    exact h.not_needless hf hn
  rw [hnone] at hresult
  have hsolve : (Solver.solve level f').Yields solver [] _ := Run.yields_of_result hresult
  refine ⟨_, (Run.yields_get (solver, f')).bind ((hsolve.zoom.mapError _).bind ?_), hchecks⟩
  exact Run.Yields.bind (Run.yields_pure () _) (Run.yields_pure _ _)

/-- A pass over routines takes the first of them and goes on with the solver it leaves. -/
theorem runAll_cons_of_ok (name : String) (routines : List Routine) {report : Report}
    {solver' : Solver} (h : (run level).Yields (solver, f) report (solver', f')) :
    (runAll level name solver (f :: routines)).Like
      ⟨(runAll level name solver' routines).result.map (report :: ·),
        f' :: (runAll level name solver' routines).state, []⟩ := by
  have hlike := (Run.yields_say level .debug (fun _ => s!"running {name} over {f.name}")
    (solver, f)).bind_like fun _ => run level
  rw [runAll]
  simp only [hlike.1, hlike.2, h.result, h.state]
  exact ⟨rfl, rfl⟩

theorem runAll_cons_of_error (name : String) (routines : List Routine) {e : Error}
    (h : (run level (solver, f)).result = .error e) :
    (runAll level name solver (f :: routines)).Like
      ⟨.error e, (run level (solver, f)).state.2 :: routines, []⟩ := by
  have hlike := (Run.yields_say level .debug (fun _ => s!"running {name} over {f.name}")
    (solver, f)).bind_like fun _ => run level
  rw [runAll]
  simp only [hlike.1, hlike.2, h]
  exact ⟨rfl, rfl⟩

/-- What a null check pass over routines does to each of them. -/
theorem of_runAll {name : String} {routines routines' : List Routine} {reports : List Report}
    (hs : solver.Checks mode) (built : ∀ f ∈ routines, f.graph.Built)
    (h : (runAll level name solver).Yields routines reports routines') :
    List.Forall₂ (fun f f' => f.graph.Built ∧ ∃ ids, Eliminated mode f ids f')
      routines routines' := by
  induction routines generalizing solver reports routines' with
  | nil =>
    have hstate : ([] : List Routine) = routines' := h.state
    rw [← hstate]
    exact .nil
  | cons f routines ih =>
    have hf := built f List.mem_cons_self
    cases hrun : (run level (solver, f)).result with
    | error e =>
      have herror := h.result.symm.trans (runAll_cons_of_error name routines hrun).1
      cases herror
    | ok report =>
      have hyields := Run.yields_of_result hrun
      obtain ⟨_, heliminated, hchecks⟩ := eliminated_of_run hs hf hyields
      have hlike := runAll_cons_of_ok name routines hyields
      have hresult := hlike.1.symm.trans h.result
      have hstate := hlike.2.symm.trans h.state
      cases hrest : (runAll level name _ routines).result with
      | error e =>
        rw [hrest] at hresult
        cases hresult
      | ok rest =>
        rw [← hstate]
        exact .cons ⟨hf, _, heliminated⟩ (ih hchecks
          (fun k hk => built k (List.mem_cons_of_mem f hk)) (Run.yields_of_result hrest))

theorem exists_runAll (name : String) {routines routines' : List Routine}
    (hs : solver.Checks mode)
    (h : List.Forall₂ (fun f f' => f.graph.Built ∧ ∃ ids, Eliminated mode f ids f')
      routines routines') (level : Level) :
    (runAll level name solver).Yields routines' (routines'.map fun f => ⟨f.name, []⟩)
      routines' := by
  induction h generalizing solver with
  | nil => exact ⟨[], rfl⟩
  | @cons f f' routines routines' hf hrest ih =>
    obtain ⟨built, ids, heliminated⟩ := hf
    obtain ⟨solver', hrun, hchecks⟩ := heliminated.exists_run built.coherent hs level
    have hlike := runAll_cons_of_ok name routines' hrun
    have htail := ih hchecks
    rw [htail.result, htail.state] at hlike
    exact .of_like hlike

/-- After both have been solved, the second routine has on each side of its quads the facts of
the first about the registers that it mentions. -/
def KeepsFacts (level level' : Level) (solver solver' : Solver) (f f' : Routine) : Prop :=
  ∀ side, ∀ q ∈ f'.quads, ∃ x y,
    Solver.registers side q.id (Solver.solve level f solver).state = .ok x ∧
    Solver.registers side q.id (Solver.solve level' f' solver').state = .ok y ∧
    ∀ r, r ∈ y.facts ↔ r ∈ x.facts ∧ r ∈ NullCheck.mentioned f'

theorem Eliminated.keepsFacts (h : Eliminated mode f ids f') (hf : f.graph.Coherent)
    {solver solver' : Solver} (hs : solver.Checks mode) (hs' : solver'.Checks mode)
    (level level' : Level) : KeepsFacts level level' solver solver' f f' := by
  obtain ⟨ls, hls⟩ := h.locations
  obtain ⟨ls', hls'⟩ := h.erased.exists_locations h.locations
  obtain ⟨v, hv, _, _, hread⟩ := hs.solve_eq hf hls level
  obtain ⟨v', hv', _, _, hread'⟩ := hs'.solve_eq h.built.coherent hls' level'
  intro side q hq
  have hmem : q ∈ f.quads := (h.erased.mem_quads_iff.1 hq).1
  exact ⟨_, _, hread side q hmem, hread' side q hq,
    fun r => h.mem_iff_of_mentioned hf hls hls' hv hv' hq side⟩

end Pass

/-- Null check elimination is idempotent. If a null check pass succeeds on a program, then so
does the same pass on the result: it takes nothing out of any routine and leaves the program
as it is. Whatever the solvers have been used for before, the facts at the remaining quads are
the same in both, as far as the registers are still mentioned. -/
theorem null_check_optimize_idempotent {name : String} (hname : name ∈ Pass.nullCheckNames)
    {p p' : Program} (built : ∀ f ∈ p.routines, f.graph.Built) {level : Level}
    {reports : List Pass.Report} (h : (Pass.optimize level name).Yields p reports p')
    (level' : Level) :
    (Pass.optimize level' name).Yields p' (p'.routines.map fun f => ⟨f.name, []⟩) p' ∧
      List.Forall₂ (fun f f' => ∀ solver solver', Pass.AtWork name solver →
        Pass.AtWork name solver' → Pass.KeepsFacts level level' solver solver' f f')
        p.routines p'.routines := by
  obtain ⟨mode, fresh, hfresh, hwork, hchecks⟩ := Pass.exists_mode hname
  obtain ⟨solver, _, hnamed, hzoom⟩ := h.of_bind
  obtain ⟨hsolver, rfl⟩ := hnamed.of_ofExcept
  cases hfresh.symm.trans hsolver
  obtain ⟨routines, hrun, rfl⟩ := hzoom.of_zoom
  have hs := hchecks fresh hwork
  have hall := Pass.of_runAll hs built hrun
  constructor
  · have hagain := Pass.exists_runAll name hs hall level'
    exact (Run.yields_ofExcept hfresh _).bind hagain.zoom
  · refine hall.imp fun f f' hf solver solver' hsolver hsolver' => ?_
    obtain ⟨hbuilt, ids, heliminated⟩ := hf
    exact heliminated.keepsFacts hbuilt.coherent (hchecks solver hsolver)
      (hchecks solver' hsolver') level level'

theorem optimize_idempotent_on_loop : ∃ g p', FlowGraph.ofOutline FlowGraph.loopOutline = .ok g ∧
    (Pass.optimize .off "move-null-checks").Yields ⟨[⟨"loop", [], g⟩]⟩ [⟨"loop", [3]⟩] p' ∧
    (Pass.optimize .off "move-null-checks").Yields p' (p'.routines.map fun f => ⟨f.name, []⟩)
      p' := by
  obtain ⟨g, hg, hresult⟩ : ∃ g, FlowGraph.ofOutline FlowGraph.loopOutline = .ok g ∧
      (Pass.optimize .off "move-null-checks" ⟨[⟨"loop", [], g⟩]⟩).result =
        .ok [⟨"loop", [3]⟩] := ⟨_, rfl, by decide +kernel⟩
  have hfirst := Run.yields_of_result hresult
  have hname : "move-null-checks" ∈ Pass.nullCheckNames := by decide
  have hbuilt : ∀ f ∈ [(⟨"loop", [], g⟩ : Routine)], f.graph.Built := by
    intro f hf
    rw [List.mem_singleton.1 hf]
    exact FlowGraph.built_ofOutline hg
  exact ⟨g, _, hg, hfirst, (null_check_optimize_idempotent hname hbuilt hfirst .off).1⟩

end Dataflow
