import Dataflow.Proofs.Elimination

/-! # Executions of a routine

Of the values in registers only whether they are null counts. A run starts at the entry and
walks along the edges. Checks stop it at a null register, moves copy, and what any other
definition writes is drawn from an oracle. Null check elimination leaves every execution as it
is, but for the checks taken out.
-/
namespace Dataflow

/-- Which registers are null, and how many definitions have drawn from the oracle. -/
structure Machine where
  null : Register → Bool
  drawn : Nat

def Machine.write (m : Machine) (r : Register) (isNull : Bool) : Machine :=
  { m with null := fun s => if s = r then isNull else m.null s }

/-- The machine after a quad, or nothing if the quad faults. -/
def Quad.act (oracle : Nat → Bool) (q : Quad) (m : Machine) : Option Machine :=
  match q.operation with
  | .nullCheck r => if m.null r then none else some m
  | .move dst (.register src) => some (m.write dst (m.null src))
  | operation => match operation.dst? with
    | some dst => some { m.write dst (oracle m.drawn) with drawn := m.drawn + 1 }
    | none => some m

structure Step where
  quad : Quad
  before : Machine
  after : Option Machine

structure Execution where
  steps : List Step
  /-- The quad that ended the run, if one did. -/
  fault : Option QuadId
  final : Machine

def execute (oracle : Nat → Bool) : Machine → List Quad → Execution
  | m, [] => ⟨[], none, m⟩
  | m, q :: quads =>
    match q.act oracle m with
    | none => ⟨[⟨q, m, none⟩], some q.id, m⟩
    | some m' =>
      let rest := execute oracle m' quads
      { rest with steps := ⟨q, m, some m'⟩ :: rest.steps }

namespace FlowGraph

/-- Every block is a successor of the one before it. -/
def Follows (g : FlowGraph) : BlockIndex → List BlockIndex → Prop
  | _, [] => True
  | i, j :: walk => ⟨i, j⟩ ∈ g.edges ∧ g.Follows j walk

def quadsAlong (g : FlowGraph) (walk : List BlockIndex) : List Quad := walk.flatMap g.quadsAt

/-- Whether the run leaves the routine behind the last block of a walk, and does not fault
before. -/
def exits (g : FlowGraph) (walk : List BlockIndex) (x : Execution) : Bool :=
  x.fault.isNone && walk.getLast?.any (fun i => (g.after i).isEmpty)

end FlowGraph

/-- The second execution is the first without the steps of these quads. -/
structure Execution.Skips (ids : List QuadId) (x y : Execution) : Prop where
  steps : y.steps = x.steps.filter (fun s => !ids.contains s.quad.id)
  fault : y.fault = x.fault
  final : y.final = x.final

/-- Along the run each of these quads leaves the machine as it is. -/
def Harmless (oracle : Nat → Bool) (ids : List QuadId) : Machine → List Quad → Prop
  | _, [] => True
  | m, q :: quads => (q.id ∈ ids → q.act oracle m = some m) ∧
      ∀ m', q.act oracle m = some m' → Harmless oracle ids m' quads

theorem Harmless.skips {oracle : Nat → Bool} {ids : List QuadId} {m : Machine} {quads : List Quad}
    (h : Harmless oracle ids m quads) :
    (execute oracle m quads).Skips ids
      (execute oracle m (quads.filter (fun q => !ids.contains q.id))) := by
  induction quads generalizing m with
  | nil => exact ⟨rfl, rfl, rfl⟩
  | cons q quads ih =>
    obtain ⟨hsame, hrest⟩ := h
    by_cases hid : q.id ∈ ids
    · have hact := hsame hid
      obtain ⟨hsteps, hfault, hfinal⟩ := ih (hrest m hact)
      have hdrop : (q :: quads).filter (fun q => !ids.contains q.id) =
          quads.filter (fun q => !ids.contains q.id) :=
        List.filter_cons_of_neg (by simpa using hid)
      have hexecute : execute oracle m (q :: quads) =
          { execute oracle m quads with
            steps := ⟨q, m, some m⟩ :: (execute oracle m quads).steps } := by
        rw [execute, hact]
      rw [hdrop, hexecute]
      refine ⟨?_, hfault, hfinal⟩
      rw [hsteps, List.filter_cons_of_neg (by simpa using hid)]
    · have hkeep : (q :: quads).filter (fun q => !ids.contains q.id) =
          q :: quads.filter (fun q => !ids.contains q.id) :=
        List.filter_cons_of_pos (by simpa using hid)
      rw [hkeep, execute, execute]
      cases hact : q.act oracle m with
      | none =>
        refine ⟨?_, rfl, rfl⟩
        rw [List.filter_cons_of_pos (by simpa using hid)]
        rfl
      | some m' =>
        obtain ⟨hsteps, hfault, hfinal⟩ := ih (hrest m' hact)
        refine ⟨?_, hfault, hfinal⟩
        rw [List.filter_cons_of_pos (by simpa using hid), ← hsteps]

theorem Harmless.fault_ne {oracle : Nat → Bool} {ids : List QuadId} {m : Machine}
    {quads : List Quad} (h : Harmless oracle ids m quads) {id : QuadId} (hid : id ∈ ids) :
    (execute oracle m quads).fault ≠ some id := by
  induction quads generalizing m with
  | nil => exact fun heq => (by cases heq)
  | cons q quads ih =>
    obtain ⟨hsame, hrest⟩ := h
    rw [execute]
    cases hact : q.act oracle m with
    | none =>
      intro heq
      cases heq
      rw [hsame hid] at hact
      cases hact
    | some m' => exact ih (hrest m' hact)

namespace NullCheck

open FlowGraph (Point)

variable {g : FlowGraph} {mode : Mode} {oracle : Nat → Bool} {m m' : Machine} {i : BlockIndex}
  {q : Quad} {rest : List Quad}

/-- Null registers are unproven. -/
def Sound (g : FlowGraph) (mode : Mode) (x : Point) (m : Machine) : Prop :=
  ∀ r, m.null r = true → Unproven g mode x r

theorem Sound.act (h : Sound g mode ⟨i, q :: rest⟩ m) (hq : g.Within ⟨i, q :: rest⟩)
    (hact : q.act oracle m = some m') : Sound g mode ⟨i, rest⟩ m' := by
  intro r hr
  unfold Quad.act at hact
  split at hact
  · rename_i s hop
    split at hact
    · cases hact
    · rename_i hs
      cases hact
      refine .keep (h r hr) ?_ ?_
      · rw [Quad.defined, hop]
        exact List.not_mem_nil
      · rw [hop]
        intro heq
        cases heq
        exact hs hr
  · rename_i d s hop
    cases hact
    by_cases hrd : r = d
    · simp only [Machine.write, hrd, if_true] at hr
      exact .copy (h s hr) (hrd ▸ hop)
    · simp only [Machine.write, hrd, if_false] at hr
      refine .keep (h r hr) ?_ ?_
      · rw [Quad.defined, hop]
        exact fun hm => hrd (List.mem_singleton.1 hm)
      · rw [hop]
        exact Operation.noConfusion
  · rename_i hcheck hmove
    split at hact
    · rename_i d hdst
      cases hact
      have hdefined : q.defined = [d] := by
        rw [Quad.defined, Operation.defined, hdst]
        rfl
      by_cases hrd : r = d
      · refine .define hq (hdefined ▸ List.mem_singleton.2 hrd) ?_
        rintro ⟨_, hm⟩
        obtain ⟨d', s, hop⟩ := isMove_iff.1 hm
        exact hmove d' s hop
      · simp only [Machine.write, hrd, if_false] at hr
        refine .keep (h r hr) ?_ (hcheck r)
        rw [hdefined]
        exact fun hm => hrd (List.mem_singleton.1 hm)
    · rename_i hdst
      cases hact
      refine .keep (h r hr) ?_ (hcheck r)
      rw [Quad.defined, Operation.defined, hdst]
      exact List.not_mem_nil

theorem Needless.act {r : Register} (hn : Needless g mode i q rest r)
    (h : Sound g mode ⟨i, q :: rest⟩ m) : q.act oracle m = some m := by
  have hnull : m.null r = false := by
    cases hm : m.null r with
    | false => rfl
    | true => exact absurd (h r hm) hn.proven
  unfold Quad.act
  rw [hn.check]
  simp [hnull]

section Walk

variable {ids : List QuadId} (hg : g.Coherent)
  (hids : ∀ id ∈ ids, ∃ i q rest r, q.id = id ∧ Needless g mode i q rest r)
include hg hids

/-- Needless checks are harmless to the end of a block, and so on if they are behind it. -/
theorem Sound.harmless_append (h : Sound g mode ⟨i, rest⟩ m) (hrest : g.Within ⟨i, rest⟩)
    {quads : List Quad}
    (hquads : ∀ m, Sound g mode ⟨i, []⟩ m → Harmless oracle ids m quads) :
    Harmless oracle ids m (rest ++ quads) := by
  induction rest generalizing m with
  | nil => exact hquads m h
  | cons q rest ih =>
    refine ⟨fun hid => ?_, fun m' hact => ih (h.act hrest hact) hrest.tail⟩
    obtain ⟨j, p, tail, r, hp, hneedless⟩ := hids q.id hid
    obtain ⟨rfl, rfl, rfl⟩ := hg.point_unique hneedless.within hrest hp
    exact hneedless.act h

theorem Sound.harmless {walk : List BlockIndex} (h : Sound g mode (g.start i) m)
    (hwalk : g.Follows i walk) : Harmless oracle ids m (g.quadsAlong (i :: walk)) := by
  induction walk generalizing i m with
  | nil => exact h.harmless_append hg hids (g.within_start i) fun _ _ => trivial
  | cons j walk ih =>
    refine h.harmless_append hg hids (g.within_start i) fun m' hm' => ?_
    have hstart : Sound g mode (g.start j) m' := fun r hr => .hop (hm' r hr) hwalk.1
    exact ih hstart hwalk.2

end Walk

end NullCheck

theorem FlowGraph.Erased.quadsAlong_eq {g h : FlowGraph} {ids : List QuadId} (hg : g.Erased ids h)
    (walk : List BlockIndex) :
    h.quadsAlong walk = (g.quadsAlong walk).filter (fun q => !ids.contains q.id) := by
  unfold quadsAlong
  rw [List.filter_flatMap]
  congr 1
  funext i
  exact hg.quadsAt_eq i

theorem FlowGraph.Erased.follows {g h : FlowGraph} {ids : List QuadId} (hg : g.Erased ids h)
    {i : BlockIndex} {walk : List BlockIndex} (hwalk : g.Follows i walk) : h.Follows i walk := by
  induction walk generalizing i with
  | nil => trivial
  | cons j walk ih =>
    refine ⟨?_, ih hwalk.2⟩
    rw [hg.edges]
    exact hwalk.1

/-- After a null check pass every walk of the routine is still one, and runs as before from any
machine and with any oracle, but for the checks taken out: the same quads with the same
machines before and after them, to the same fault or exit. No check taken out faults. -/
theorem null_check_pass_preserves_executions {name : String} (hname : name ∈ Pass.nullCheckNames)
    {solver solver' : Solver} (hsolver : Pass.AtWork name solver) {f f' : Routine}
    (built : f.graph.Built) {level : Level} {report : Pass.Report}
    (hrun : (Pass.run level).Yields (solver, f) report (solver', f')) (oracle : Nat → Bool)
    (m : Machine) {e : BlockIndex} (hentry : f.graph.entry = some e) {walk : List BlockIndex}
    (hwalk : f.graph.Follows e walk) :
    let x := execute oracle m (f.graph.quadsAlong (e :: walk))
    let x' := execute oracle m (f'.graph.quadsAlong (e :: walk))
    f'.graph.entry = some e ∧ f'.graph.Follows e walk ∧
      (∀ id ∈ report.removed, x.fault ≠ some id) ∧ x.Skips report.removed x' ∧
      f'.graph.exits (e :: walk) x' = f.graph.exits (e :: walk) x := by
  obtain ⟨mode, _, _, _, hchecks⟩ := Pass.exists_mode hname
  obtain ⟨_, heliminated, _⟩ := Pass.eliminated_of_run (hchecks solver hsolver) built hrun
  have herased := heliminated.erased
  have hsound : NullCheck.Sound f.graph mode (f.graph.start e) m := fun r _ => .entry hentry
  have hharmless : Harmless oracle report.removed m (f.graph.quadsAlong (e :: walk)) :=
    hsound.harmless built.coherent (fun id hid => (heliminated.mem_iff id).1 hid) hwalk
  have hskips := hharmless.skips
  rw [← herased.quadsAlong_eq] at hskips
  refine ⟨herased.entry.trans hentry, herased.follows hwalk, fun id hid => hharmless.fault_ne hid,
    hskips, ?_⟩
  have hafter : f'.graph.after = f.graph.after := by
    funext i
    unfold FlowGraph.after
    rw [herased.edges]
  unfold FlowGraph.exits
  rw [hskips.fault, hafter]

theorem executions_preserved_on_loop : ∃ g report t,
    FlowGraph.ofOutline FlowGraph.loopOutline = .ok g ∧
    (Pass.run .off).Yields (.edgeRegister (.ofProblem (NullCheck.problem .moveAware)),
      ⟨"loop", [], g⟩) report t ∧ report.removed = [3] ∧
    (execute (fun _ => true) ⟨fun r => r = ⟨"y"⟩, 0⟩ (g.quadsAlong [0, 1, 2])).Skips [3]
      (execute (fun _ => true) ⟨fun r => r = ⟨"y"⟩, 0⟩ (t.2.graph.quadsAlong [0, 1, 2])) := by
  obtain ⟨g, hg, hresult, hentry, hwalk⟩ : ∃ g,
      FlowGraph.ofOutline FlowGraph.loopOutline = .ok g ∧
      (Pass.run .off (.edgeRegister (.ofProblem (NullCheck.problem .moveAware)),
        ⟨"loop", [], g⟩)).result = .ok ⟨"loop", [3]⟩ ∧
      g.entry = some 0 ∧ g.Follows 0 [1, 2] :=
    ⟨_, rfl, by decide +kernel, rfl, by decide, by decide, trivial⟩
  have hrun := Run.yields_of_result hresult
  have hname : "edge-null-checks" ∈ Pass.nullCheckNames := by decide
  have hall := null_check_pass_preserves_executions hname (.edge rfl rfl)
    (FlowGraph.built_ofOutline hg) hrun (fun _ => true) ⟨fun r => r = ⟨"y"⟩, 0⟩ hentry hwalk
  exact ⟨g, _, _, hg, hrun, rfl, hall.2.2.2.1⟩

end Dataflow
