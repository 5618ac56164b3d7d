import Dataflow.LiveVariable
import Dataflow.NullCheck
import Dataflow.Proofs.EdgeSolver
import Dataflow.Proofs.NodeSolver
import Dataflow.ReachingDefinition

/-! # The problems that come with the library

Their transfers keep inclusions and stay in the domain of the routine, so both solvers find
their maximal fixed points, and each concludes without failing from values for all quads.
-/
namespace Dataflow

/-- The readings give the values of the valuation for every quad of the routine. -/
structure Readings.Show {α : Type} [Fact α] (E : Scheme α) (f : Routine) (v : Valuation α)
    (values : Readings α) : Prop where
  ready : values.ready = .ok ()
  input {q : Quad} : q ∈ f.quads → values.input q.id = .ok (E.pack (v .input q.id))
  output {q : Quad} : q ∈ f.quads → values.output q.id = .ok (E.pack (v .output q.id))
  entry : values.entry = .ok (E.pack (E.entryValue v))

/-- From readings of every quad the problem concludes with `found`. -/
def Problem.Concludes {α : Type} [Fact α] (p : Problem α) (f : Routine)
    (found : Valuation α → List QuadId) : Prop :=
  ∀ (level : Level) (ls : List Location) (v : Valuation α) (values : Readings α),
    values.Show (p.scheme f ls) f v → (p.conclude level f values).Yields () (found v) ()

section Solve

variable {α : Type} [Fact α] {p : Problem α} {f : Routine} {ls : List Location}
  {found : Valuation α → List QuadId}

theorem NodeAnalysis.Settled.show {v : Valuation α} {a : NodeAnalysis α}
    (h : a.Settled p f ls v) (hls : f.locations = .ok ls) :
    a.readings.Show (p.scheme f ls) f v := by
  have hget : ∀ side, ∀ {q : Quad}, q ∈ f.quads →
      a.get side q.id = .ok ((p.scheme f ls).pack (v side q.id)) := by
    intro side q hq
    obtain ⟨l, hl, rfl⟩ := FlowGraph.exists_location_of_quad hls hq
    exact h.holds.get side hl
  refine ⟨?_, hget .input, hget .output, h.entry⟩
  obtain ⟨s, rfl, _⟩ := h.holds
  rfl

theorem EdgeAnalysis.Settled.show {v : Valuation α} {a : EdgeAnalysis α}
    (h : a.Settled p f ls v) (hin : (p.scheme f ls).Inside v) (hls : f.locations = .ok ls) :
    a.readings.Show (p.scheme f ls) f v := by
  have hget : ∀ side, ∀ {q : Quad}, q ∈ f.quads →
      a.getAll side q.id = .ok ((p.scheme f ls).pack (v side q.id)) := by
    intro side q hq
    obtain ⟨l, hl, rfl⟩ := FlowGraph.exists_location_of_quad hls hq
    exact h.holds.getAll hin side hl
  refine ⟨?_, hget .input, hget .output, h.entry⟩
  obtain ⟨s, rfl, _⟩ := h.holds
  rfl

/-- One value per side: the solver succeeds and leaves the maximal fixed point. -/
theorem NodeAnalysis.solve_eq (hp : p.Regular f) (hc : p.Concludes f found)
    (hf : f.graph.Coherent) (hls : f.locations = .ok ls) {a : NodeAnalysis α}
    (ha : a.problem = p) (level : Level) :
    ∃ v, (p.scheme f ls).Greatest v ∧ (solve level f a).state.Settled p f ls v ∧
      (solve level f a).result = .ok (found v) := by
  obtain ⟨v, b, hv, hb, rfl, hresult⟩ := exists_solve hp hf hls ha level
  refine ⟨v, hv, hb, ?_⟩
  rw [hresult]
  exact (hc level ls v _ (hb.show hls)).result

/-- One value per edge: likewise. -/
theorem EdgeAnalysis.solve_eq (hp : p.Regular f) (hc : p.Concludes f found)
    (hf : f.graph.Coherent) (hls : f.locations = .ok ls) {a : EdgeAnalysis α}
    (ha : a.problem = p) (level : Level) :
    ∃ v, (p.scheme f ls).Greatest v ∧ (solve level f a).state.Settled p f ls v ∧
      (solve level f a).result = .ok (found v) := by
  obtain ⟨v, b, hv, hb, rfl, hresult⟩ := exists_solve hp hf hls ha level
  refine ⟨v, hv, hb, ?_⟩
  rw [hresult]
  exact (hc level ls v _ (hb.show hv.inside hls)).result

end Solve

namespace NullCheck

variable {mode : Mode} {f : Routine} {q : Quad} {r : Register} {s t : OrderedSet Register}

theorem mem_transfer : r ∈ transfer mode q s ↔
    (r ∈ s ∧ r ∉ q.defined) ∨ (q.isNullCheck = true ∧ r ∈ q.used) ∨
      (provesMove mode q s = true ∧ r ∈ q.defined) := by
  unfold transfer
  by_cases hcheck : q.isNullCheck = true
  · by_cases hmove : provesMove mode q s = true
    · simp only [hcheck, hmove, if_true, OrderedSet.mem_insertAll, OrderedSet.mem_eraseAll,
        true_and]
      tauto
    · simp only [hcheck, hmove, if_true, OrderedSet.mem_insertAll, OrderedSet.mem_eraseAll,
        true_and, Bool.false_eq_true, if_false, false_and, or_false]
      tauto
  · by_cases hmove : provesMove mode q s = true
    · simp only [hcheck, hmove, if_true, OrderedSet.mem_insertAll, OrderedSet.mem_eraseAll,
        Bool.false_eq_true, if_false, false_and, false_or, true_and]
      tauto
    · simp only [hcheck, hmove, OrderedSet.mem_eraseAll, Bool.false_eq_true, if_false, false_and,
        or_false]

theorem provesMove_eq_true : provesMove mode q s = true ↔
    mode = .moveAware ∧ q.isMove = true ∧ q.used ≠ [] ∧ ∀ r ∈ q.used, r ∈ s := by
  simp [provesMove, OrderedSet.contains_iff, and_assoc]

theorem transfer_subset (h : s ⊆ t) : transfer mode q s ⊆ transfer mode q t := by
  intro r hr
  rcases mem_transfer.1 hr with ⟨hm, hdef⟩ | hcheck | ⟨hmove, hdef⟩
  · exact mem_transfer.2 (.inl ⟨h r hm, hdef⟩)
  · exact mem_transfer.2 (.inr (.inl hcheck))
  · obtain ⟨hmode, hcopy, hused, hall⟩ := provesMove_eq_true.1 hmove
    have hmove' := provesMove_eq_true.2 ⟨hmode, hcopy, hused, fun r hr => h r (hall r hr)⟩
    exact mem_transfer.2 (.inr (.inr ⟨hmove', hdef⟩))

theorem mem_mentioned (hq : q ∈ f.quads) (hr : r ∈ q.defined ∨ r ∈ q.used) :
    r ∈ mentioned f := by
  unfold mentioned
  rw [OrderedSet.mem_ofList]
  exact List.mem_append_right _ (List.mem_flatMap.2 ⟨q, hq, List.mem_append.2 hr⟩)

theorem transfer_mentioned (hq : q ∈ f.quads) (h : s ⊆ mentioned f) :
    transfer mode q s ⊆ mentioned f := by
  intro r hr
  rcases mem_transfer.1 hr with ⟨hm, _⟩ | ⟨_, hused⟩ | ⟨_, hdef⟩
  · exact h r hm
  · exact mem_mentioned hq (.inr hused)
  · exact mem_mentioned hq (.inl hdef)

theorem regular_problem (mode : Mode) (f : Routine) : (problem mode).Regular f where
  boundary := rfl
  boundary_subset := OrderedSet.empty_subset _
  departures _ := rfl
  reach := Nat.le_refl _
  monotone _ _ _ h := transfer_subset h
  closed hq _ h := transfer_mentioned hq h

theorem regular_guardedProblem (mode : Mode) (f : Routine) : (guardedProblem mode).Regular f where
  boundary := rfl
  boundary_subset := OrderedSet.empty_subset _
  departures _ := rfl
  reach := Nat.le_refl _
  monotone _ _ _ h := transfer_subset h
  closed hq _ h := transfer_mentioned hq h

/-- The checks with the same facts on both sides, ascending. -/
def redundantChecks (f : Routine) (v : Valuation Register) : List QuadId :=
  (OrderedSet.ofList ((f.nullChecks.filter fun q =>
    decide (v .input q.id = v .output q.id)).map Quad.id)).toList

private theorem filterAuxM_eq {α : Type} {test : α → Except Error Bool} {b : α → Bool}
    {l : List α} (h : ∀ a ∈ l, test a = .ok (b a)) (found : List α) :
    l.filterAuxM test found = .ok ((l.filter b).reverse ++ found) := by
  induction l generalizing found with
  | nil => rfl
  | cons a l ih =>
    have hrest := ih fun c hc => h c (List.mem_cons_of_mem a hc)
    rw [List.filterAuxM, h a List.mem_cons_self, List.filter_cons]
    show l.filterAuxM test (cond (b a) (a :: found) found) = _
    cases b a with
    | false => exact hrest found
    | true =>
      rw [if_pos rfl, List.reverse_cons, List.append_assoc]
      exact hrest (a :: found)

theorem redundant_eq {values : Readings Register} {E : Scheme Register} {v : Valuation Register}
    (h : values.Show E f v) : redundant f values = .ok (redundantChecks f v) := by
  have htest : ∀ q ∈ f.nullChecks, (do
      return (← values.input q.id).same (← values.output q.id)) =
      Except.ok (decide (v .input q.id = v .output q.id)) := by
    intro q hq
    have hmem : q ∈ f.quads := (List.mem_filter.1 hq).1
    rw [h.input hmem, h.output hmem]
    rfl
  refine bind_eq_ok.2
    ⟨f.nullChecks.filter fun q => decide (v .input q.id = v .output q.id), ?_, rfl⟩
  unfold List.filterM
  rw [filterAuxM_eq htest]
  simp [pure, Except.pure, bind, Except.bind]

theorem concludes_problem (mode : Mode) (f : Routine) :
    (problem mode).Concludes f (redundantChecks f) := by
  intro level ls v values h
  have hreport : (report level f (redundantChecks f v)).Yields () () () :=
    (Run.yields_say _ _ _ _).bind (Run.yields_forM_same fun q _ => Run.yields_say _ _ _ _)
  exact (Run.yields_ofExcept (redundant_eq h) ()).bind (hreport.bind (Run.yields_pure _ _))

theorem concludes_guardedProblem (mode : Mode) (f : Routine) :
    (guardedProblem mode).Concludes f (redundantChecks f) := by
  intro level ls v values h
  exact (Run.yields_ofExcept h.ready ()).bind (concludes_problem mode f level ls v values h)

end NullCheck

namespace ReachingDefinition

namespace Definitions

variable {f : Routine} {q : Quad} {id : QuadId}

theorem mem_all_add (key : QuadId) (d : Definitions) (r : Register) :
    id ∈ (d.add key r).all ↔ id ∈ d.all ∨ id = key :=
  OrderedSet.mem_insert.trans or_comm

/-- The definitions of a routine are its quads that write a register. -/
theorem mem_all_ofRoutine :
    id ∈ (ofRoutine f).all ↔ ∃ q ∈ f.quads, id = q.id ∧ q.defined ≠ [] := by
  have hquad : ∀ (d : Definitions) (q : Quad),
      id ∈ (q.defined.foldl (fun d r => d.add q.id r) d).all ↔
        id ∈ d.all ∨ (id = q.id ∧ q.defined ≠ []) := by
    intro d q
    rw [foldl_or_iff (P := fun d : Definitions => id ∈ d.all) (mem_all_add q.id)]
    refine or_congr_right ⟨?_, ?_⟩
    · rintro ⟨r, hr, hid⟩
      exact ⟨hid, List.ne_nil_of_mem hr⟩
    · rintro ⟨hid, hne⟩
      obtain ⟨r, hr⟩ := List.exists_mem_of_ne_nil _ hne
      exact ⟨r, hr, hid⟩
  have hblank : ¬ id ∈ Definitions.blank.all := OrderedSet.not_mem_empty id
  rw [ofRoutine, foldl_or_iff (P := fun d : Definitions => id ∈ d.all) hquad,
    or_iff_right hblank]

theorem mem_sitesOf_add {r : Register} (key : QuadId) (d : Definitions) (s : Register) :
    id ∈ (d.add key s).sitesOf r ↔ id ∈ d.sitesOf r ∨ (id = key ∧ r = s) := by
  unfold add sitesOf
  rw [OrderedMap.get?_set]
  by_cases h : r = s
  · subst h
    simp only [if_true, Option.getD_some, OrderedSet.mem_insert, and_true]
    exact or_comm
  · simp only [h, if_false, and_false, or_false]

/-- The sites of a register are the quads that write it. -/
theorem mem_sitesOf_ofRoutine {r : Register} :
    id ∈ (ofRoutine f).sitesOf r ↔ ∃ q ∈ f.quads, id = q.id ∧ r ∈ q.defined := by
  have hquad : ∀ (d : Definitions) (q : Quad),
      id ∈ (q.defined.foldl (fun d r => d.add q.id r) d).sitesOf r ↔
        id ∈ d.sitesOf r ∨ (id = q.id ∧ r ∈ q.defined) := by
    intro d q
    rw [foldl_or_iff (P := fun d : Definitions => id ∈ d.sitesOf r) (mem_sitesOf_add q.id)]
    simp only [and_left_comm, exists_and_left, exists_eq_right']
  have hblank : ¬ id ∈ Definitions.blank.sitesOf r := OrderedSet.not_mem_empty id
  rw [ofRoutine, foldl_or_iff (P := fun d : Definitions => id ∈ d.sitesOf r) hquad,
    or_iff_right hblank]

theorem mem_transfer {d : Definitions} {s : OrderedSet QuadId} : id ∈ d.transfer q s ↔
    (id ∈ s ∧ ∀ r ∈ q.defined, id ∉ d.sitesOf r) ∨ (id = q.id ∧ q.defined ≠ []) := by
  have hkept : ∀ (s : OrderedSet QuadId) (r : Register),
      id ∈ s.eraseAll (d.sitesOf r).toList ↔ id ∈ s ∧ id ∉ d.sitesOf r := by
    intro s r
    rw [OrderedSet.mem_eraseAll, OrderedSet.mem_toList]
  unfold transfer
  by_cases hdef : q.defined.isEmpty = true
  · have hnil : q.defined = [] := List.isEmpty_iff.1 hdef
    simp [hnil]
  · have hne : q.defined ≠ [] := fun h => hdef (List.isEmpty_iff.2 h)
    rw [if_neg hdef, OrderedSet.mem_insert, foldl_and_iff (P := fun s => id ∈ s) hkept]
    tauto

end Definitions

theorem regular_problem (f : Routine) : problem.Regular f where
  boundary := rfl
  boundary_subset := OrderedSet.empty_subset _
  departures _ := rfl
  reach := Nat.le_refl _
  monotone _ s t h id hid := by
    rcases Definitions.mem_transfer.1 hid with ⟨hm, hkept⟩ | hnew
    · exact Definitions.mem_transfer.2 (.inl ⟨h id hm, hkept⟩)
    · exact Definitions.mem_transfer.2 (.inr hnew)
  closed hq s h id hid := by
    rcases Definitions.mem_transfer.1 hid with ⟨hm, _⟩ | hnew
    · exact h id hm
    · exact Definitions.mem_all_ofRoutine.2 ⟨_, hq, hnew⟩

/-- What the log of a conclusion shows can be read. -/
def Shown (f : Routine) (values : Readings QuadId) : Prop :=
  ∀ q ∈ f.quads, (values.input q.id).isOk

instance (f : Routine) (values : Readings QuadId) : Decidable (Shown f values) :=
  inferInstanceAs (Decidable (∀ q ∈ f.quads, (values.input q.id).isOk))

theorem yields_conclude {values : Readings QuadId} (h : Shown f values) (level : Level) :
    (conclude level f values).Yields () [] () := by
  refine (Run.yields_say _ _ _ _).bind ((Run.yields_forM_same fun q hq => ?_).bind
    (Run.yields_pure _ _))
  obtain ⟨x, hx⟩ := exists_of_isOk (h q hq)
  refine Run.yields_trySay _ _ ?_ ()
  rw [hx]
  exact ⟨_, rfl⟩

theorem concludes_problem (f : Routine) : problem.Concludes f (fun _ => []) := by
  intro level ls v values h
  refine yields_conclude (fun q hq => ?_) level
  rw [h.input hq]
  rfl

end ReachingDefinition

namespace LiveVariable

theorem mem_transfer {q : Quad} {s : OrderedSet Register} {r : Register} :
    r ∈ transfer q s ↔ r ∈ q.used ∨ (r ∈ s ∧ r ∉ q.defined) := by
  rw [transfer, OrderedSet.mem_insertAll, OrderedSet.mem_eraseAll]

theorem regular_problem (f : Routine) : problem.Regular f where
  boundary := rfl
  boundary_subset := OrderedSet.empty_subset _
  departures _ := rfl
  reach := Nat.le_refl _
  monotone _ s t h r hr := by
    rcases mem_transfer.1 hr with hused | ⟨hm, hkept⟩
    · exact mem_transfer.2 (.inl hused)
    · exact mem_transfer.2 (.inr ⟨h r hm, hkept⟩)
  closed hq s h r hr := by
    rcases mem_transfer.1 hr with hused | ⟨hm, _⟩
    · exact OrderedSet.mem_ofList.2 (List.mem_flatMap.2 ⟨_, hq, hused⟩)
    · exact h r hm

/-- What the log of a conclusion shows can be read. -/
def Shown (f : Routine) (values : Readings Register) : Prop :=
  (∀ q ∈ f.quads, (values.output q.id).isOk) ∧ values.entry.isOk

instance (f : Routine) (values : Readings Register) : Decidable (Shown f values) :=
  inferInstanceAs (Decidable ((∀ q ∈ f.quads, (values.output q.id).isOk) ∧ values.entry.isOk))

theorem yields_conclude {f : Routine} {values : Readings Register} (h : Shown f values)
    (level : Level) : (conclude level f values).Yields () [] () := by
  refine (Run.yields_say _ _ _ _).bind ((Run.yields_forM_same fun q hq => ?_).bind
    ((Run.yields_trySay _ _ ?_ ()).bind (Run.yields_pure _ _)))
  · obtain ⟨x, hx⟩ := exists_of_isOk (h.1 q hq)
    refine Run.yields_trySay _ _ ?_ ()
    rw [hx]
    exact ⟨_, rfl⟩
  · obtain ⟨x, hx⟩ := exists_of_isOk h.2
    rw [hx]
    exact ⟨_, rfl⟩

theorem concludes_problem (f : Routine) : problem.Concludes f (fun _ => []) := by
  intro level ls v values h
  refine yields_conclude ⟨fun q hq => ?_, ?_⟩ level
  · rw [h.output hq]
    rfl
  · rw [h.entry]
    rfl

end LiveVariable

end Dataflow
