import Dataflow.Proofs.Elimination
import Dataflow.Proofs.QuadPaths

/-! # Meets over all paths

A must-problem joins values where paths meet, instead of following each path. If transfers
distribute over meets and every quad lies on some path from where the flow begins, nothing is
lost: the maximal fixed point holds in front of a quad what every path there brings about.
-/
namespace Dataflow

namespace Scheme

variable {α : Type} [Fact α] {E : Scheme α} {v : Valuation α} {path : List Quad} {p q : Quad}
  {a : α} {l : Location}

/-- What the quads of a path make of the boundary, one after the other. -/
def along (E : Scheme α) (path : List Quad) : OrderedSet α :=
  path.foldl (fun s q => E.transfer q s) E.boundary

theorem along_concat : E.along (path ++ [q]) = E.transfer q (E.along path) := by
  rw [along, List.foldl_append]
  rfl

/-- The quads that a path visits from the boundary on, up to the quad it leads to. -/
inductive Route (E : Scheme α) : List Quad → Quad → Prop
  | start {l : Location} {n : Neighbor} : l ∈ E.locations → n ∈ E.direction.incoming l →
      (∀ id, n ≠ .quad id) → Route E [] l.quad
  | step {path : List Quad} {p q : Quad} : Route E path p → E.Feeds p q →
      Route E (path ++ [p]) q

theorem inflow_of_not_quad {n : Neighbor} (hn : ∀ id, n ≠ .quad id) :
    E.inflow v n = E.boundary := by
  cases n with
  | quad id => exact absurd rfl (hn id)
  | entry => rfl
  | exit => rfl

theorem Route.along_subset (h : E.Route path q) (hE : E.Regular) : E.along path ⊆ E.domain := by
  induction h with
  | start _ _ _ => exact hE.boundary
  | step _ hfeeds ih =>
    obtain ⟨k, hk, l, _, rfl, rfl, _⟩ := hfeeds
    rw [along_concat]
    exact hE.closed hk ih

/-- A solution never holds more than a path brings about, by induction along the path. -/
theorem Route.given_subset (h : E.Route path q) (hE : E.Regular) (hmust : E.confluence = .must)
    (hv : E.Solves v) : v E.direction.given q.id ⊆ E.along path := by
  induction h with
  | @start l n hl hn hnot =>
    intro a ha
    have hgiven : v E.direction.given l.quad.id = E.met v l := (hv l hl).1
    rw [hgiven] at ha
    have hinflow : a ∈ E.inflow v n := ((mem_met_must hmust).1 ha).2 n hn
    rw [inflow_of_not_quad hnot] at hinflow
    exact hinflow
  | step _ hfeeds ih =>
    obtain ⟨k, hk, l, hl, rfl, rfl, hin⟩ := hfeeds
    intro a ha
    have hgiven : v E.direction.given l.quad.id = E.met v l := (hv l hl).1
    rw [hgiven] at ha
    have hsolved : a ∈ v E.direction.solved k.id := ((mem_met_must hmust).1 ha).2 _ hin
    rw [(hv k hk).2] at hsolved
    rw [along_concat]
    exact hE.monotone hk ih a hsolved

/-- The transfer of the meet of some sets has all that the transfers of the sets share. -/
def Distributes (E : Scheme α) : Prop := ∀ l ∈ E.locations, ∀ (T : OrderedSet α → Prop)
  (s : OrderedSet α), (∃ t, T t) → (∀ a, a ∈ s ↔ ∀ t, T t → a ∈ t) →
    ∀ a, (∀ t, T t → a ∈ E.transfer l.quad t) → a ∈ E.transfer l.quad s

noncomputable def onAllRoutes (E : Scheme α) : Valuation α :=
  E.select (fun q a => ∀ path, E.Route path q → a ∈ E.along path)
    (fun q a => ∀ path, E.Route path q → a ∈ E.along (path ++ [q]))

theorem Regular.mem_onAllRoutes_given (hE : E.Regular) (hl : l ∈ E.locations) :
    a ∈ E.onAllRoutes E.direction.given l.id ↔
      a ∈ E.domain ∧ ∀ path, E.Route path l.quad → a ∈ E.along path := hE.mem_select_given hl

theorem Regular.mem_onAllRoutes_solved (hE : E.Regular) (hl : l ∈ E.locations) :
    a ∈ E.onAllRoutes E.direction.solved l.id ↔
      a ∈ E.domain ∧ ∀ path, E.Route path l.quad → a ∈ E.along (path ++ [l.quad]) :=
  hE.mem_select_solved hl

theorem Regular.onAllRoutes_given (hE : E.Regular) (hmust : E.confluence = .must)
    (hl : l ∈ E.locations) :
    E.onAllRoutes E.direction.given l.id = E.met E.onAllRoutes l := by
  apply OrderedSet.ext
  intro a
  rw [hE.mem_onAllRoutes_given hl, mem_met_must hmust]
  refine and_congr_right fun ha => ⟨fun h n hn => ?_, fun h path hpath => ?_⟩
  · by_cases hquad : ∀ id, n ≠ .quad id
    · rw [inflow_of_not_quad hquad]
      exact h [] (.start hl hn hquad)
    · obtain ⟨id, rfl⟩ : ∃ id, n = .quad id := by simpa using hquad
      obtain ⟨k, hk, rfl, _⟩ := hE.incoming hl hn
      have hfeeds : E.Feeds k.quad l.quad := ⟨k, hk, l, hl, rfl, rfl, hn⟩
      exact (hE.mem_onAllRoutes_solved hk).2 ⟨ha, fun path hpath => h _ (hpath.step hfeeds)⟩
  · generalize hq : l.quad = q at hpath
    cases hpath with
    | @start k n hk hn hnot =>
      have hid : k.id = l.id := congrArg Quad.id hq.symm
      rw [List.inj_on_of_nodup_map hE.nodup hk hl hid] at hn
      have hinflow : a ∈ E.inflow E.onAllRoutes n := h n hn
      rw [inflow_of_not_quad hnot] at hinflow
      exact hinflow
    | @step path p q hpath hfeeds =>
      rw [← hq] at hfeeds
      obtain ⟨k, hk, rfl, hn⟩ := (hE.feeds_iff hl).1 hfeeds
      exact ((hE.mem_onAllRoutes_solved hk).1 (h _ hn)).2 path hpath

theorem Regular.onAllRoutes_solved (hE : E.Regular) (hdist : E.Distributes)
    (hl : l ∈ E.locations) (hroute : ∃ path, E.Route path l.quad) :
    E.onAllRoutes E.direction.solved l.id =
      E.transfer l.quad (E.onAllRoutes E.direction.given l.id) := by
  obtain ⟨path₀, hpath₀⟩ := hroute
  have hmeet : ∀ a, a ∈ E.onAllRoutes E.direction.given l.id ↔
      ∀ t, (∃ path, E.Route path l.quad ∧ E.along path = t) → a ∈ t := by
    intro a
    refine (hE.mem_onAllRoutes_given hl).trans ⟨?_, fun h => ?_⟩
    · rintro ⟨_, h⟩ _ ⟨path, hpath, rfl⟩
      exact h path hpath
    · exact ⟨hpath₀.along_subset hE a (h _ ⟨path₀, hpath₀, rfl⟩),
        fun path hpath => h _ ⟨path, hpath, rfl⟩⟩
  apply OrderedSet.ext
  intro a
  refine (hE.mem_onAllRoutes_solved hl).trans ⟨fun h => ?_, fun h => ?_⟩
  · refine hdist l hl _ _ ⟨_, path₀, hpath₀, rfl⟩ hmeet a ?_
    rintro _ ⟨path, hpath, rfl⟩
    rw [← along_concat]
    exact h.2 path hpath
  · have hall : ∀ path, E.Route path l.quad → a ∈ E.along (path ++ [l.quad]) := by
      intro path hpath
      rw [along_concat]
      exact hE.monotone hl (fun b hb => (hmeet b).1 hb _ ⟨path, hpath, rfl⟩) a h
    have hclosed : E.along (path₀ ++ [l.quad]) ⊆ E.domain := by
      rw [along_concat]
      exact hE.closed hl (hpath₀.along_subset hE)
    exact ⟨hclosed a (hall path₀ hpath₀), hall⟩

theorem Greatest.mem_given (hv : E.Greatest v) (hE : E.Regular) (hmust : E.confluence = .must)
    (hdist : E.Distributes) (hroutes : ∀ l ∈ E.locations, ∃ path, E.Route path l.quad)
    (hl : l ∈ E.locations) :
    a ∈ v E.direction.given l.id ↔ ∀ path, E.Route path l.quad → a ∈ E.along path := by
  constructor
  · intro ha path hpath
    exact hpath.given_subset hE hmust hv.solves a ha
  · intro h
    have hsolves : E.Solves E.onAllRoutes := fun k hk =>
      ⟨hE.onAllRoutes_given hmust hk, hE.onAllRoutes_solved hdist hk (hroutes k hk)⟩
    have hbelow := hv.above _ (E.select_inside _ _) hsolves E.direction.given l hl
    rw [hmust] at hbelow
    obtain ⟨path, hpath⟩ := hroutes l hl
    exact hbelow a ((hE.mem_onAllRoutes_given hl).2
      ⟨hpath.along_subset hE a (h path hpath), h⟩)

end Scheme

namespace NullCheck

variable {mode : Mode} {f : Routine} {ls : List Location} {path : List Quad} {q : Quad}

/-- What the quads of a path prove, one after the other, where nothing is known before. -/
def provenAlong (mode : Mode) (path : List Quad) : OrderedSet Register :=
  path.foldl (fun s q => transfer mode q s) ∅

/-- A register that the transfer of a meet lacks is lacking after one of the sets: a quad keeps,
forgets or copies each register by itself. -/
theorem distributes (mode : Mode) (f : Routine) (ls : List Location) :
    ((problem mode).scheme f ls).Distributes := by
  intro l _ T s hT hmeet r hall
  have hlacks : ∀ {u}, u ∉ s → ∃ t, T t ∧ u ∉ t := by
    intro u hu
    by_contra hnone
    refine hu ((hmeet u).2 fun t ht => ?_)
    by_contra hut
    exact hnone ⟨t, ht, hut⟩
  by_contra hnot
  rcases not_mem_transfer.1 hnot with ⟨hr, hdef, hcheck⟩ | hdef | ⟨u, hu, hop⟩
  · obtain ⟨t, ht, hrt⟩ := hlacks hr
    exact not_mem_transfer.2 (.inl ⟨hrt, hdef, hcheck⟩) (hall t ht)
  · obtain ⟨t, ht⟩ := hT
    exact not_mem_transfer.2 (.inr (.inl hdef)) (hall t ht)
  · obtain ⟨t, ht, hut⟩ := hlacks hu
    exact not_mem_transfer.2 (.inr (.inr ⟨u, hut, hop⟩)) (hall t ht)

theorem route_iff (hf : f.graph.Coherent) (hls : f.locations = .ok ls) :
    ((problem mode).scheme f ls).Route path q ↔ f.graph.FromEntry path q := by
  have hfeeds : ((problem mode).scheme f ls).Feeds = f.graph.Next := Problem.feeds_eq hf hls
  constructor
  · intro h
    induction h with
    | @start l n hl hn hnot =>
      refine FlowGraph.fromEntry_nil.2 ((hf.afterEntry_iff hls hl).2 ?_)
      cases n with
      | entry => exact hn
      | quad id => exact absurd rfl (hnot id)
      | exit => exact absurd hn (hf.farEnd_not_mem_incoming hls .forward hl)
    | step _ hstep ih =>
      rw [hfeeds] at hstep
      exact FlowGraph.fromEntry_concat.2 ⟨ih, hstep⟩
  · intro h
    induction path using List.reverseRecOn generalizing q with
    | nil =>
      have hentry := FlowGraph.fromEntry_nil.1 h
      obtain ⟨l, hl, rfl⟩ := FlowGraph.exists_location_of_quad hls hentry.1
      exact .start hl ((hf.afterEntry_iff hls hl).1 hentry) (fun id => by simp)
    | append_singleton path p ih =>
      obtain ⟨hpath, hnext⟩ := FlowGraph.fromEntry_concat.1 h
      refine (ih hpath).step ?_
      rw [hfeeds]
      exact hnext

theorem mem_input_iff_provenAlong {v : Valuation Register} {r : Register} (hf : f.graph.Coherent)
    (hls : f.locations = .ok ls) (hv : ((problem mode).scheme f ls).Greatest v)
    (hreach : ∀ q ∈ f.quads, ∃ path, f.graph.FromEntry path q) (hq : q ∈ f.quads) :
    r ∈ v .input q.id ↔ ∀ path, f.graph.FromEntry path q → r ∈ provenAlong mode path := by
  have hroutes : ∀ l ∈ ls, ∃ path, ((problem mode).scheme f ls).Route path l.quad := by
    intro l hl
    obtain ⟨path, hpath⟩ := hreach l.quad (FlowGraph.mem_quads_of_location hls hl)
    exact ⟨path, (route_iff hf hls).2 hpath⟩
  obtain ⟨l, hl, rfl⟩ := FlowGraph.exists_location_of_quad hls hq
  have hgiven := hv.mem_given (a := r) ((regular_problem mode f).scheme hf hls) rfl
    (distributes mode f ls) hroutes hl
  refine hgiven.trans (forall_congr' fun path => ?_)
  rw [route_iff hf hls]
  rfl

end NullCheck

/-- If every quad lies on a path from the entry, the null check solvers find in front of each quad
exactly the registers that every path there proves, and report exactly the checks of such
registers. Without an entry they refuse, and there are no quads then. -/
theorem null_check_facts_hold_on_all_paths {mode : NullCheck.Mode} {solver : Solver}
    (hs : solver.Checks mode) {f : Routine} (built : f.graph.Built)
    (hreach : ∀ q ∈ f.quads, ∃ path, f.graph.FromEntry path q) (level : Level) :
    (f.quads = [] ∧ f.graph.entry = none ∧
      (Solver.solve level f solver).result = .error (.graph .noEntry)) ∨
    ∃ ids, (Solver.solve level f solver).result = .ok ids ∧
      (∀ q ∈ f.quads, ∃ s, Solver.registers .input q.id (Solver.solve level f solver).state = .ok s ∧
        ∀ r, r ∈ s.facts ↔
          ∀ path, f.graph.FromEntry path q → r ∈ NullCheck.provenAlong mode path) ∧
      ∀ id, id ∈ ids ↔ ∃ q ∈ f.quads, q.id = id ∧ ∃ r, q.operation = .nullCheck r ∧
        ∀ path, f.graph.FromEntry path q → r ∈ NullCheck.provenAlong mode path := by
  have hf := built.coherent
  cases hls : f.locations with
  | error x =>
    obtain ⟨rfl, hentry⟩ := FlowGraph.locations_eq_error hls
    refine .inl ⟨List.eq_nil_iff_forall_not_mem.2 fun q hq => ?_, hentry,
      hs.solve_of_error hls level⟩
    obtain ⟨path, _, first, _, hfirst⟩ := hreach q hq
    obtain ⟨e, he⟩ := hf.exists_entry hfirst
    rw [hentry] at he
    cases he
  | ok ls =>
    obtain ⟨v, hv, hresult, _, hregisters⟩ := hs.solve_eq hf hls level
    have hinput : ∀ {q}, q ∈ f.quads → ∀ r, r ∈ v .input q.id ↔
        ∀ path, f.graph.FromEntry path q → r ∈ NullCheck.provenAlong mode path :=
      fun hq r => NullCheck.mem_input_iff_provenAlong hf hls hv hreach hq
    refine .inr ⟨_, hresult, fun q hq => ⟨_, hregisters .input q hq, hinput hq⟩, fun id => ?_⟩
    rw [NullCheck.mem_redundantChecks_iff hls hv.solves]
    refine exists_congr fun q => and_congr_right fun hq => and_congr_right fun _ => ?_
    exact exists_congr fun r => and_congr_right fun _ => hinput hq r

/-- However often control goes round the loop, the copy is proven where it is checked. -/
theorem copy_proven_on_all_paths_of_loop : ∃ g,
    FlowGraph.ofOutline FlowGraph.loopOutline = .ok g ∧
      (∀ q ∈ g.quads, ∃ path, g.FromEntry path q) ∧
      ∀ path, g.FromEntry path ⟨3, .nullCheck ⟨"y"⟩⟩ →
        ⟨"y"⟩ ∈ NullCheck.provenAlong .moveAware path := by
  obtain ⟨g, hg, hquads, hresult⟩ : ∃ g, FlowGraph.ofOutline FlowGraph.loopOutline = .ok g ∧
      g.quads = [⟨1, .nullCheck ⟨"x"⟩⟩, ⟨2, .move ⟨"y"⟩ (.register ⟨"x"⟩)⟩,
        ⟨3, .nullCheck ⟨"y"⟩⟩] ∧
      (Solver.solve .off ⟨"loop", [], g⟩
        (.edgeRegister (.ofProblem (NullCheck.problem .moveAware)))).result = .ok [3] :=
    ⟨_, rfl, rfl, by decide +kernel⟩
  obtain ⟨hentry, hin, hnext, _⟩ := FlowGraph.next_loopOutline hg
  have hfirst : g.FromEntry [] ⟨1, .nullCheck ⟨"x"⟩⟩ := FlowGraph.fromEntry_nil.2 hentry
  have hcopy := FlowGraph.fromEntry_concat.2 ⟨hfirst, hin⟩
  have hcheck := FlowGraph.fromEntry_concat.2 ⟨hcopy, hnext⟩
  have hreach : ∀ q ∈ g.quads, ∃ path, g.FromEntry path q := by
    rw [hquads]
    simp only [List.forall_mem_cons]
    exact ⟨⟨_, hfirst⟩, ⟨_, hcopy⟩, ⟨_, hcheck⟩, fun q hq => absurd hq List.not_mem_nil⟩
  refine ⟨g, hg, hreach, ?_⟩
  have hchecks : Solver.Checks .moveAware
      (.edgeRegister (.ofProblem (NullCheck.problem .moveAware))) := rfl
  rcases null_check_facts_hold_on_all_paths hchecks (f := ⟨"loop", [], g⟩)
      (FlowGraph.built_ofOutline hg) hreach .off with
    ⟨hnil, _⟩ | ⟨ids, hids, _, hreported⟩
  · exact absurd (hquads.symm.trans hnil) (List.cons_ne_nil _ _)
  · cases hids.symm.trans hresult
    obtain ⟨q, hq, hid, r, hop, hall⟩ := (hreported 3).1 List.mem_cons_self
    have hq : q ∈ g.quads := hq
    rw [hquads] at hq
    simp only [List.mem_cons, List.not_mem_nil, or_false] at hq
    rcases hq with rfl | rfl | rfl
    · cases hid
    · cases hid
    · cases hop
      exact hall

end Dataflow
