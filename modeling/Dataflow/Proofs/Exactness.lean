import Dataflow.Proofs.Carrying
import Dataflow.Proofs.Coherence
import Dataflow.Proofs.Problems
import Dataflow.Query

/-! # May-problems are exact

A definition reaches a quad if and only if some path of quads leads there on which its register
is not written again, and a register is live in front of a quad if and only if some path from
there reads it before it is written. The paths may lie where control never comes from the
entry.
-/
namespace Dataflow

/-- The analysis gives these facts on either side of every quad. -/
def NodeAnalysis.Reads {α : Type} [Fact α] (f : Routine) (v : Valuation α) (a : NodeAnalysis α) :
    Prop := ∀ side, ∀ q ∈ f.quads, ∃ s, a.get side q.id = .ok s ∧ s.facts = v side q.id

section Solve

variable {α : Type} [Fact α] {p : Problem α} {f : Routine} {ls : List Location}

theorem NodeAnalysis.Settled.reads {v : Valuation α} {a : NodeAnalysis α}
    (h : a.Settled p f ls v) (hls : f.locations = .ok ls) : a.Reads f v := by
  intro side q hq
  obtain ⟨l, hl, rfl⟩ := FlowGraph.exists_location_of_quad hls hq
  exact ⟨_, h.holds.get side hl, rfl⟩

theorem Query.exists_solved {found : Valuation α → List QuadId} (hp : p.Regular f)
    (hc : p.Concludes f found) (hf : f.graph.Coherent) (hls : f.locations = .ok ls) :
    ∃ a v, solved p f = .ok a ∧ (p.scheme f ls).Greatest v ∧ a.Settled p f ls v := by
  obtain ⟨v, hv, hsettled, hresult⟩ :=
    NodeAnalysis.solve_eq hp hc hf hls (a := .ofProblem p) rfl .off
  refine ⟨_, v, ?_, hv, hsettled⟩
  show (NodeAnalysis.solve .off f (.ofProblem p)).result.map _ = _
  rw [hresult]
  rfl

end Solve

theorem Quad.defined_unique {q : Quad} {r s : Register} (hr : r ∈ q.defined) (hs : s ∈ q.defined) :
    r = s := by
  unfold Quad.defined Operation.defined at hr hs
  rw [Option.mem_toList] at hr hs
  exact Option.mem_unique hr hs

namespace ReachingDefinition

variable {f : Routine} {ls : List Location} {id : QuadId} {q : Quad} {r : Register}

def Adds (q : Quad) (id : QuadId) : Prop := id = q.id ∧ q.defined ≠ []

def Stops (f : Routine) (q : Quad) (id : QuadId) : Prop :=
  ∃ r ∈ q.defined, id ∈ (Definitions.ofRoutine f).sitesOf r

theorem sifts (f : Routine) (ls : List Location) :
    (problem.scheme f ls).Sifts Adds (Stops f) where
  confluence := rfl
  boundary := OrderedSet.not_mem_empty
  mem_transfer {l} _ {s id} := by
    refine Definitions.mem_transfer.trans (or_comm.trans (or_congr_right ?_))
    unfold Stops
    simp only [not_exists, not_and]

/-- Grouped by register over the whole routine, the sites stop a definition where its own
register is written. -/
theorem stops_iff (hf : f.graph.Coherent) {d : Quad} (hd : d ∈ f.quads) (hr : r ∈ d.defined) :
    Stops f q d.id ↔ r ∈ q.defined := by
  constructor
  · rintro ⟨s, hs, hid⟩
    obtain ⟨d', hd', hid, hs'⟩ := Definitions.mem_sitesOf_ofRoutine.1 hid
    cases List.inj_on_of_nodup_map hf.quad_ids_nodup hd hd' hid
    exact Quad.defined_unique hr hs' ▸ hs
  · intro h
    exact ⟨r, h, Definitions.mem_sitesOf_ofRoutine.2 ⟨d, hd, rfl, hr⟩⟩

/-- What is carried is a definition on a path that does not write its register again. -/
theorem carries_iff (hf : f.graph.Coherent) (hls : f.locations = .ok ls) :
    (problem.scheme f ls).Carries Adds (Stops f) q id ↔
      ∃ d ∈ f.quads, d.id = id ∧ ∃ r ∈ d.defined, ∃ tail, (d :: tail).IsChain f.graph.Next ∧
        (∀ m ∈ tail, r ∉ m.defined) ∧ (d :: tail).getLast? = some q := by
  have hfeeds : (problem.scheme f ls).Feeds = f.graph.Next := Problem.feeds_eq hf hls
  rw [Scheme.carries_iff_isChain, hfeeds]
  constructor
  · rintro ⟨l, hl, ⟨rfl, hdef⟩, tail, hchain, hnot, hlast⟩
    have hd := FlowGraph.mem_quads_of_location hls hl
    obtain ⟨r, hr⟩ := List.exists_mem_of_ne_nil _ hdef
    exact ⟨l.quad, hd, rfl, r, hr, tail, hchain,
      fun m hm hm' => hnot m hm ((stops_iff hf hd hr).2 hm'), hlast⟩
  · rintro ⟨d, hd, rfl, r, hr, tail, hchain, hnot, hlast⟩
    obtain ⟨l, hl, rfl⟩ := FlowGraph.exists_location_of_quad hls hd
    exact ⟨l, hl, ⟨rfl, List.ne_nil_of_mem hr⟩, tail, hchain,
      fun m hm hm' => hnot m hm ((stops_iff hf hd hr).1 hm'), hlast⟩

variable {v : Valuation QuadId}

theorem mem_input (hf : f.graph.Coherent) (hls : f.locations = .ok ls)
    (hv : (problem.scheme f ls).Greatest v) (hq : q ∈ f.quads) :
    id ∈ v .input q.id ↔ ∃ d ∈ f.quads, d.id = id ∧ ∃ r ∈ d.defined, ∃ mids : List Quad,
      (d :: (mids ++ [q])).IsChain f.graph.Next ∧ ∀ m ∈ mids, r ∉ m.defined := by
  have hE := (regular_problem f).scheme hf hls
  have hfeeds : (problem.scheme f ls).Feeds = f.graph.Next := Problem.feeds_eq hf hls
  obtain ⟨l, hl, rfl⟩ := FlowGraph.exists_location_of_quad hls hq
  have hgiven : id ∈ v .input l.quad.id ↔
      ∃ p, f.graph.Next p l.quad ∧ id ∈ v .output p.id := by
    rw [← hfeeds]
    exact (sifts f ls).mem_given hE hv.solves hl
  have hcarries : ∀ {p}, f.graph.Next p l.quad →
      (id ∈ v .output p.id ↔ (problem.scheme f ls).Carries Adds (Stops f) p id) := by
    intro p hp
    obtain ⟨k, hk, rfl⟩ := FlowGraph.exists_location_of_quad hls hp.1
    exact (sifts f ls).mem_solved hE hv hk
  rw [hgiven]
  constructor
  · rintro ⟨p, hp, hid⟩
    obtain ⟨d, hd, hdid, r, hr, mids, hchain, hnot, hlast⟩ :=
      (carries_iff hf hls).1 ((hcarries hp).1 hid)
    exact ⟨d, hd, hdid, r, hr, mids, isChain_cons_concat.2 ⟨hchain, p, hlast, hp⟩, hnot⟩
  · rintro ⟨d, hd, hdid, r, hr, mids, hchain, hnot⟩
    obtain ⟨hchain, p, hlast, hp⟩ := isChain_cons_concat.1 hchain
    exact ⟨p, hp, (hcarries hp).2
      ((carries_iff hf hls).2 ⟨d, hd, hdid, r, hr, mids, hchain, hnot, hlast⟩)⟩

theorem mem_exitValue (hf : f.graph.Coherent) (hls : f.locations = .ok ls)
    (hv : (problem.scheme f ls).Greatest v) :
    id ∈ (problem.scheme f ls).exitValue v ↔ ∃ d ∈ f.quads, d.id = id ∧ ∃ r ∈ d.defined,
      ∃ tail, (d :: tail).IsChain f.graph.Next ∧ (∀ m ∈ tail, r ∉ m.defined) ∧
        ∃ last, (d :: tail).getLast? = some last ∧ f.graph.BeforeExit last := by
  have hE := (regular_problem f).scheme hf hls
  refine ((sifts f ls).mem_farValue hE hv).trans ?_
  constructor
  · rintro ⟨l, hl, hexit, hcarries⟩
    obtain ⟨d, hd, hdid, r, hr, tail, hchain, hnot, hlast⟩ := (carries_iff hf hls).1 hcarries
    exact ⟨d, hd, hdid, r, hr, tail, hchain, hnot, l.quad, hlast,
      (hf.beforeExit_iff hls hl).2 hexit⟩
  · rintro ⟨d, hd, hdid, r, hr, tail, hchain, hnot, last, hlast, hexit⟩
    obtain ⟨l, hl, rfl⟩ := FlowGraph.exists_location_of_quad hls hexit.1
    exact ⟨l, hl, (hf.beforeExit_iff hls hl).1 hexit,
      (carries_iff hf hls).2 ⟨d, hd, hdid, r, hr, tail, hchain, hnot, hlast⟩⟩

end ReachingDefinition

/-- A definition is found in front of a quad, or at the exit, if and only if a path leads there
on which no later quad writes the same register. -/
theorem reaching_definitions_are_exact {f : Routine} (built : f.graph.Built) {e : BlockIndex}
    (hentry : f.graph.entry = some e) :
    ∃ a v, Query.solved ReachingDefinition.problem f = .ok a ∧ a.Reads f v ∧
      (∀ q ∈ f.quads, ∀ id, id ∈ v .input q.id ↔
        ∃ d ∈ f.quads, d.id = id ∧ ∃ r ∈ d.defined, ∃ mids : List Quad,
          (d :: (mids ++ [q])).IsChain f.graph.Next ∧ ∀ m ∈ mids, r ∉ m.defined) ∧
      ∃ x, a.exit = .ok x ∧ ∀ id, id ∈ x.facts ↔
        ∃ d ∈ f.quads, d.id = id ∧ ∃ r ∈ d.defined, ∃ tail : List Quad,
          (d :: tail).IsChain f.graph.Next ∧ (∀ m ∈ tail, r ∉ m.defined) ∧
            ∃ last, (d :: tail).getLast? = some last ∧ f.graph.BeforeExit last := by
  have hf := built.coherent
  obtain ⟨ls, hls⟩ := FlowGraph.exists_locations_of_entry hentry
  obtain ⟨a, v, ha, hv, hsettled⟩ := Query.exists_solved (ReachingDefinition.regular_problem f)
    (ReachingDefinition.concludes_problem f) hf hls
  exact ⟨a, v, ha, hsettled.reads hls,
    fun q hq id => ReachingDefinition.mem_input hf hls hv hq, _, hsettled.exit,
    fun id => ReachingDefinition.mem_exitValue hf hls hv⟩

/-- Around the loop the copy reaches itself. -/
theorem copy_reaches_itself_around_loop : ∃ g a s,
    FlowGraph.ofOutline FlowGraph.loopOutline = .ok g ∧ g.entry = some 0 ∧
      Query.solved ReachingDefinition.problem ⟨"loop", [], g⟩ = .ok a ∧
      a.get .input 2 = .ok s ∧ 2 ∈ s.facts := by
  obtain ⟨g, hg⟩ : ∃ g, FlowGraph.ofOutline FlowGraph.loopOutline = .ok g := ⟨_, rfl⟩
  have hentry : g.entry = some 0 := by cases hg; rfl
  obtain ⟨a, v, ha, hreads, hinput, _⟩ := reaching_definitions_are_exact
    (f := ⟨"loop", [], g⟩) (FlowGraph.built_ofOutline hg) hentry
  obtain ⟨_, _, hnext, hback⟩ := FlowGraph.next_loopOutline hg
  obtain ⟨s, hs, hfacts⟩ := hreads .input _ hnext.1
  refine ⟨g, a, s, hg, hentry, ha, hs, ?_⟩
  rw [hfacts]
  refine (hinput _ hnext.1 2).2 ⟨_, hnext.1, rfl, ⟨"y"⟩, List.mem_cons_self,
    [⟨3, .nullCheck ⟨"y"⟩⟩], .cons_cons hnext (.cons_cons hback (.singleton _)), ?_⟩
  simp [Quad.defined, Operation.defined, Operation.dst?]

namespace LiveVariable

variable {f : Routine} {ls : List Location} {q : Quad} {r : Register} {v : Valuation Register}

theorem sifts (f : Routine) (ls : List Location) :
    (problem.scheme f ls).Sifts (fun q r => r ∈ q.used) (fun q r => r ∈ q.defined) where
  confluence := rfl
  boundary := OrderedSet.not_mem_empty
  mem_transfer _ := mem_transfer

/-- What is carried against the flow of control is read at the end of a path that does not
write it before. -/
theorem carries_iff (hf : f.graph.Coherent) (hls : f.locations = .ok ls) (hq : q ∈ f.quads) :
    (problem.scheme f ls).Carries (fun q r => r ∈ q.used) (fun q r => r ∈ q.defined) q r ↔
      ∃ path last, (path ++ [last]).IsChain f.graph.Next ∧
        (path ++ [last]).head? = some q ∧ r ∈ last.used ∧ ∀ m ∈ path, r ∉ m.defined := by
  have hfeeds : (problem.scheme f ls).Feeds = fun p q => f.graph.Next q p :=
    Problem.feeds_eq hf hls
  rw [Scheme.carries_iff_isChain, hfeeds]
  constructor
  · rintro ⟨l, hl, hused, tail, hchain, hnot, hlast⟩
    refine ⟨tail.reverse, l.quad, ?_, ?_, hused, fun m hm => hnot m (List.mem_reverse.1 hm)⟩
    · rw [← List.reverse_cons, List.isChain_reverse]
      exact hchain
    · rw [← List.reverse_cons, List.head?_reverse]
      exact hlast
  · rintro ⟨path, last, hchain, hhead, hused, hnot⟩
    have hmem : last ∈ f.quads := by
      obtain ⟨tail, htail⟩ := List.head?_eq_some_iff.1 hhead
      rw [htail] at hchain
      refine FlowGraph.mem_quads_of_isChain hchain hq last ?_
      rw [← htail]
      exact List.mem_append_right path List.mem_cons_self
    have hreverse : (last :: path.reverse).reverse = path ++ [last] := by simp
    rw [← hreverse] at hchain hhead
    obtain ⟨l, hl, rfl⟩ := FlowGraph.exists_location_of_quad hls hmem
    exact ⟨l, hl, hused, path.reverse, List.isChain_reverse.1 hchain,
      fun m hm => hnot m (List.mem_reverse.1 hm), by rw [← List.head?_reverse]; exact hhead⟩

theorem mem_input (hf : f.graph.Coherent) (hls : f.locations = .ok ls)
    (hv : (problem.scheme f ls).Greatest v) (hq : q ∈ f.quads) :
    r ∈ v .input q.id ↔ ∃ path last, (path ++ [last]).IsChain f.graph.Next ∧
      (path ++ [last]).head? = some q ∧ r ∈ last.used ∧ ∀ m ∈ path, r ∉ m.defined := by
  obtain ⟨l, hl, rfl⟩ := FlowGraph.exists_location_of_quad hls hq
  rw [← carries_iff hf hls hq]
  exact (sifts f ls).mem_solved ((regular_problem f).scheme hf hls) hv hl

theorem mem_output (hf : f.graph.Coherent) (hls : f.locations = .ok ls)
    (hv : (problem.scheme f ls).Greatest v) (hq : q ∈ f.quads) :
    r ∈ v .output q.id ↔ ∃ s, f.graph.Next q s ∧ r ∈ v .input s.id := by
  have hfeeds : (problem.scheme f ls).Feeds = fun p q => f.graph.Next q p :=
    Problem.feeds_eq hf hls
  obtain ⟨l, hl, rfl⟩ := FlowGraph.exists_location_of_quad hls hq
  have hgiven := (sifts f ls).mem_given (a := r) ((regular_problem f).scheme hf hls) hv.solves hl
  rw [hfeeds] at hgiven
  exact hgiven

theorem mem_entryValue (hf : f.graph.Coherent) (hls : f.locations = .ok ls) :
    r ∈ (problem.scheme f ls).entryValue v ↔ ∃ q, f.graph.AfterEntry q ∧ r ∈ v .input q.id := by
  refine (Scheme.mem_farValue_may rfl).trans ?_
  constructor
  · rintro ⟨l, hl, hentry, hr⟩
    exact ⟨l.quad, (hf.afterEntry_iff hls hl).2 hentry, hr⟩
  · rintro ⟨q, hentry, hr⟩
    obtain ⟨l, hl, rfl⟩ := FlowGraph.exists_location_of_quad hls hentry.1
    exact ⟨l, hl, (hf.afterEntry_iff hls hl).1 hentry, hr⟩

end LiveVariable

/-- A register is live in front of a quad if and only if some path from there reads it before
it is written, live behind a quad if and only if it is live in front of a successor, and live at
the entry if and only if it is live in front of a quad right after the entry. -/
theorem live_variables_are_exact {f : Routine} (built : f.graph.Built) {e : BlockIndex}
    (hentry : f.graph.entry = some e) :
    ∃ a v, Query.solved LiveVariable.problem f = .ok a ∧ a.Reads f v ∧
      (∀ q ∈ f.quads, ∀ r, r ∈ v .input q.id ↔
        ∃ path last, (path ++ [last]).IsChain f.graph.Next ∧ (path ++ [last]).head? = some q ∧
          r ∈ last.used ∧ ∀ m ∈ path, r ∉ m.defined) ∧
      (∀ q ∈ f.quads, ∀ r, r ∈ v .output q.id ↔ ∃ s, f.graph.Next q s ∧ r ∈ v .input s.id) ∧
      ∃ x, a.entry = .ok x ∧ ∀ r, r ∈ x.facts ↔
        ∃ q, f.graph.AfterEntry q ∧ r ∈ v .input q.id := by
  have hf := built.coherent
  obtain ⟨ls, hls⟩ := FlowGraph.exists_locations_of_entry hentry
  obtain ⟨a, v, ha, hv, hsettled⟩ := Query.exists_solved (LiveVariable.regular_problem f)
    (LiveVariable.concludes_problem f) hf hls
  exact ⟨a, v, ha, hsettled.reads hls, fun q hq r => LiveVariable.mem_input hf hls hv hq,
    fun q hq r => LiveVariable.mem_output hf hls hv hq, _, hsettled.entry,
    fun r => LiveVariable.mem_entryValue hf hls⟩

/-- Behind the check of the copy its source is still live, since the loop copies it again. -/
theorem source_live_around_loop : ∃ g a s,
    FlowGraph.ofOutline FlowGraph.loopOutline = .ok g ∧ g.entry = some 0 ∧
      Query.solved LiveVariable.problem ⟨"loop", [], g⟩ = .ok a ∧
      a.get .output 3 = .ok s ∧ ⟨"x"⟩ ∈ s.facts := by
  obtain ⟨g, hg⟩ : ∃ g, FlowGraph.ofOutline FlowGraph.loopOutline = .ok g := ⟨_, rfl⟩
  have hentry : g.entry = some 0 := by cases hg; rfl
  obtain ⟨a, v, ha, hreads, hinput, houtput, _⟩ := live_variables_are_exact
    (f := ⟨"loop", [], g⟩) (FlowGraph.built_ofOutline hg) hentry
  obtain ⟨_, _, _, hback⟩ := FlowGraph.next_loopOutline hg
  have hlive : ⟨"x"⟩ ∈ v .input 2 := (hinput _ hback.2.1 _).2
    ⟨[], _, .singleton _, rfl, List.mem_cons_self, fun _ hm => absurd hm List.not_mem_nil⟩
  obtain ⟨s, hs, hfacts⟩ := hreads .output _ hback.1
  refine ⟨g, a, s, hg, hentry, ha, hs, ?_⟩
  rw [hfacts]
  exact (houtput _ hback.1 _).2 ⟨_, hback, hlive⟩

end Dataflow
