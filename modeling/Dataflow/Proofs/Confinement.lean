import Dataflow.Proofs.Convergence
import Dataflow.Proofs.EdgeStores
import Dataflow.Proofs.Underway

/-! # Values stay in the domain

Every step of a solver stores a value that is made from stored ones by meets and transfers. So no
value ever has facts from outside the domain that was fixed when the routine was prepared.
-/
namespace Dataflow

variable {α : Type} [Fact α]

theorem FactSet.Within.toTop_eq {domain : OrderedSet α} {c : Confluence} {s : FactSet α}
    (hs : s.Within domain c) : s.toTop = top domain c := by
  obtain ⟨rfl, rfl, _⟩ := hs
  rfl

/-- Reading values over a domain and meeting them one after the other. -/
theorem FactSet.Within.foldlM_meet {domain : OrderedSet α} {c : Confluence} {β : Type}
    {l : List β} {read : β → Except Error (FactSet α)} {s x : FactSet α} (hs : s.Within domain c)
    (hread : ∀ b y, read b = .ok y → y.Within domain c)
    (h : l.foldlM (fun met b => do return FactSet.meet met (← read b)) s = .ok x) :
    x.Within domain c := by
  induction l generalizing s with
  | nil =>
    cases h
    exact hs
  | cons b l ih =>
    obtain ⟨t, ht, h⟩ := bind_eq_ok.1 h
    obtain ⟨y, hy, ht⟩ := bind_eq_ok.1 ht
    cases ht
    exact ih (hs.meet (hread b y hy)) h

namespace Problem

variable {p : Problem α} {f : Routine}

/-- The value is one that the problem may have for the routine. -/
def Allows (p : Problem α) (f : Routine) (x : FactSet α) : Prop :=
  x.Within (p.frame f).domain p.confluence

theorem allows_top : p.Allows f (.top (p.frame f).domain p.confluence) := FactSet.within_top _ _

theorem Regular.allows_boundary (hp : p.Regular f) : p.Allows f (p.boundary (p.frame f)) := by
  refine ⟨?_, ?_, hp.boundary_subset⟩
  · rw [hp.boundary]
  · rw [hp.boundary]

theorem Regular.allows_transfer (hp : p.Regular f) {q : Quad} (hq : q ∈ f.quads) {x : FactSet α}
    (hx : p.Allows f x) : p.Allows f (x.onFacts ((p.frame f).transfer q)) :=
  ⟨hx.domain_eq, hx.confluence_eq, hp.closed hq hx.subset⟩

end Problem

namespace Engine

variable {σ τ : Type} {e : Engine σ τ α} {p : Problem α} {f : Routine} {C : σ → Prop}
  {a b : Analysis σ α} {x : FactSet α}

/-- What is read from stores of this kind is allowed, and writing what is allowed leaves one of
them. -/
structure Confines (e : Engine σ τ α) (p : Problem α) (f : Routine) (C : σ → Prop) : Prop where
  toward {a : Analysis σ α} {id : QuadId} {n : Neighbor} {x : FactSet α} : a.AtWork p f C →
    e.toward a id n = .ok x → p.Allows f x
  entry {a : Analysis σ α} {x : FactSet α} : a.AtWork p f C → e.entry a = .ok x → p.Allows f x
  exit {a : Analysis σ α} {x : FactSet α} : a.AtWork p f C → e.exit a = .ok x → p.Allows f x
  setEntry {a b : Analysis σ α} {x : FactSet α} : a.AtWork p f C → p.Allows f x →
    e.setEntry a x = .ok b → b.AtWork p f C
  setExit {a b : Analysis σ α} {x : FactSet α} : a.AtWork p f C → p.Allows f x →
    e.setExit a x = .ok b → b.AtWork p f C
  setGiven {a b : Analysis σ α} {id : QuadId} {x : FactSet α} : a.AtWork p f C → p.Allows f x →
    e.setGiven a id x = .ok b → b.AtWork p f C
  writes {d : Direction} {l : Location} {x : FactSet α}
    {write : Analysis σ α → Except Error (Analysis σ α)} {a b : Analysis σ α} :
    a.AtWork p f C → p.Allows f x → write ∈ e.writes d l x → write a = .ok b → b.AtWork p f C
  process {a b : Analysis σ α} {q : Quad} : a.AtWork p f C → q ∈ f.quads →
    e.process a q = .ok b → b.AtWork p f C

theorem allows_top (ha : a.AtWork p f C) : p.Allows f a.top := by
  rw [Analysis.top, ha.problem, ha.frame]
  exact Problem.allows_top

theorem allows_gather (ha : a.AtWork p f C) {β : Type} {l : List β}
    {read : β → Except Error (FactSet α)} (hread : ∀ b y, read b = .ok y → p.Allows f y)
    (h : a.gather l read = .ok x) : p.Allows f x := by
  obtain ⟨y, hy, h⟩ := bind_eq_ok.1 h
  rw [Analysis.toTop_of_scratch hy] at h
  exact (allows_top ha).foldlM_meet hread h

theorem Confines.farValue (he : e.Confines p f C) (ha : a.AtWork p f C) {ls : List Location}
    (h : e.farValue a ls = .ok x) : p.Allows f x := allows_gather ha (fun _ _ => he.toward ha) h

theorem Confines.advance (he : e.Confines p f C) (ha : a.AtWork p f C) (h : e.Advance f a b) :
    b.AtWork p f C := by
  cases h with
  | seed _ _ hwrite h => exact he.writes ha (allows_top ha) hwrite h
  | meet _ _ hx h =>
    refine he.setGiven ha (allows_gather ha (fun n y hy => ?_) hx) h
    exact Direction.of_inflow hy (he.toward ha) (he.entry ha) (he.exit ha)
  | process hls hl h => exact he.process ha (FlowGraph.mem_quads_of_location hls hl) h
  | exit _ _ hx h => exact he.setExit ha (he.farValue ha hx) h
  | entry _ _ hx h => exact he.setEntry ha (he.farValue ha hx) h

theorem Confines.underway (he : e.Confines p f C)
    (hprepare : ∀ {start}, (e.prepare f).Yields a () start → start.AtWork p f C)
    (h : e.Underway f a b) : b.AtWork p f C := by
  obtain ⟨start, hstart, h⟩ := h
  induction h with
  | refl => exact hprepare hstart
  | tail _ hstep ih => exact he.advance ih hstep

end Engine

namespace NodeStore

/-- All values are allowed, and every quad of the routine has one on each side. -/
structure Confined (p : Problem α) (f : Routine) (s : NodeStore (FactSet α)) : Prop where
  get {side : Side} {id : QuadId} {x : FactSet α} : s.get side id = .ok x → p.Allows f x
  known (side : Side) {q : Quad} : q ∈ f.quads → ∃ x, s.get side q.id = .ok x
  entry : p.Allows f s.entry
  exit : p.Allows f s.exit

variable {p : Problem α} {f : Routine} {s t : NodeStore (FactSet α)}

theorem confined_ofRoutine (hf : f.graph.Coherent) {initial boundary : FactSet α}
    (hinitial : p.Allows f initial) (hboundary : p.Allows f boundary) :
    (ofRoutine f initial boundary).Confined p f := by
  have hget {side : Side} {id : QuadId} : (ofRoutine f initial boundary).get side id =
      (QuadTable.ofRoutine f initial).get id := by cases side <;> rfl
  refine ⟨fun h => ?_, fun side q hq => ⟨initial, ?_⟩, hboundary, hboundary⟩
  · rw [hget, QuadTable.get_eq_ok, QuadTable.get?_ofRoutine hf] at h
    split at h
    · cases h
      exact hinitial
    · cases h
  · rw [hget]
    exact QuadTable.get_ofRoutine hf initial hq

theorem Confined.set (h : s.Confined p f) {side : Side} {id : QuadId} {x : FactSet α}
    (hx : p.Allows f x) (hset : s.set side id x = .ok t) : t.Confined p f := by
  obtain ⟨y, hy⟩ := exists_get_of_set hset
  obtain ⟨u, hu, hentry, hexit, hget⟩ := exists_set hy x
  cases hset.symm.trans hu
  refine ⟨fun {side' id' z} hz => ?_, fun side' q hq => ?_, hentry ▸ h.entry, hexit ▸ h.exit⟩
  · rw [hget] at hz
    split at hz
    · cases hz
      exact hx
    · exact h.get hz
  · rw [hget]
    split
    · exact ⟨x, rfl⟩
    · exact h.known side' hq

end NodeStore

namespace NodeAnalysis

variable {p : Problem α} {f : Routine} {a b : NodeAnalysis α}

/-- The analysis is at work on a routine, and its values are allowed there. -/
abbrev Confined (p : Problem α) (f : Routine) (a : NodeAnalysis α) : Prop :=
  a.AtWork p f (NodeStore.Confined p f)

theorem confined_prepare (hp : p.Regular f) (hf : f.graph.Coherent) (ha : a.problem = p) :
    (a.prepare f).Confined p f := by
  subst ha
  exact ⟨_, rfl, NodeStore.confined_ofRoutine hf Problem.allows_top hp.allows_boundary⟩

theorem Confined.get (ha : a.Confined p f) {side : Side} {id : QuadId} {x : FactSet α}
    (h : a.get side id = .ok x) : p.Allows f x := ha.of_read h fun hs => hs.get

theorem Confined.set (ha : a.Confined p f) {side : Side} {id : QuadId} {x : FactSet α}
    (hx : p.Allows f x) (h : a.set side id x = .ok b) : b.Confined p f :=
  ha.of_write h fun hs => hs.set hx

theorem confines_engine (hp : p.Regular f) : engine.Confines p f (NodeStore.Confined p f) where
  toward ha h := Confined.get ha h
  entry ha h := ha.of_read h fun hs h => Except.ok.inj h ▸ hs.entry
  exit ha h := ha.of_read h fun hs h => Except.ok.inj h ▸ hs.exit
  setEntry ha hx h := ha.of_write h fun hs h => by
    cases h
    exact ⟨hs.get, hs.known, hx, hs.exit⟩
  setExit ha hx h := ha.of_write h fun hs h => by
    cases h
    exact ⟨hs.get, hs.known, hs.entry, hx⟩
  setGiven ha hx h := Confined.set ha hx h
  writes ha hx hwrite h := by
    cases List.mem_singleton.1 hwrite
    exact Confined.set ha hx h
  process ha hq h := by
    obtain ⟨x, hx, h⟩ := bind_eq_ok.1 h
    rw [ha.frame] at h
    exact Confined.set ha (hp.allows_transfer hq (Confined.get ha hx)) h

/-- Every value that can be read is over this domain, joins in this way and has facts of the domain
only, and there is one for each side of each quad of the routine. -/
structure ValuesWithin (f : Routine) (domain : OrderedSet α) (c : Confluence)
    (a : NodeAnalysis α) : Prop where
  get {side : Side} {id : QuadId} {x : FactSet α} : a.get side id = .ok x → x.Within domain c
  known (side : Side) {q : Quad} : q ∈ f.quads → ∃ x, a.get side q.id = .ok x
  entry : ∃ x, a.entry = .ok x ∧ x.Within domain c
  exit : ∃ x, a.exit = .ok x ∧ x.Within domain c

theorem Confined.valuesWithin (ha : a.Confined p f) :
    a.ValuesWithin f (p.frame f).domain p.confluence := by
  have hget {side : Side} {id : QuadId} {x : FactSet α} (h : a.get side id = .ok x) :
      p.Allows f x := ha.get h
  obtain ⟨s, rfl, hs⟩ := ha
  exact ⟨hget, fun side q hq => hs.known side hq, ⟨s.entry, rfl, hs.entry⟩, s.exit, rfl, hs.exit⟩

/-- The domain is fixed when the routine is prepared, the parts of the solver move among the states
on the way, and in all of these the values stay in the domain. -/
structure StaysWithin (f : Routine) (domain : OrderedSet α) (c : Confluence)
    (a : NodeAnalysis α) : Prop where
  prepared : (a.prepare f).frame.domain = domain
  seed {ls : List Location} : f.locations = .ok ls → Run.Keeps (engine.Underway f a) (seed ls)
  visit {ls : List Location} {l : Location} : f.locations = .ok ls → l ∈ ls →
    ∀ level, Run.Keeps (engine.Underway f a) (visitAt level l)
  settle {ls : List Location} : f.locations = .ok ls →
    ∀ level, Run.Keeps (engine.Underway f a) (settle level ls)
  solve (level : Level) : engine.Underway f a (solve level f a).state
  within {b : NodeAnalysis α} : engine.Underway f a b →
    b.frame.domain = domain ∧ b.ValuesWithin f domain c

theorem staysWithin (hp : p.Regular f) (hf : f.graph.Coherent) (ha : a.problem = p) :
    a.StaysWithin f (p.frame f).domain p.confluence where
  prepared := by
    subst ha
    rfl
  seed := Engine.underway_seed steady_engine
  visit := Engine.underway_visitAt
  settle := Engine.underway_settle
  solve level := Engine.underway_solve steady_engine (Run.yields_change rfl) level
  within hb := by
    have hprepared := confined_prepare hp hf ha
    have hconfined : Confined p f _ :=
      (confines_engine hp).underway (fun hstart => hstart.state ▸ hprepared) hb
    exact ⟨by rw [hconfined.frame], hconfined.valuesWithin⟩

end NodeAnalysis

namespace EdgeStore

/-- All values are allowed, and every quad of the routine has one for some edge and one on its given
side. -/
structure Confined (p : Problem α) (f : Routine) (s : EdgeStore α) : Prop where
  direction : s.direction = p.direction
  top : p.Allows f s.top
  edge {id : QuadId} {m : OrderedMap Neighbor (FactSet α)} {n : Neighbor} {x : FactSet α} :
    s.edges.slots.get? id = some m → m.get? n = some x → p.Allows f x
  kept {q : Quad} : q ∈ f.quads → ∃ m n x, s.edges.slots.get? q.id = some m ∧ m.get? n = some x
  given {id : QuadId} {x : FactSet α} : s.unified.get id = .ok x → p.Allows f x
  known {q : Quad} : q ∈ f.quads → ∃ x, s.unified.get q.id = .ok x
  entry : p.Allows f s.entry
  exit : p.Allows f s.exit

variable {p : Problem α} {f : Routine} {ls : List Location} {s t : EdgeStore α} {w : Write α}
  {side : Side} {id : QuadId} {x : FactSet α}

theorem confined_ofRoutine (hf : f.graph.Coherent) (hls : f.locations = .ok ls)
    {initial boundary : FactSet α} (hinitial : p.Allows f initial)
    (hboundary : p.Allows f boundary) :
    (ofRoutine p.direction f ls initial boundary).Confined p f where
  direction := rfl
  top := by
    have htop : (ofRoutine p.direction f ls initial boundary).top = _ := hinitial.toTop_eq
    rw [htop]
    exact Problem.allows_top
  edge := by
    intro id m n x hm hx
    have hslots : (ofRoutine p.direction f ls initial boundary).edges.slots = .ofList
        (ls.map fun l => (l.id, EdgeTable.slotsFor (p.direction.outgoing l) p.direction.farEnd
          initial)) := by cases p.direction <;> rfl
    rw [hslots] at hm
    obtain ⟨l, _, heq⟩ := List.mem_map.1 (OrderedMap.mem_of_get?_ofList hm)
    obtain ⟨rfl, rfl⟩ := Prod.mk.inj heq
    rw [EdgeTable.get?_slotsFor] at hx
    split at hx
    · cases hx
      exact hinitial
    · cases hx
  kept := by
    intro q hq
    obtain ⟨l, hl, rfl⟩ := FlowGraph.exists_location_of_quad hls hq
    obtain ⟨m, hm, hslots⟩ := get?_ofRoutine hf hls p.direction initial boundary hl
    obtain ⟨n, hn⟩ := List.exists_mem_of_ne_nil _ (p.direction.slots_ne_nil l)
    exact ⟨m, n, initial, hm, by rw [hslots, if_pos hn]⟩
  given := by
    intro id x hx
    rw [QuadTable.get_eq_ok] at hx
    have hx := (QuadTable.get?_ofRoutine hf initial id).symm.trans hx
    split at hx
    · cases hx
      exact hinitial
    · cases hx
  known hq := ⟨initial, QuadTable.get_ofRoutine hf initial hq⟩
  entry := hboundary
  exit := hboundary

/-- An edge keeps its value or takes the one that is written. -/
theorem Write.onEdge_cases (w : Write α) (id : QuadId) (n : Neighbor) (old : Option (FactSet α)) :
    w.onEdge id n old = old ∨ w.onEdge id n old = some w.value := by
  cases w with
  | edge j m x =>
    by_cases h : j = id ∧ m = n
    · exact .inr (if_pos h)
    · exact .inl (if_neg h)
  | edges j x =>
    by_cases h : j = id
    · cases old with
      | none => exact .inl (if_pos h)
      | some y => exact .inr (if_pos h)
    · exact .inl (if_neg h)
  | given | entry | exit => exact .inl rfl

theorem Confined.step (hs : s.Confined p f) (hw : p.Allows f w.value) (h : Step w s t) :
    t.Confined p f where
  direction := h.direction.trans hs.direction
  top := h.top ▸ hs.top
  edge := by
    intro id m n x hm hx
    rw [h.edges] at hm
    obtain ⟨old, hold, rfl⟩ := Option.map_eq_some_iff.1 hm
    rw [Write.get?_onEdges] at hx
    rcases w.onEdge_cases id n (old.get? n) with heq | heq
    · exact hs.edge hold (heq ▸ hx)
    · cases heq.symm.trans hx
      exact hw
  kept := by
    intro q hq
    obtain ⟨m, n, x, hm, hx⟩ := hs.kept hq
    rcases w.onEdge_cases q.id n (m.get? n) with heq | heq
    · exact ⟨w.onEdges q.id m, n, x, by rw [h.edges, hm, Option.map_some],
        by rw [Write.get?_onEdges, heq, hx]⟩
    · exact ⟨w.onEdges q.id m, n, w.value, by rw [h.edges, hm, Option.map_some],
        by rw [Write.get?_onEdges, heq]⟩
  given := by
    intro id x hx
    rcases h.unified with heq | ⟨j, y, rfl, hset⟩
    · exact hs.given (heq ▸ hx)
    · rw [QuadTable.get_of_set hset] at hx
      split at hx
      · cases hx
        exact hw
      · exact hs.given hx
  known := by
    intro q hq
    rcases h.unified with heq | ⟨j, y, rfl, hset⟩
    · exact heq ▸ hs.known hq
    · rw [QuadTable.get_of_set hset]
      split
      · exact ⟨y, rfl⟩
      · exact hs.known hq
  entry := by
    rcases h.entry with heq | heq
    · exact heq ▸ hs.entry
    · rw [heq] at hw
      exact hw
  exit := by
    rcases h.exit with heq | heq
    · exact heq ▸ hs.exit
    · rw [heq] at hw
      exact hw

theorem exists_step_set {n : Neighbor} (h : s.set side id n x = .ok t) :
    ∃ w : Write α, w.value = x ∧ Step w s t := by
  by_cases hside : side = s.direction.solved
  · refine ⟨.edge id n x, rfl, ?_⟩
    have hstep := step_write (.edge id n x) s
    rw [hside] at h
    simpa only [write, Run.change, h] using hstep
  · unfold EdgeStore.set at h
    rw [if_neg hside] at h
    cases h

theorem exists_step_setAll (h : s.setAll side id x = .ok t) :
    ∃ w : Write α, w.value = x ∧ Step w s t := by
  rcases s.direction.eq_given_or_eq_solved side with hside | hside
  · refine ⟨.given id x, rfl, ?_⟩
    have hstep := step_write (.given id x) s
    rw [hside] at h
    simpa only [write, Run.change, h] using hstep
  · refine ⟨.edges id x, rfl, ?_⟩
    have hstep := step_write (.edges id x) s
    rw [hside] at h
    simpa only [write, Run.change, h] using hstep

theorem Confined.get (hs : s.Confined p f) {n : Neighbor} (h : s.get side id n = .ok x) :
    p.Allows f x := by
  unfold EdgeStore.get at h
  split at h
  · obtain ⟨m, hm, h⟩ := bind_eq_ok.1 h
    split at h
    · rename_i y hy
      cases h
      exact hs.edge (EdgeTable.edges_eq_ok.1 hm) hy
    · cases h
  · cases h

theorem Confined.getAll (hs : s.Confined p f) (h : s.getAll side id = .ok x) : p.Allows f x := by
  unfold EdgeStore.getAll at h
  split at h
  · obtain ⟨m, hm, h⟩ := bind_eq_ok.1 h
    cases h
    refine hs.top.foldl_meet fun y hy => ?_
    obtain ⟨n, hn⟩ := OrderedMap.mem_values_iff.1 hy
    exact hs.edge (EdgeTable.edges_eq_ok.1 hm) hn
  · exact hs.given h

theorem Confined.exists_get (hs : s.Confined p f) {q : Quad} (hq : q ∈ f.quads) :
    ∃ n x, s.get p.direction.solved q.id n = .ok x := by
  obtain ⟨m, n, x, hm, hx⟩ := hs.kept hq
  exact ⟨n, x, (get_solved_eq_ok hs.direction hm).2 hx⟩

theorem Confined.exists_getAll (hs : s.Confined p f) (side : Side) {q : Quad} (hq : q ∈ f.quads) :
    ∃ x, s.getAll side q.id = .ok x := by
  rcases s.direction.eq_given_or_eq_solved side with rfl | rfl
  · obtain ⟨x, hx⟩ := hs.known hq
    exact ⟨x, by rw [EdgeStore.getAll, if_neg s.direction.given_ne_solved, hx]⟩
  · obtain ⟨m, _, _, hm, _⟩ := hs.kept hq
    exact ⟨_, getAll_solved rfl hm⟩

end EdgeStore

namespace EdgeAnalysis

variable {p : Problem α} {f : Routine} {a b : EdgeAnalysis α}

/-- The analysis is at work on a routine, and its values are allowed there. -/
abbrev Confined (p : Problem α) (f : Routine) (a : EdgeAnalysis α) : Prop :=
  a.AtWork p f (EdgeStore.Confined p f)

theorem confined_prepare (hp : p.Regular f) (hf : f.graph.Coherent) (ha : a.problem = p)
    (h : (prepare f).Yields a () b) : b.Confined p f := by
  subst ha
  cases hls : f.locations with
  | error e =>
    have hresult : ((Run.ofExcept f.locations >>= _) _).result = Except.ok () := h.result
    rw [hls] at hresult
    cases hresult
  | ok ls =>
    obtain ⟨_, rfl⟩ := (yields_prepare hls a).unique h
    exact ⟨_, rfl, EdgeStore.confined_ofRoutine hf hls Problem.allows_top hp.allows_boundary⟩

theorem Confined.getAll (ha : a.Confined p f) {side : Side} {id : QuadId} {x : FactSet α}
    (h : a.getAll side id = .ok x) : p.Allows f x := ha.of_read h fun hs => hs.getAll

theorem Confined.get (ha : a.Confined p f) {side : Side} {id : QuadId} {n : Neighbor}
    {x : FactSet α} (h : a.get side id n = .ok x) : p.Allows f x := ha.of_read h fun hs => hs.get

theorem Confined.setAll (ha : a.Confined p f) {side : Side} {id : QuadId} {x : FactSet α}
    (hx : p.Allows f x) (h : a.setAll side id x = .ok b) : b.Confined p f :=
  ha.of_write h fun hs ht => by
    obtain ⟨w, rfl, hstep⟩ := EdgeStore.exists_step_setAll ht
    exact hs.step hx hstep

theorem confines_engine (hp : p.Regular f) : engine.Confines p f (EdgeStore.Confined p f) where
  toward ha h := Confined.get ha h
  entry ha h := ha.of_read h fun hs h => Except.ok.inj h ▸ hs.entry
  exit ha h := ha.of_read h fun hs h => Except.ok.inj h ▸ hs.exit
  setEntry {_ _ x} ha hx h := ha.of_write h fun {s t} hs h => by
    cases h
    exact hs.step (w := .entry x) hx (EdgeStore.step_write (.entry x) s)
  setExit {_ _ x} ha hx h := ha.of_write h fun {s t} hs h => by
    cases h
    exact hs.step (w := .exit x) hx (EdgeStore.step_write (.exit x) s)
  setGiven ha hx h := Confined.setAll ha hx h
  writes ha hx hwrite h := by
    obtain ⟨n, _, rfl⟩ := List.mem_map.1 hwrite
    refine ha.of_write h fun hs ht => ?_
    obtain ⟨w, rfl, hstep⟩ := EdgeStore.exists_step_set ht
    exact hs.step hx hstep
  process ha hq h := by
    obtain ⟨x, hx, h⟩ := bind_eq_ok.1 h
    obtain ⟨d, hd, h⟩ := bind_eq_ok.1 h
    rw [ha.frame, hp.departures] at h
    cases h
    rw [ha.frame] at hd
    exact Confined.setAll ha (hp.allows_transfer hq (Confined.getAll ha hx)) hd

/-- Every value that can be read is over this domain, joins in this way and has facts of the domain
only, and there is one for each side of each quad of the routine, and for some edge of it. -/
structure ValuesWithin (f : Routine) (domain : OrderedSet α) (c : Confluence)
    (a : EdgeAnalysis α) : Prop where
  get {side : Side} {id : QuadId} {n : Neighbor} {x : FactSet α} :
    a.get side id n = .ok x → x.Within domain c
  getAll {side : Side} {id : QuadId} {x : FactSet α} : a.getAll side id = .ok x → x.Within domain c
  kept {q : Quad} : q ∈ f.quads → ∃ n x, a.get a.direction.solved q.id n = .ok x
  known (side : Side) {q : Quad} : q ∈ f.quads → ∃ x, a.getAll side q.id = .ok x
  entry : ∃ x, a.entry = .ok x ∧ x.Within domain c
  exit : ∃ x, a.exit = .ok x ∧ x.Within domain c

theorem Confined.valuesWithin (ha : a.Confined p f) :
    a.ValuesWithin f (p.frame f).domain p.confluence := by
  have hget {side : Side} {id : QuadId} {n : Neighbor} {x : FactSet α}
      (h : a.get side id n = .ok x) : p.Allows f x := ha.get h
  have hgetAll {side : Side} {id : QuadId} {x : FactSet α} (h : a.getAll side id = .ok x) :
      p.Allows f x := ha.getAll h
  obtain ⟨s, rfl, hs⟩ := ha
  exact ⟨hget, hgetAll, fun hq => hs.exists_get hq, fun side q hq => hs.exists_getAll side hq,
    ⟨s.entry, rfl, hs.entry⟩, s.exit, rfl, hs.exit⟩

/-- The domain is fixed when the routine is prepared, the parts of the solver move among the states
on the way, and in all of these the values stay in the domain. -/
structure StaysWithin (f : Routine) (domain : OrderedSet α) (c : Confluence)
    (a : EdgeAnalysis α) : Prop where
  prepared {b : EdgeAnalysis α} : (prepare f).Yields a () b → b.frame.domain = domain
  seed {ls : List Location} : f.locations = .ok ls → Run.Keeps (engine.Underway f a) (seed ls)
  visit {ls : List Location} {l : Location} : f.locations = .ok ls → l ∈ ls →
    ∀ level, Run.Keeps (engine.Underway f a) (visitAt level l)
  settle {ls : List Location} : f.locations = .ok ls →
    ∀ level, Run.Keeps (engine.Underway f a) (settle level ls)
  solve {ls : List Location} : f.locations = .ok ls →
    ∀ level, engine.Underway f a (solve level f a).state
  within {b : EdgeAnalysis α} : engine.Underway f a b →
    b.frame.domain = domain ∧ b.ValuesWithin f domain c

theorem staysWithin (hp : p.Regular f) (hf : f.graph.Coherent) (ha : a.problem = p) :
    a.StaysWithin f (p.frame f).domain p.confluence where
  prepared hb := by rw [(confined_prepare hp hf ha hb).frame]
  seed := Engine.underway_seed steady_engine
  visit := Engine.underway_visitAt
  settle := Engine.underway_settle
  solve hls level := Engine.underway_solve steady_engine (yields_prepare hls a) level
  within hb := by
    have hconfined : Confined p f _ :=
      (confines_engine hp).underway (confined_prepare hp hf ha) hb
    exact ⟨by rw [hconfined.frame], hconfined.valuesWithin⟩

end EdgeAnalysis

namespace Routine

/-- The register is a parameter, or a quad writes or reads it. -/
def Mentions (f : Routine) (r : Register) : Prop :=
  r ∈ f.parameters ∨ ∃ q ∈ f.quads, r ∈ q.defined ∨ r ∈ q.used

/-- The quad writes a register. -/
def Defines (f : Routine) (id : QuadId) : Prop := ∃ q ∈ f.quads, q.id = id ∧ q.defined ≠ []

/-- Some quad reads the register. -/
def Uses (f : Routine) (r : Register) : Prop := ∃ q ∈ f.quads, r ∈ q.used

variable {f : Routine}

theorem mem_mentioned_iff {r : Register} : r ∈ NullCheck.mentioned f ↔ f.Mentions r := by
  simp [NullCheck.mentioned, Mentions, OrderedSet.mem_ofList]

theorem mem_definitions_iff {id : QuadId} :
    id ∈ (ReachingDefinition.Definitions.ofRoutine f).all ↔ f.Defines id := by
  simp only [ReachingDefinition.Definitions.mem_all_ofRoutine, Defines, eq_comm]

theorem mem_used_iff {r : Register} :
    r ∈ OrderedSet.ofList (f.quads.flatMap Quad.used) ↔ f.Uses r := by
  simp [Uses, OrderedSet.mem_ofList]

end Routine

/-- From the time a routine has been prepared until it is solved, every value that an analysis of
the library stores is over the domain fixed at the start, joins as the analysis joins and has facts
of the domain only. The domain is made of the registers that the routine mentions for null checks,
of the quads that define a register for reaching definitions, and of the registers that are used for
live variables. -/
theorem stored_facts_stay_in_domain {f : Routine} (hf : f.graph.Built) :
    (∀ (mode : NullCheck.Mode) (a : NodeAnalysis Register),
      a.problem = NullCheck.guardedProblem mode →
        ∃ domain, (∀ r, r ∈ domain ↔ f.Mentions r) ∧ a.StaysWithin f domain .must) ∧
    (∀ (mode : NullCheck.Mode) (a : EdgeAnalysis Register), a.problem = NullCheck.problem mode →
        ∃ domain, (∀ r, r ∈ domain ↔ f.Mentions r) ∧ a.StaysWithin f domain .must) ∧
    (∀ a : NodeAnalysis QuadId, a.problem = ReachingDefinition.problem →
        ∃ domain, (∀ id, id ∈ domain ↔ f.Defines id) ∧ a.StaysWithin f domain .may) ∧
    (∀ a : EdgeAnalysis QuadId, a.problem = ReachingDefinition.problem →
        ∃ domain, (∀ id, id ∈ domain ↔ f.Defines id) ∧ a.StaysWithin f domain .may) ∧
    ∀ a : NodeAnalysis Register, a.problem = LiveVariable.problem →
        ∃ domain, (∀ r, r ∈ domain ↔ f.Uses r) ∧ a.StaysWithin f domain .may := by
  have hf := hf.coherent
  refine ⟨fun mode a ha => ?_, fun mode a ha => ?_, fun a ha => ?_, fun a ha => ?_, fun a ha => ?_⟩
  · exact ⟨_, fun r => Routine.mem_mentioned_iff,
      NodeAnalysis.staysWithin (NullCheck.regular_guardedProblem mode f) hf ha⟩
  · exact ⟨_, fun r => Routine.mem_mentioned_iff,
      EdgeAnalysis.staysWithin (NullCheck.regular_problem mode f) hf ha⟩
  · exact ⟨_, fun id => Routine.mem_definitions_iff,
      NodeAnalysis.staysWithin (ReachingDefinition.regular_problem f) hf ha⟩
  · exact ⟨_, fun id => Routine.mem_definitions_iff,
      EdgeAnalysis.staysWithin (ReachingDefinition.regular_problem f) hf ha⟩
  · exact ⟨_, fun r => Routine.mem_used_iff,
      NodeAnalysis.staysWithin (LiveVariable.regular_problem f) hf ha⟩

/-- Around the loop, the value over all edges behind the check of the copy is made of the parameter
and of the two registers that occur. -/
theorem check_of_copy_within_mentioned : ∃ g, FlowGraph.ofOutline FlowGraph.loopOutline = .ok g ∧
    ∃ x, EdgeAnalysis.getAll (EdgeAnalysis.solve .off ⟨"f", [⟨"z"⟩], g⟩
        (.ofProblem (NullCheck.problem .moveAware))).state .output 3 = .ok x ∧
      x.confluence = .must ∧ (∀ r, r ∈ x.domain ↔ r ∈ ([⟨"x"⟩, ⟨"y"⟩, ⟨"z"⟩] : List Register)) ∧
      x.facts ⊆ x.domain := by
  obtain ⟨g, hg, ls, hls, hquads⟩ : ∃ g, FlowGraph.ofOutline FlowGraph.loopOutline = .ok g ∧
      ∃ ls, (⟨"f", [⟨"z"⟩], g⟩ : Routine).locations = .ok ls ∧
        g.quads = [⟨1, .nullCheck ⟨"x"⟩⟩, ⟨2, .move ⟨"y"⟩ (.register ⟨"x"⟩)⟩,
          ⟨3, .nullCheck ⟨"y"⟩⟩] := ⟨_, rfl, _, rfl, rfl⟩
  obtain ⟨_, hedge, _⟩ := stored_facts_stay_in_domain (f := ⟨"f", [⟨"z"⟩], g⟩)
    (FlowGraph.built_ofOutline hg)
  obtain ⟨domain, hdomain, hstays⟩ :=
    hedge .moveAware (.ofProblem (NullCheck.problem .moveAware)) rfl
  obtain ⟨_, hvalues⟩ := hstays.within (hstays.solve hls .off)
  have hmem : (⟨3, .nullCheck ⟨"y"⟩⟩ : Quad) ∈ (⟨"f", [⟨"z"⟩], g⟩ : Routine).quads := by
    simp [Routine.quads, hquads]
  obtain ⟨x, hx⟩ := hvalues.known .output hmem
  obtain ⟨hxdomain, hxconfluence, hxsubset⟩ := hvalues.getAll hx
  refine ⟨g, hg, x, hx, hxconfluence, fun r => ?_, hxdomain ▸ hxsubset⟩
  rw [hxdomain, hdomain]
  simp [Routine.Mentions, Routine.quads, hquads, Quad.defined, Quad.used, Operation.defined,
    Operation.used, Operation.dst?, Operand.register?, eq_comm (b := r), or_assoc, or_comm,
    or_left_comm]

end Dataflow
