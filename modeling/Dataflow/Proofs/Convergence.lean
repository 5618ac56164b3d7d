import Dataflow.Proofs.FixedPoints

/-! # Passes that report no change

A pass compares the solved values only, and each meet on its way sees some values that have been
visited and some that have not. That is enough, whatever the values were at the start: if no
compared value moves, no meet moves either, so the pass leaves a solution of the equations behind
and the next one finds nothing to do.
-/
namespace Dataflow

variable {α : Type} [Fact α]

namespace Scheme

variable {E : Scheme α} {v : Valuation α} {w : EdgeValuation α} {l k : Location}
  {ls : List Location}

/-- A visit changes nothing where the equations hold. -/
theorem SolvesAt.step_eq (h : E.SolvesAt v l) : E.step v l = v := by
  funext side id
  by_cases hid : id = l.id
  · rw [hid]
    rcases E.direction.eq_given_or_eq_solved side with rfl | rfl
    · rw [step_given, h.1]
    · rw [step_solved, h.2, h.1]
  · exact step_other hid

theorem Solves.sweep_eq (h : E.Solves v) (hls : ∀ l ∈ ls, l ∈ E.locations)
    (watched : Location → Bool) : E.sweep v ls = v ∧ E.stirsAny watched v ls = false := by
  induction ls with
  | nil => exact ⟨rfl, rfl⟩
  | cons l ls ih =>
    have hstep := (h l (hls l List.mem_cons_self)).step_eq
    obtain ⟨hsweep, hstill⟩ := ih fun k hk => hls k (List.mem_cons_of_mem l hk)
    constructor
    · show E.sweep (E.step v l) ls = v
      rw [hstep, hsweep]
    · rw [stirsAny, stirs, hstep, hstill]
      simp

/-- The values of a location after a visit to it, with one for each of its edges. -/
def edgeStep (E : Scheme α) (w : EdgeValuation α) (l : Location) : EdgeValuation α where
  given id := if id = l.id then E.edgeMet w l else w.given id
  solved id n := if id = l.id then E.transfer l.quad (E.edgeMet w l) else w.solved id n

def edgeSweep (E : Scheme α) (w : EdgeValuation α) (ls : List Location) : EdgeValuation α :=
  ls.foldl E.edgeStep w

/-- Whether a visit changes the value of an edge to a neighbor. -/
def edgeStirs (E : Scheme α) (w : EdgeValuation α) (l : Location) : Bool :=
  (E.direction.outgoing l).any fun n =>
    decide (E.transfer l.quad (E.edgeMet w l) ≠ w.solved l.id n)

def edgeStirsAny (E : Scheme α) : EdgeValuation α → List Location → Bool
  | _, [] => false
  | w, l :: ls => E.edgeStirs w l || edgeStirsAny E (E.edgeStep w l) ls

/-- The equations at one location, for whatever edges it has. -/
structure EdgeSolvesAt (E : Scheme α) (w : EdgeValuation α) (l : Location) : Prop where
  given : w.given l.id = E.edgeMet w l
  solved (n : Neighbor) : w.solved l.id n = E.transfer l.quad (w.given l.id)

theorem edgeStep_given : (E.edgeStep w l).given l.id = E.edgeMet w l := if_pos rfl

theorem edgeStep_solved (n : Neighbor) :
    (E.edgeStep w l).solved l.id n = E.transfer l.quad (E.edgeMet w l) := if_pos rfl

theorem edgeStep_other {id : QuadId} (h : id ≠ l.id) :
    (E.edgeStep w l).given id = w.given id ∧
      ∀ n, (E.edgeStep w l).solved id n = w.solved id n := ⟨if_neg h, fun _ => if_neg h⟩

theorem edgeSweep_other {id : QuadId} (h : id ∉ ls.map Location.id) :
    (E.edgeSweep w ls).given id = w.given id ∧
      ∀ n, (E.edgeSweep w ls).solved id n = w.solved id n := by
  induction ls generalizing w with
  | nil => exact ⟨rfl, fun _ => rfl⟩
  | cons l ls ih =>
    rw [List.map_cons, List.mem_cons, not_or] at h
    obtain ⟨hgiven, hsolved⟩ := ih h.2 (w := E.edgeStep w l)
    obtain ⟨hgiven', hsolved'⟩ := edgeStep_other (E := E) (w := w) h.1
    exact ⟨hgiven.trans hgiven', fun n => (hsolved n).trans (hsolved' n)⟩

/-- An edge seen from the quad that it leads to is seen from where it comes from. -/
def Mutual (E : Scheme α) : Prop :=
  ∀ l ∈ E.locations, ∀ k ∈ E.locations, .quad l.id ∈ E.direction.incoming k →
    .quad k.id ∈ E.direction.outgoing l

theorem Regular.mutual (hE : E.Regular) : E.Mutual := by
  intro l hl k hk hid
  obtain ⟨j, hj, hjl, hout⟩ := hE.incoming hk hid
  rwa [List.inj_on_of_nodup_map hE.nodup hj hl hjl] at hout

/-- A meet reads edges to its own location only, and those are compared. -/
theorem Mutual.edgeMet_edgeStep (hE : E.Mutual) (hl : l ∈ E.locations) (hk : k ∈ E.locations)
    (h : E.edgeStirs w l = false) : E.edgeMet (E.edgeStep w l) k = E.edgeMet w k := by
  refine List.foldl_ext _ _ _ fun s n hn => ?_
  cases n with
  | entry => rfl
  | exit => rfl
  | quad id =>
    have hsame : (E.edgeStep w l).solved id (.quad k.id) = w.solved id (.quad k.id) := by
      by_cases hid : id = l.id
      · subst hid
        rw [edgeStep_solved]
        have hstill := List.any_eq_false.1 h _ (hE l hl k hk hn)
        simpa using hstill
      · exact (edgeStep_other hid).2 _
    show E.confluence.meet s ((E.edgeStep w l).solved id (.quad k.id)) = _
    rw [hsame]
    rfl

/-- A sweep that stirs no edge gives every location the meet that it had before, and all meets are
the same afterwards. -/
theorem Mutual.edgeSweep_of_still (hE : E.Mutual) (hls : ∀ l ∈ ls, l ∈ E.locations)
    (hnd : (ls.map Location.id).Nodup) (h : E.edgeStirsAny w ls = false) :
    (∀ k ∈ E.locations, E.edgeMet (E.edgeSweep w ls) k = E.edgeMet w k) ∧
      ∀ l ∈ ls, (E.edgeSweep w ls).given l.id = E.edgeMet w l ∧
        ∀ n, (E.edgeSweep w ls).solved l.id n = E.transfer l.quad (E.edgeMet w l) := by
  induction ls generalizing w with
  | nil => exact ⟨fun k _ => rfl, fun l hl => absurd hl List.not_mem_nil⟩
  | cons l ls ih =>
    have hl : l ∈ E.locations := hls l List.mem_cons_self
    rw [edgeStirsAny, Bool.or_eq_false_iff] at h
    obtain ⟨hnot, hnd⟩ := List.nodup_cons.1 hnd
    -- The rest of the sweep starts from other values, but from the same meets.
    have hstep : ∀ k ∈ E.locations, E.edgeMet (E.edgeStep w l) k = E.edgeMet w k :=
      fun k hk => hE.edgeMet_edgeStep hl hk h.1
    obtain ⟨hmet, hval⟩ := ih (fun k hk => hls k (List.mem_cons_of_mem l hk)) hnd h.2
    refine ⟨fun k hk => (hmet k hk).trans (hstep k hk), fun k hk => ?_⟩
    rcases List.mem_cons.1 hk with rfl | hk
    · obtain ⟨hgiven, hsolved⟩ := edgeSweep_other (E := E) (w := E.edgeStep w k) hnot
      exact ⟨hgiven.trans edgeStep_given, fun n => (hsolved n).trans (edgeStep_solved n)⟩
    · rw [← hstep k (hls k (List.mem_cons_of_mem l hk))]
      exact hval k hk

theorem Mutual.edgeSolvesAt_of_still (hE : E.Mutual) (hnd : (E.locations.map Location.id).Nodup)
    (hls : ls.Perm E.locations) (h : E.edgeStirsAny w ls = false) :
    ∀ l ∈ E.locations, E.EdgeSolvesAt (E.edgeSweep w ls) l := by
  obtain ⟨hmet, hval⟩ := hE.edgeSweep_of_still (fun l hl => hls.mem_iff.1 hl)
    ((hls.map Location.id).nodup_iff.2 hnd) h
  intro l hl
  obtain ⟨hgiven, hsolved⟩ := hval l (hls.mem_iff.2 hl)
  exact ⟨by rw [hgiven, hmet l hl], fun n => by rw [hsolved, hgiven]⟩

theorem EdgeSolvesAt.edgeStep_eq (h : E.EdgeSolvesAt w l) : E.edgeStep w l = w := by
  have hgiven : (E.edgeStep w l).given = w.given := by
    funext id
    by_cases hid : id = l.id
    · rw [hid, edgeStep_given, h.given]
    · exact (edgeStep_other hid).1
  have hsolved : (E.edgeStep w l).solved = w.solved := by
    funext id n
    by_cases hid : id = l.id
    · rw [hid, edgeStep_solved, h.solved, h.given]
    · exact (edgeStep_other hid).2 n
  exact congr (congrArg EdgeValuation.mk hgiven) hsolved

theorem edgeSweep_eq (h : ∀ l ∈ E.locations, E.EdgeSolvesAt w l)
    (hls : ∀ l ∈ ls, l ∈ E.locations) : E.edgeSweep w ls = w ∧ E.edgeStirsAny w ls = false := by
  induction ls with
  | nil => exact ⟨rfl, rfl⟩
  | cons l ls ih =>
    have hat := h l (hls l List.mem_cons_self)
    obtain ⟨hsweep, hstill⟩ := ih fun k hk => hls k (List.mem_cons_of_mem l hk)
    constructor
    · show E.edgeSweep (E.edgeStep w l) ls = w
      rw [hat.edgeStep_eq, hsweep]
    · rw [edgeStirsAny, edgeStirs, hat.edgeStep_eq, hstill, ← hat.given]
      simp [hat.solved]

/-- A transfer of a meet is below the top, although the value where the flow begins need not be. -/
theorem top_meet_transfer
    (hclosed : ∀ {s : OrderedSet α}, s ⊆ E.domain → E.transfer l.quad s ⊆ E.domain) :
    E.confluence.meet (E.confluence.top E.domain) (E.transfer l.quad (E.edgeMet w l)) =
      E.transfer l.quad (E.edgeMet w l) := by
  cases hc : E.confluence with
  | must =>
    have hmet : E.edgeMet w l ⊆ E.domain := by
      intro a ha
      unfold edgeMet at ha
      rw [hc] at ha
      have hmem (s : OrderedSet α) (n : Neighbor) :
          a ∈ Confluence.must.meet s (E.edgeInflow w l.id n) ↔
            a ∈ s ∧ a ∈ E.edgeInflow w l.id n := OrderedSet.mem_inter
      exact ((foldl_and_iff (P := (a ∈ ·)) hmem _ _).1 ha).1
    exact Confluence.top_meet (hclosed hmet)
  | may =>
    apply OrderedSet.subset_antisymm <;> intro a <;> simp [Confluence.meet, Confluence.top]

end Scheme

namespace NodeStore

theorem exists_get_of_set {s t : NodeStore (FactSet α)} {side : Side} {id : QuadId}
    {x : FactSet α} (h : s.set side id x = .ok t) : ∃ y, s.get side id = .ok y := by
  cases side with
  | input =>
    obtain ⟨w, hw, _⟩ := bind_eq_ok.1 h
    exact QuadTable.exists_get_of_set hw
  | output =>
    obtain ⟨w, hw, _⟩ := bind_eq_ok.1 h
    exact QuadTable.exists_get_of_set hw

end NodeStore

namespace NodeAnalysis

/-- One of the setters has been called, and has succeeded. -/
inductive Rewritten : NodeAnalysis α → NodeAnalysis α → Prop
  | set {a b : NodeAnalysis α} (side : Side) (id : QuadId) (x : FactSet α) :
      a.set side id x = .ok b → Rewritten a b
  | setEntry {a b : NodeAnalysis α} (x : FactSet α) : a.setEntry x = .ok b → Rewritten a b
  | setExit {a b : NodeAnalysis α} (x : FactSet α) : a.setExit x = .ok b → Rewritten a b

variable {p : Problem α} {f : Routine} {ls : List Location} {boundary : OrderedSet α}
  {v : Valuation α} {a b : NodeAnalysis α} {l : Location}

theorem Shows.rewritten (h : Shows p f ls boundary v a) (hab : Rewritten a b) :
    ∃ boundary v, Shows p f ls boundary v b := by
  obtain ⟨s, rfl, hs⟩ := h
  cases hab with
  | set side id x hset =>
    obtain ⟨_, hstored, hset⟩ := bind_eq_ok.1 hset
    cases hstored
    obtain ⟨t, ht, hb⟩ := bind_eq_ok.1 hset
    cases hb
    obtain ⟨y, hy⟩ := NodeStore.exists_get_of_set ht
    obtain ⟨t', ht', hentry, hexit, hget⟩ := NodeStore.exists_set hy x
    cases ht.symm.trans ht'
    refine ⟨boundary, v.set side id x.facts, t, rfl, fun side' {l} hl => ?_, ?_⟩
    · rw [hget, Valuation.set]
      split
      · rfl
      · exact hs.get side' hl
    · exact (congrArg FactSet.facts (NodeStore.near_congr hentry hexit _)).trans hs.near
  | setEntry x hset =>
    obtain ⟨_, hstored, hb⟩ := bind_eq_ok.1 hset
    cases hstored
    cases hb
    refine ⟨(NodeStore.near { s with entry := x } p.direction).facts, v, { s with entry := x }, rfl,
      fun side {l} hl => ?_, rfl⟩
    cases side with
    | input => exact hs.get .input hl
    | output => exact hs.get .output hl
  | setExit x hset =>
    obtain ⟨_, hstored, hb⟩ := bind_eq_ok.1 hset
    cases hstored
    cases hb
    refine ⟨(NodeStore.near { s with exit := x } p.direction).facts, v, { s with exit := x }, rfl,
      fun side {l} hl => ?_, rfl⟩
    cases side with
    | input => exact hs.get .input hl
    | output => exact hs.get .output hl

theorem Shows.get (h : Shows p f ls boundary v a) (side : Side) (hl : l ∈ ls) :
    (a.get side l.id).map FactSet.facts = .ok (v side l.id) := by
  obtain ⟨s, rfl, hs⟩ := h
  exact hs.get side hl

theorem Shows.problem (h : Shows p f ls boundary v a) : a.problem = p := by
  obtain ⟨s, rfl, _⟩ := h
  rfl

/-- The boundary value where the flow begins. -/
def near (a : NodeAnalysis α) : Except Error (FactSet α) := do
  return (← a.stored).near a.direction

theorem Shows.near (h : Shows p f ls boundary v a) :
    a.near.map FactSet.facts = .ok boundary := by
  obtain ⟨s, rfl, hs⟩ := h
  exact congrArg Except.ok hs.near

/-- The equations hold for the facts stored. -/
def Converged (f : Routine) (ls : List Location) (a : NodeAnalysis α) : Prop :=
  ∃ boundary v, a.near.map FactSet.facts = .ok boundary ∧
    (∀ side, ∀ l ∈ ls, (a.get side l.id).map FactSet.facts = .ok (v side l.id)) ∧
    ((a.problem.scheme f ls).withBoundary boundary).Solves v

/-- Another pass reports no change, and every value keeps its facts. -/
def Stays (ls : List Location) (a : NodeAnalysis α) : Prop :=
  ∀ level, ∃ b, (pass level ls).Yields a false b ∧ ∀ side, ∀ l ∈ ls,
    (b.get side l.id).map FactSet.facts = (a.get side l.id).map FactSet.facts

/-- Prepared for the routine and then rewritten in any way, the analysis has converged whenever a
pass reports no change. -/
def TestsConvergence (level : Level) (f : Routine) (ls : List Location)
    (a : NodeAnalysis α) : Prop :=
  ∀ b c, Relation.ReflTransGen Rewritten (a.prepare f) b → (pass level ls).Yields b false c →
    c.Converged f ls ∧ c.Stays ls

theorem Shows.converged (h : Shows p f ls boundary v a) (hE : (p.scheme f ls).Regular)
    (hv : ((p.scheme f ls).withBoundary boundary).Solves v) : a.Converged f ls ∧ a.Stays ls := by
  have hls : ∀ l ∈ (p.scheme f ls).direction.arrange ls, l ∈ ls := (p.scheme f ls).arrange_subset
  refine ⟨⟨boundary, v, h.near, fun side l hl => h.get side hl, h.problem ▸ hv⟩, fun level => ?_⟩
  obtain ⟨hsweep, hstill⟩ := hv.sweep_eq hls fun _ => true
  obtain ⟨b, hb, hshows⟩ := h.exists_pass hE level
  rw [hstill] at hb
  rw [hsweep] at hshows
  exact ⟨b, hb, fun side l hl => (hshows.get side hl).trans (h.get side hl).symm⟩

theorem Shows.rewritten_all (h : Shows p f ls boundary v a)
    (hab : Relation.ReflTransGen Rewritten a b) : ∃ boundary v, Shows p f ls boundary v b := by
  induction hab with
  | refl => exact ⟨boundary, v, h⟩
  | tail _ hstep ih =>
    obtain ⟨boundary, v, h⟩ := ih
    exact h.rewritten hstep

theorem testsConvergence (hp : a.problem.Regular f) (hf : f.graph.Coherent)
    (hls : f.locations = .ok ls) (level : Level) : a.TestsConvergence level f ls := by
  intro b c hrewritten hpass
  have hE := hp.scheme hf hls
  obtain ⟨boundary, v, h⟩ := (holds_prepare hp hf hls rfl).shows.rewritten_all hrewritten
  obtain ⟨c', hc', hshows⟩ := h.exists_pass hE level
  obtain ⟨hstill, rfl⟩ := hpass.unique hc'
  have hcovers : ((a.problem.scheme f ls).withBoundary boundary).Covers fun _ => true :=
    fun _ _ _ _ _ _ _ => rfl
  exact hshows.converged hE (hcovers.solves_of_still hE.nodup (Scheme.arrange_perm _) hstill.symm)

end NodeAnalysis

namespace EdgeStore

/-- The store has these edges, and its values show these facts. -/
structure Shows (E : Scheme α) (slots : Location → List Neighbor) (w : EdgeValuation α)
    (s : EdgeStore α) : Prop where
  direction : s.direction = E.direction
  top : s.top = E.pack (E.confluence.top E.domain)
  unified {l : Location} : l ∈ E.locations →
    (s.unified.get l.id).map FactSet.facts = .ok (w.given l.id)
  edges {l : Location} : l ∈ E.locations → ∃ edges, s.edges.slots.get? l.id = some edges ∧
    ∀ n, (edges.get? n).map FactSet.facts = if n ∈ slots l then some (w.solved l.id n) else none
  slots_subset {l : Location} : l ∈ E.locations → ∀ n ∈ E.direction.slots l, n ∈ slots l
  near : (s.near E.direction).facts = E.boundary

variable {E : Scheme α} {slots : Location → List Neighbor} {w : EdgeValuation α} {s t : EdgeStore α}
  {v : Valuation α} {l : Location} {id : QuadId} {n : Neighbor} {x : FactSet α}

theorem Holds.shows (h : s.Holds E v) : s.Shows E E.direction.slots (v.spread E.direction) where
  direction := h.direction
  top := h.top
  unified hl := congrArg (Except.map FactSet.facts) (h.unified hl)
  edges hl := by
    obtain ⟨edges, hedges, hget⟩ := h.uniform hl
    refine ⟨edges, hedges, fun n => ?_⟩
    rw [hget]
    split <;> rfl
  slots_subset _ _ hn := hn
  near := congrArg FactSet.facts h.near

theorem map_const_get? {edges : OrderedMap Neighbor (FactSet α)} {ns : List Neighbor}
    {value : Neighbor → OrderedSet α}
    (h : ∀ n, (edges.get? n).map FactSet.facts = if n ∈ ns then some (value n) else none)
    (x : FactSet α) (n : Neighbor) :
    ((edges.map fun _ => x).get? n).map FactSet.facts =
      if n ∈ ns then some x.facts else none := by
  have hget := h n
  rw [OrderedMap.get?_map]
  by_cases hn : n ∈ ns
  · rw [if_pos hn] at hget ⊢
    obtain ⟨y, hy, _⟩ := Option.map_eq_some_iff.1 hget
    rw [hy]
    rfl
  · rw [if_neg hn] at hget ⊢
    rw [Option.map_eq_none_iff.1 hget]
    rfl

/-- A single edge is written on the solved side, and may be new. -/
theorem Shows.set (h : s.Shows E slots w) {side : Side} (ht : s.set side id n x = .ok t) :
    ∃ slots w, t.Shows E slots w := by
  unfold EdgeStore.set at ht
  split at ht
  · obtain ⟨table, htable, ht⟩ := bind_eq_ok.1 ht
    cases ht
    obtain ⟨edges, hedges, htable⟩ := bind_eq_ok.1 htable
    cases htable
    -- The edge may lead to a neighbor that the quad does not have; it is stored all the same.
    refine ⟨fun l => if l.id = id then n :: slots l else slots l,
      { w with solved := fun id' n' => if id' = id ∧ n' = n then x.facts else w.solved id' n' },
      h.direction, h.top, h.unified, fun {l} hl => ?_, fun {l} hl m hm => ?_, h.near⟩
    · obtain ⟨edges', hedges', hget⟩ := h.edges hl
      simp only [OrderedMap.get?_set]
      by_cases hid : l.id = id
      · subst hid
        cases hedges.symm.trans (EdgeTable.edges_eq_ok.2 hedges')
        refine ⟨edges.set n x, if_pos rfl, fun m => ?_⟩
        rw [OrderedMap.get?_set]
        by_cases hm : m = n
        · simp [hm]
        · simp [hm, hget]
      · refine ⟨edges', (if_neg hid).trans hedges', fun m => ?_⟩
        simp [hid, hget]
    · have hold := h.slots_subset hl m hm
      split
      · exact List.mem_cons_of_mem n hold
      · exact hold
  · cases ht

/-- All edges of a quad are written at once, or its given side is. -/
theorem Shows.setAll (h : s.Shows E slots w) {side : Side} (ht : s.setAll side id x = .ok t) :
    ∃ w, t.Shows E slots w := by
  unfold EdgeStore.setAll at ht
  split at ht
  · obtain ⟨table, htable, ht⟩ := bind_eq_ok.1 ht
    cases ht
    obtain ⟨edges, hedges, htable⟩ := bind_eq_ok.1 htable
    cases htable
    refine ⟨{ w with solved := fun id' n => if id' = id then x.facts else w.solved id' n },
      h.direction, h.top, h.unified, fun {l} hl => ?_, h.slots_subset, h.near⟩
    obtain ⟨edges', hedges', hget⟩ := h.edges hl
    simp only [OrderedMap.get?_set]
    by_cases hid : l.id = id
    · subst hid
      cases hedges.symm.trans (EdgeTable.edges_eq_ok.2 hedges')
      refine ⟨edges.map fun _ => x, if_pos rfl, fun m => ?_⟩
      rw [map_const_get? hget, if_pos rfl]
    · refine ⟨edges', (if_neg hid).trans hedges', fun m => ?_⟩
      simp [hid, hget]
  · obtain ⟨table, htable, ht⟩ := bind_eq_ok.1 ht
    cases ht
    obtain ⟨y, hy⟩ := QuadTable.exists_get_of_set htable
    obtain ⟨table', htable', hsame, hother⟩ := QuadTable.exists_set hy x
    cases htable.symm.trans htable'
    refine ⟨{ w with given := fun id' => if id' = id then x.facts else w.given id' },
      h.direction, h.top, fun {l} hl => ?_, h.edges, h.slots_subset, h.near⟩
    show (table.get l.id).map FactSet.facts = .ok (if l.id = id then x.facts else w.given l.id)
    by_cases hid : l.id = id
    · rw [hid, hsame, if_pos rfl]
      rfl
    · rw [hother l.id hid, if_neg hid]
      exact h.unified hl

theorem Shows.map_get (h : s.Shows E slots w) (side : Side) (hl : l ∈ E.locations)
    (n : Neighbor) : (s.get side l.id n).map FactSet.facts =
      if side = E.direction.solved then
        if n ∈ slots l then .ok (w.solved l.id n) else .error (.unknownEdge l.id (toString n))
      else .error (refusal "reading" side) := by
  obtain ⟨edges, hedges, hget⟩ := h.edges hl
  have hn := hget n
  split
  · rename_i hside
    subst hside
    split
    · rename_i hmem
      exact s.map_get (by rw [h.direction]) hedges (hn.trans (if_pos hmem))
    · rename_i hmem
      rw [if_neg hmem, Option.map_eq_none_iff] at hn
      rw [EdgeStore.get, h.direction, if_pos rfl, EdgeTable.get, EdgeTable.edges_eq_ok.2 hedges]
      simp only [bind, Except.bind, hn]
      rfl
  · rename_i hside
    rw [EdgeStore.get, h.direction, if_neg hside]
    rfl

theorem Shows.getAll_solved (h : s.Shows E slots w) (hl : l ∈ E.locations) {x : OrderedSet α}
    (hx : ∀ n, w.solved l.id n = x)
    (htop : E.confluence.meet (E.confluence.top E.domain) x = x) :
    s.getAll E.direction.solved l.id = .ok (E.pack x) := by
  obtain ⟨edges, hedges, hget⟩ := h.edges hl
  have hfacts : ∀ b ∈ edges.values, b.facts = x := by
    intro b hb
    obtain ⟨n, hn⟩ := OrderedMap.mem_values_iff.1 hb
    have hn' := hget n
    rw [hn] at hn'
    split at hn'
    · exact (Option.some.inj hn').trans (hx n)
    · cases hn'
  have hne : edges.values ≠ [] := by
    obtain ⟨n, hn⟩ := List.exists_mem_of_ne_nil _ (E.direction.slots_ne_nil l)
    have hn' := hget n
    rw [if_pos (h.slots_subset hl n hn)] at hn'
    obtain ⟨b, hb, _⟩ := Option.map_eq_some_iff.1 hn'
    exact List.ne_nil_of_mem (OrderedMap.mem_values_iff.2 ⟨n, hb⟩)
  unfold EdgeStore.getAll
  rw [h.direction, if_pos rfl, h.top]
  refine EdgeTable.meetAll_eq hedges hne (fun b hb => ?_) fun b hb => ?_
  · rw [Scheme.pack_meet, hfacts b hb, htop]
  · rw [Scheme.pack_meet, hfacts b hb, Confluence.meet_self]

end EdgeStore

namespace EdgeAnalysis

/-- One of the setters has been called, and has succeeded. -/
inductive Rewritten : EdgeAnalysis α → EdgeAnalysis α → Prop
  | set {a b : EdgeAnalysis α} (side : Side) (id : QuadId) (n : Neighbor) (x : FactSet α) :
      a.set side id n x = .ok b → Rewritten a b
  | setAll {a b : EdgeAnalysis α} (side : Side) (id : QuadId) (x : FactSet α) :
      a.setAll side id x = .ok b → Rewritten a b
  | setEntry {a b : EdgeAnalysis α} (x : FactSet α) : a.setEntry x = .ok b → Rewritten a b
  | setExit {a b : EdgeAnalysis α} (x : FactSet α) : a.setExit x = .ok b → Rewritten a b

/-- The analysis is about the routine, with this value where the flow begins, and its store has
these edges and shows these facts. -/
def Shows (p : Problem α) (f : Routine) (ls : List Location) (boundary : OrderedSet α)
    (slots : Location → List Neighbor) (w : EdgeValuation α) (a : EdgeAnalysis α) : Prop :=
  a.AtWork p f (·.Shows ((p.scheme f ls).withBoundary boundary) slots w)

variable {p : Problem α} {f : Routine} {ls : List Location} {boundary : OrderedSet α}
  {slots : Location → List Neighbor} {w : EdgeValuation α} {v : Valuation α}
  {a b : EdgeAnalysis α} {l : Location}

theorem Holds.shows (h : Holds p f ls v a) : Shows p f ls (p.scheme f ls).boundary
    (p.scheme f ls).direction.slots (v.spread (p.scheme f ls).direction) a := by
  obtain ⟨s, rfl, hs⟩ := h
  exact ⟨s, rfl, hs.shows⟩

theorem Shows.rewritten (h : Shows p f ls boundary slots w a) (hab : Rewritten a b) :
    ∃ boundary slots w, Shows p f ls boundary slots w b := by
  obtain ⟨s, rfl, hs⟩ := h
  cases hab with
  | set side id n x hset =>
    obtain ⟨_, hstored, hset⟩ := bind_eq_ok.1 hset
    cases hstored
    obtain ⟨t, ht, hb⟩ := bind_eq_ok.1 hset
    cases hb
    obtain ⟨slots, w, hs⟩ := hs.set ht
    exact ⟨boundary, slots, w, t, rfl, hs⟩
  | setAll side id x hset =>
    obtain ⟨_, hstored, hset⟩ := bind_eq_ok.1 hset
    cases hstored
    obtain ⟨t, ht, hb⟩ := bind_eq_ok.1 hset
    cases hb
    obtain ⟨w, hs⟩ := hs.setAll ht
    exact ⟨boundary, slots, w, t, rfl, hs⟩
  | setEntry x hset =>
    obtain ⟨_, hstored, hb⟩ := bind_eq_ok.1 hset
    cases hstored
    cases hb
    exact ⟨(EdgeStore.near { s with entry := x } p.direction).facts, slots, w, _, rfl, hs.direction,
      hs.top, hs.unified, hs.edges, hs.slots_subset, rfl⟩
  | setExit x hset =>
    obtain ⟨_, hstored, hb⟩ := bind_eq_ok.1 hset
    cases hstored
    cases hb
    exact ⟨(EdgeStore.near { s with exit := x } p.direction).facts, slots, w, _, rfl, hs.direction,
      hs.top, hs.unified, hs.edges, hs.slots_subset, rfl⟩

theorem Shows.met (h : Shows p f ls boundary slots w a) (hE : (p.scheme f ls).Regular)
    (hl : l ∈ ls) : engine.met a l =
      .ok ((p.scheme f ls).pack (((p.scheme f ls).withBoundary boundary).edgeMet w l)) := by
  have hatwork := h
  obtain ⟨s, rfl, hs⟩ := h
  have hnear := hs.near
  refine Engine.met_eq hatwork hE hl (((p.scheme f ls).withBoundary boundary).edgeInflow w l.id)
    (fun id hid => ?_) (fun hd => ?_) fun hd => ?_
  · obtain ⟨k, hk, rfl, hout⟩ := hE.incoming hl hid
    obtain ⟨edges, hedges, hget⟩ := hs.edges hk
    refine s.map_get (congrArg Direction.solved hs.direction.symm) hedges ?_
    rw [hget, if_pos (hs.slots_subset hk _ (Direction.mem_slots hout))]
    rfl
  · rw [hd] at hnear
    exact congrArg Except.ok hnear
  · rw [hd] at hnear
    exact congrArg Except.ok hnear

/-- A visit is a step by edge. -/
theorem Shows.exists_visit (h : Shows p f ls boundary slots w a) (hp : p.Regular f)
    (hE : (p.scheme f ls).Regular) (hl : l ∈ ls) :
    ∃ r, a.visit l = .ok r ∧ Shows p f ls boundary slots
        (((p.scheme f ls).withBoundary boundary).edgeStep w l) r.analysis ∧
      r.changed = ((p.scheme f ls).withBoundary boundary).edgeStirs w l := by
  have hmet := h.met hE hl
  obtain ⟨s, rfl, hs⟩ := h
  obtain ⟨edges, hedges, hget⟩ := hs.edges hl
  obtain ⟨y, hy, _⟩ := exists_of_map_facts (hs.unified hl)
  have hvalue : ∀ n ∈ (p.scheme f ls).direction.outgoing l,
      (edges.get? n).map FactSet.facts = some (w.solved l.id n) := by
    intro n hn
    rw [hget, if_pos (hs.slots_subset hl n (Direction.mem_slots hn))]
  obtain ⟨table, r, hr, htable, hanalysis, hchanged⟩ :=
    EdgeAnalysis.exists_visit hp hs.direction hy hedges hvalue hmet
  refine ⟨r, hr, ⟨_, hanalysis, hs.direction, hs.top, fun {k} hk => ?_, fun {k} hk => ?_,
    hs.slots_subset, hs.near⟩, hchanged⟩
  · show (table.get k.id).map FactSet.facts = .ok (if k.id = l.id then _ else w.given k.id)
    rw [htable]
    split
    · rfl
    · exact hs.unified hk
  · show ∃ edges', (s.edges.slots.set l.id _).get? k.id = some edges' ∧ _
    rw [OrderedMap.get?_set]
    by_cases hid : k.id = l.id
    · cases List.inj_on_of_nodup_map hE.nodup hk hl hid
      refine ⟨_, if_pos rfl, fun n => ?_⟩
      rw [EdgeStore.map_const_get? hget, Scheme.edgeStep_solved]
      rfl
    · obtain ⟨edges', hedges', hget'⟩ := hs.edges hk
      refine ⟨edges', (if_neg hid).trans hedges', fun n => ?_⟩
      rw [hget', (Scheme.edgeStep_other hid).2]

theorem Shows.exists_pass (h : Shows p f ls boundary slots w a) (hp : p.Regular f)
    (hE : (p.scheme f ls).Regular) (level : Level) :
    ∃ b, (pass level ls).Yields a (((p.scheme f ls).withBoundary boundary).edgeStirsAny w
        ((p.scheme f ls).direction.arrange ls)) b ∧
      Shows p f ls boundary slots (((p.scheme f ls).withBoundary boundary).edgeSweep w
        ((p.scheme f ls).direction.arrange ls)) b :=
  engine.exists_pass (H := Shows p f ls boundary slots)
    ((p.scheme f ls).withBoundary boundary).edgeStirsAny (fun _ => rfl) (fun _ _ _ => rfl)
    (·.direction ls) (fun h _ hl => h.exists_visit hp hE hl) h

/-- The boundary value where the flow begins. -/
def near (a : EdgeAnalysis α) : Except Error (FactSet α) := do
  return (← a.stored).near a.direction

theorem Shows.near (h : Shows p f ls boundary slots w a) :
    a.near.map FactSet.facts = .ok boundary := by
  obtain ⟨s, rfl, hs⟩ := h
  exact congrArg Except.ok hs.near

theorem Shows.map_get (h : Shows p f ls boundary slots w a) (side : Side) (hl : l ∈ ls)
    (n : Neighbor) : (a.get side l.id n).map FactSet.facts =
      if side = (p.scheme f ls).direction.solved then
        if n ∈ slots l then .ok (w.solved l.id n) else .error (.unknownEdge l.id (toString n))
      else .error (EdgeStore.refusal "reading" side) := by
  obtain ⟨s, rfl, hs⟩ := h
  exact hs.map_get side hl n

theorem Shows.map_getAll (h : Shows p f ls boundary slots w a) (hE : (p.scheme f ls).Regular)
    (side : Side) (hl : l ∈ ls)
    (hw : ((p.scheme f ls).withBoundary boundary).EdgeSolvesAt w l) :
    (a.getAll side l.id).map FactSet.facts =
      .ok (if side = (p.scheme f ls).direction.solved then
        (p.scheme f ls).transfer l.quad (w.given l.id) else w.given l.id) := by
  obtain ⟨s, rfl, hs⟩ := h
  split
  · rename_i hside
    rw [hside]
    have htop := Scheme.top_meet_transfer (E := (p.scheme f ls).withBoundary boundary) (w := w)
      (hE.closed hl)
    rw [← hw.given] at htop
    exact congrArg (Except.map FactSet.facts) (hs.getAll_solved hl hw.solved htop)
  · rename_i hside
    show (s.getAll side l.id).map FactSet.facts = _
    unfold EdgeStore.getAll
    rw [hs.direction, if_neg hside]
    exact hs.unified hl

/-- The equations hold for the facts stored: on the given side, on every edge that there is, and
on the solved side as a whole. -/
def Converged (f : Routine) (ls : List Location) (a : EdgeAnalysis α) : Prop :=
  let E := a.problem.scheme f ls
  ∃ boundary w, a.near.map FactSet.facts = .ok boundary ∧
    (∀ l ∈ ls, (a.getAll E.direction.given l.id).map FactSet.facts = .ok (w.given l.id) ∧
      (a.getAll E.direction.solved l.id).map FactSet.facts =
        .ok (E.transfer l.quad (w.given l.id)) ∧
      (∀ n ∈ E.direction.slots l, ∃ x, a.get E.direction.solved l.id n = .ok x) ∧
      ∀ n x, a.get E.direction.solved l.id n = .ok x → x.facts = w.solved l.id n) ∧
    ∀ l ∈ ls, (E.withBoundary boundary).EdgeSolvesAt w l

/-- Another pass reports no change, and every value keeps its facts, along each edge and over all
of them. -/
def Stays (ls : List Location) (a : EdgeAnalysis α) : Prop :=
  ∀ level, ∃ b, (pass level ls).Yields a false b ∧ ∀ side, ∀ l ∈ ls,
    (b.getAll side l.id).map FactSet.facts = (a.getAll side l.id).map FactSet.facts ∧
      ∀ n, (b.get side l.id n).map FactSet.facts = (a.get side l.id n).map FactSet.facts

/-- The analysis can be prepared for the routine, and however it is then rewritten, it has
converged whenever a pass reports no change. -/
def TestsConvergence (level : Level) (f : Routine) (ls : List Location)
    (a : EdgeAnalysis α) : Prop :=
  ∃ a', (prepare f).Yields a () a' ∧ ∀ b c, Relation.ReflTransGen Rewritten a' b →
    (pass level ls).Yields b false c → c.Converged f ls ∧ c.Stays ls

theorem Shows.converged (h : Shows p f ls boundary slots w a) (hE : (p.scheme f ls).Regular)
    (hw : ∀ l ∈ ls, ((p.scheme f ls).withBoundary boundary).EdgeSolvesAt w l) :
    a.Converged f ls := by
  have hproblem := h.problem
  subst hproblem
  refine ⟨boundary, w, h.near, fun l hl => ⟨?_, ?_, fun n hn => ?_, fun n x hx => ?_⟩, hw⟩
  · rw [h.map_getAll hE _ hl (hw l hl), if_neg (Direction.given_ne_solved _)]
  · rw [h.map_getAll hE _ hl (hw l hl), if_pos rfl]
  · have hget := h.map_get (a.problem.scheme f ls).direction.solved hl n
    have hmem : n ∈ slots l := by
      obtain ⟨s, _, hs⟩ := h
      exact hs.slots_subset hl n hn
    rw [if_pos rfl, if_pos hmem] at hget
    obtain ⟨x, hx, _⟩ := exists_of_map_facts hget
    exact ⟨x, hx⟩
  · have hget := h.map_get (a.problem.scheme f ls).direction.solved hl n
    rw [hx, if_pos rfl] at hget
    split at hget
    · exact Except.ok.inj hget
    · cases hget

theorem Shows.stays (h : Shows p f ls boundary slots w a) (hp : p.Regular f)
    (hE : (p.scheme f ls).Regular)
    (hw : ∀ l ∈ ls, ((p.scheme f ls).withBoundary boundary).EdgeSolvesAt w l) : a.Stays ls := by
  have hls : ∀ l ∈ (p.scheme f ls).direction.arrange ls, l ∈ ls := (p.scheme f ls).arrange_subset
  intro level
  obtain ⟨hsweep, hstill⟩ :=
    Scheme.edgeSweep_eq (E := (p.scheme f ls).withBoundary boundary) hw hls
  obtain ⟨b, hb, hshows⟩ := h.exists_pass hp hE level
  rw [hstill] at hb
  rw [hsweep] at hshows
  refine ⟨b, hb, fun side l hl => ⟨?_, fun n => ?_⟩⟩
  · rw [h.map_getAll hE side hl (hw l hl), hshows.map_getAll hE side hl (hw l hl)]
  · rw [h.map_get side hl, hshows.map_get side hl]

theorem Shows.rewritten_all (h : Shows p f ls boundary slots w a)
    (hab : Relation.ReflTransGen Rewritten a b) :
    ∃ boundary slots w, Shows p f ls boundary slots w b := by
  induction hab with
  | refl => exact ⟨boundary, slots, w, h⟩
  | tail _ hstep ih =>
    obtain ⟨boundary, slots, w, h⟩ := ih
    exact h.rewritten hstep

theorem testsConvergence (hp : a.problem.Regular f) (hf : f.graph.Coherent)
    (hls : f.locations = .ok ls) (level : Level) : a.TestsConvergence level f ls := by
  have hE := hp.scheme hf hls
  obtain ⟨a', hprepare, hholds⟩ := exists_prepare hp hf hls rfl
  refine ⟨a', hprepare, fun b c hrewritten hpass => ?_⟩
  obtain ⟨boundary, slots, w, h⟩ := hholds.shows.rewritten_all hrewritten
  obtain ⟨c', hc', hshows⟩ := h.exists_pass hp hE level
  obtain ⟨hstill, rfl⟩ := hpass.unique hc'
  have hw := Scheme.Mutual.edgeSolvesAt_of_still
    (E := (a.problem.scheme f ls).withBoundary boundary) hE.mutual hE.nodup
    (Scheme.arrange_perm _) hstill.symm
  exact ⟨hshows.converged hE hw, hshows.stays hp hE hw⟩

end EdgeAnalysis

/-- For every problem that comes with the library, in either solver and whatever values the
setters have left behind, a pass that reports no change has found a solution, at every quad, and
the next pass keeps it. -/
theorem unchanged_pass_has_converged (level : Level) (f : Routine) (built : f.graph.Built)
    (ls : List Location) (hls : f.locations = .ok ls) :
    (∀ q ∈ f.quads, ∃ l ∈ ls, l.quad = q) ∧
      (∀ (mode : NullCheck.Mode) (a : NodeAnalysis Register),
          a.problem = NullCheck.guardedProblem mode → a.TestsConvergence level f ls) ∧
      (∀ a : NodeAnalysis QuadId,
        a.problem = ReachingDefinition.problem → a.TestsConvergence level f ls) ∧
      (∀ a : NodeAnalysis Register,
        a.problem = LiveVariable.problem → a.TestsConvergence level f ls) ∧
      (∀ (mode : NullCheck.Mode) (a : EdgeAnalysis Register),
        a.problem = NullCheck.problem mode → a.TestsConvergence level f ls) ∧
      ∀ a : EdgeAnalysis QuadId,
        a.problem = ReachingDefinition.problem → a.TestsConvergence level f ls := by
  have hf := built.coherent
  refine ⟨fun q hq => FlowGraph.exists_location_of_quad hls hq, fun mode a ha => ?_,
    fun a ha => ?_, fun a ha => ?_, fun mode a ha => ?_, fun a ha => ?_⟩
  · exact NodeAnalysis.testsConvergence (ha ▸ NullCheck.regular_guardedProblem mode f) hf hls level
  · exact NodeAnalysis.testsConvergence (ha ▸ ReachingDefinition.regular_problem f) hf hls level
  · exact NodeAnalysis.testsConvergence (ha ▸ LiveVariable.regular_problem f) hf hls level
  · exact EdgeAnalysis.testsConvergence (ha ▸ NullCheck.regular_problem mode f) hf hls level
  · exact EdgeAnalysis.testsConvergence (ha ▸ ReachingDefinition.regular_problem f) hf hls level

/-- With all registers proven at the entry, and an edge to the exit that the loop does not have,
the first pass already reports no change. -/
theorem loop_converged_after_rewriting : ∃ g ls a b c,
    FlowGraph.ofOutline FlowGraph.loopOutline = .ok g ∧ g.locations = .ok ls ∧
    (EdgeAnalysis.prepare ⟨"loop", [], g⟩).Yields
      (.ofProblem (NullCheck.problem .moveAware)) () a ∧
    Relation.ReflTransGen EdgeAnalysis.Rewritten a b ∧
    (EdgeAnalysis.pass .off ls).Yields b false c ∧
    c.Converged ⟨"loop", [], g⟩ ls ∧ c.Stays ls := by
  let proven : FactSet Register := .ofFacts ∅ .must [⟨"x"⟩, ⟨"y"⟩]
  obtain ⟨g, hg, ls, hls, a, ha, b, hb, c, hc, hresult⟩ :
      ∃ g, FlowGraph.ofOutline FlowGraph.loopOutline = .ok g ∧ ∃ ls, g.locations = .ok ls ∧
      ∃ a, (EdgeAnalysis.prepare ⟨"loop", [], g⟩).Yields
        (.ofProblem (NullCheck.problem .moveAware)) () a ∧
      ∃ b, a.setEntry proven = .ok b ∧ ∃ c, b.set .output 3 .exit (.ofFacts ∅ .may []) = .ok c ∧
      (EdgeAnalysis.pass .off ls c).result = .ok false :=
    ⟨_, rfl, _, rfl, _, ⟨_, rfl⟩, _, rfl, _, rfl, by decide +kernel⟩
  have hrewritten : Relation.ReflTransGen EdgeAnalysis.Rewritten a c :=
    .tail (.single (.setEntry proven hb)) (.set .output 3 .exit _ hc)
  have hpass := Run.yields_of_result hresult
  obtain ⟨_, _, _, _, hchecks, _⟩ := unchanged_pass_has_converged .off ⟨"loop", [], g⟩
    (FlowGraph.built_ofOutline hg) ls hls
  obtain ⟨a', ha', htests⟩ := hchecks .moveAware (.ofProblem (NullCheck.problem .moveAware)) rfl
  obtain ⟨_, rfl⟩ := ha.unique ha'
  obtain ⟨hconverged, hstays⟩ := htests c _ hrewritten hpass
  exact ⟨g, ls, a, c, _, hg, hls, ha, hrewritten, hpass, hconverged, hstays⟩

end Dataflow
