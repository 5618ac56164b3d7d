import Dataflow.Proofs.Logging

/-! # Calls on an analysis by edges

Apart from preparations, a call on the analysis itself either reads or makes one change of the
values. So whatever calls have been made, the frame is one that the problem has for some routine,
and every quad still has edges.
-/
namespace Dataflow

theorem Run.Keeps.session {σ γ ρ : Type} {perform : γ → Run σ ρ} {cs : List γ}
    {P : σ → Prop} (h : ∀ c ∈ cs, Keeps P (perform c)) {s : σ} (hs : P s) :
    P (Run.session perform cs s).2 := by
  induction cs generalizing s with
  | nil => exact hs
  | cons c cs ih =>
    obtain ⟨hc, hcs⟩ := List.forall_mem_cons.1 h
    exact ih hcs (hc s hs)

namespace Call

variable {α ι : Type} [Fact α]

/-- Calls that change nothing. -/
def IsRead : Call α ι → Prop
  | conclude _ | isForward | entry | exit | get _ | scratch => True
  | _ => False

/-- Calls that change values only. -/
def IsEdit : Call α ι → Prop
  | setEntry _ | setExit _ | set _ _ | process _ => True
  | _ => False

theorem isRead_scratch : (scratch : Call α ι).IsRead := trivial

theorem isEdit_process (q : Quad) : (process q : Call α ι).IsEdit := trivial

/-- Calls that stay with the routine that has been prepared. -/
def Lasting (c : Call α ι) : Prop := c.IsRead ∨ c.IsEdit

/-- Calls on the analysis itself, and not on its solver. -/
def Direct (c : Call α ι) : Prop := c.Lasting ∨ ∃ f, c = prepare f

end Call

section Values

variable {α : Type}

/-- Every quad has some edge. -/
def EdgeTable.Full (v : EdgeTable α) : Prop :=
  ∀ id edges, v.slots.get? id = some edges → ∃ n x, edges.get? n = some x

namespace EdgeTable

variable {v w : EdgeTable α} {id : QuadId} {x y : α}

theorem Full.slots_set (hv : v.Full) {edges : OrderedMap Neighbor α} {n : Neighbor}
    (h : edges.get? n = some x) : (⟨v.slots.set id edges⟩ : EdgeTable α).Full := by
  intro j others hj
  rw [OrderedMap.get?_set] at hj
  split at hj
  · cases hj
    exact ⟨n, x, h⟩
  · exact hv j others hj

theorem Full.set (hv : v.Full) {n : Neighbor} (h : v.set id n x = .ok w) : w.Full := by
  obtain ⟨edges, _, h⟩ := bind_eq_ok.1 h
  cases h
  exact hv.slots_set (n := n) (x := x) (by simp)

theorem Full.setAll (hv : v.Full) (h : v.setAll id x = .ok w) : w.Full := by
  obtain ⟨edges, hedges, h⟩ := bind_eq_ok.1 h
  obtain ⟨n, y, hn⟩ := hv id edges (edges_eq_ok.1 hedges)
  cases h
  exact hv.slots_set (n := n) (x := x) (by simp [hn])

/-- What all edges of a quad are set to can be told from them. -/
theorem Full.setAll_inj (hv : v.Full) (hx : v.setAll id x = .ok w) (hy : v.setAll id y = .ok w) :
    x = y := by
  obtain ⟨edges, hedges, hx⟩ := bind_eq_ok.1 hx
  rw [EdgeTable.setAll, hedges] at hy
  obtain ⟨n, z, hn⟩ := hv id edges (edges_eq_ok.1 hedges)
  have hget : (w.slots.get? id).bind (·.get? n) = some x := by
    cases hx
    simp [hn]
  cases hy
  simpa [hn] using hget.symm

end EdgeTable

end Values

namespace EdgeStore

variable {α : Type} [Fact α] {d : Direction} {s t : EdgeStore α} {side : Side} {id : QuadId}
  {x y : FactSet α}

/-- The solved side is that of the direction, and every quad has some edge there. -/
structure Full (d : Direction) (s : EdgeStore α) : Prop where
  direction : s.direction = d
  edges : s.edges.Full

theorem Full.set (hs : s.Full d) {n : Neighbor} (h : s.set side id n x = .ok t) : t.Full d := by
  unfold EdgeStore.set at h
  split at h
  · obtain ⟨edges, hedges, h⟩ := bind_eq_ok.1 h
    cases h
    exact ⟨hs.direction, hs.edges.set hedges⟩
  · cases h

theorem Full.setAll (hs : s.Full d) (h : s.setAll side id x = .ok t) : t.Full d := by
  unfold EdgeStore.setAll at h
  split at h
  · obtain ⟨edges, hedges, h⟩ := bind_eq_ok.1 h
    cases h
    exact ⟨hs.direction, hs.edges.setAll hedges⟩
  · obtain ⟨unified, _, h⟩ := bind_eq_ok.1 h
    cases h
    exact ⟨hs.direction, hs.edges⟩

theorem Full.setAll_inj (hs : s.Full d) (hx : s.setAll d.solved id x = .ok t)
    (hy : s.setAll d.solved id y = .ok t) : x = y := by
  unfold EdgeStore.setAll at hx hy
  rw [hs.direction, if_pos rfl] at hx hy
  obtain ⟨v, hv, hx⟩ := bind_eq_ok.1 hx
  obtain ⟨w, hw, hy⟩ := bind_eq_ok.1 hy
  cases hx
  cases hy
  exact hs.edges.setAll_inj hv hw

/-- Whether a side of a quad can be set does not depend on the value. -/
theorem setAll_blind (s : EdgeStore α) (side : Side) (id : QuadId) (x y : FactSet α) :
    (s.setAll side id x).map (fun _ => ()) = (s.setAll side id y).map (fun _ => ()) := by
  unfold EdgeStore.setAll
  split
  · unfold EdgeTable.setAll
    cases s.edges.edges id <;> rfl
  · unfold QuadTable.set
    split
    · rfl
    · cases s.unified <;> rfl

theorem setAll_error {e : Error} (h : s.setAll side id x = .error e) (y : FactSet α) :
    s.setAll side id y = .error e := by
  have hblind := setAll_blind s side id x y
  rw [h] at hblind
  cases hy : s.setAll side id y with
  | error e' =>
    rw [hy] at hblind
    cases hblind
    rfl
  | ok t =>
    rw [hy] at hblind
    cases hblind

theorem full_ofRoutine (d : Direction) (f : Routine) (ls : List Location)
    (initial boundary : FactSet α) : (ofRoutine d f ls initial boundary).Full d := by
  refine ⟨rfl, fun id edges h => ?_⟩
  have hslots : (ofRoutine d f ls initial boundary).edges.slots =
      .ofList (ls.map fun l => (l.id, EdgeTable.slotsFor (d.outgoing l) d.farEnd initial)) := by
    cases d <;> rfl
  rw [hslots] at h
  obtain ⟨l, _, heq⟩ := List.mem_map.1 (OrderedMap.mem_of_get?_ofList h)
  obtain ⟨rfl, rfl⟩ := Prod.mk.inj heq
  obtain ⟨n, hn⟩ := List.exists_mem_of_ne_nil _ (d.slots_ne_nil l)
  exact ⟨n, initial, by rw [EdgeTable.get?_slotsFor, if_pos hn]⟩

end EdgeStore

/-- All edges of a quad always have one value, and scratch values are to be had only once a routine
has been prepared. -/
structure Problem.Plain {α : Type} [Fact α] (p : Problem α) : Prop where
  blank (q : Quad) : p.blank.departures q = []
  frame (f : Routine) (q : Quad) : (p.frame f).departures q = []
  scratch : p.scratchAtOnce = false

theorem NullCheck.plain_problem (mode : Mode) : (problem mode).Plain :=
  ⟨fun _ => rfl, fun _ _ => rfl, rfl⟩

theorem ReachingDefinition.plain_problem : problem.Plain := ⟨fun _ => rfl, fun _ _ => rfl, rfl⟩

namespace EdgeAnalysis

variable {α : Type} [Fact α] {p : Problem α} {a b : EdgeAnalysis α} {frame : Frame α}
  {c : Call α (Side × QuadId × Option Neighbor)}

/-- What a call does to the values. -/
def edit (d : Direction) (frame : Frame α) :
    Call α (Side × QuadId × Option Neighbor) → EdgeStore α → Except Error (EdgeStore α)
  | .setEntry x, s => .ok { s with entry := x }
  | .setExit x, s => .ok { s with exit := x }
  | .set (side, id, some n) x, s => s.set side id n x
  | .set (side, id, none) x, s => s.setAll side id x
  | .process q, s => do
    let v ← s.getAll d.given q.id
    s.setAll d.solved q.id (v.onFacts (frame.transfer q))
  | _, s => .ok s

/-- The values are replaced, or there is an error and they stay. -/
def replaced (a : EdgeAnalysis α) :
    Except Error (EdgeStore α) → Outcome (EdgeAnalysis α) (Answer α)
  | .ok s => ⟨.ok .done, { a with store := some s }, []⟩
  | .error e => ⟨.error e, a, []⟩

theorem change_eq_replaced {change : EdgeAnalysis α → Except Error (EdgeAnalysis α)}
    {x : Except Error (EdgeStore α)}
    (h : change a = x.map fun s => { a with store := some s }) :
    ((fun _ => Answer.done) <$> Run.change change) a = a.replaced x := by
  rw [Run.map_apply, Run.change, h]
  cases x <;> rfl

theorem write_eq_map (a : EdgeAnalysis α) (f : EdgeStore α → Except Error (EdgeStore α)) :
    a.write f = (a.stored >>= f).map fun s => { a with store := some s } := by
  unfold Analysis.write
  cases a.stored with
  | error e => rfl
  | ok s =>
    show (f s >>= fun t => pure _) = Except.map _ (f s)
    cases f s <;> rfl

/-- Without departures, processing a quad is one change of the values. -/
theorem process_eq_map {q : Quad} (ha : a.frame.departures q = []) :
    a.process q = (a.stored >>= edit a.direction a.frame (.process q)).map
      fun s => { a with store := some s } := by
  unfold EdgeAnalysis.process EdgeAnalysis.getAll Analysis.read
  simp only [ha, List.foldlM_nil, bind_pure]
  cases hs : a.stored with
  | error e => rfl
  | ok s =>
    show (s.getAll a.direction.given q.id >>= fun v => a.setAll a.direction.solved q.id _) =
      Except.map _ (s.getAll a.direction.given q.id >>= _)
    cases s.getAll a.direction.given q.id with
    | error e => rfl
    | ok v =>
      refine (write_eq_map a (·.setAll a.direction.solved q.id _)).trans ?_
      rw [hs]
      rfl

theorem process_eq_ok {q : Quad} (ha : a.frame.departures q = []) :
    a.process q = .ok b ↔ ∃ s v t, a.store = some s ∧ s.getAll a.direction.given q.id = .ok v ∧
      s.setAll a.direction.solved q.id (v.onFacts (a.frame.transfer q)) = .ok t ∧
      b = { a with store := some t } := by
  rw [process_eq_map ha]
  constructor
  · intro h
    cases ht : a.stored >>= edit a.direction a.frame (.process q) with
    | error e =>
      rw [ht] at h
      cases h
    | ok t =>
      rw [ht] at h
      obtain ⟨s, hs, hedit⟩ := bind_eq_ok.1 ht
      obtain ⟨v, hv, hset⟩ := bind_eq_ok.1 hedit
      cases h
      exact ⟨s, v, t, Analysis.stored_eq_ok.1 hs, hv, hset, rfl⟩
  · rintro ⟨s, v, t, hs, hv, hset, rfl⟩
    have hedit : a.stored >>= edit a.direction a.frame (.process q) = .ok t :=
      bind_eq_ok.2 ⟨s, Analysis.stored_eq_ok.2 hs, bind_eq_ok.2 ⟨v, hv, hset⟩⟩
    rw [hedit]
    rfl

/-- A call that changes values is one change of them. -/
theorem perform_of_isEdit (hc : c.IsEdit) (ha : ∀ q, a.frame.departures q = [])
    (level : Level) :
    perform level c a = a.replaced (a.stored >>= edit a.direction a.frame c) := by
  cases c with
  | setEntry x => exact change_eq_replaced (write_eq_map a (edit _ a.frame (.setEntry x)))
  | setExit x => exact change_eq_replaced (write_eq_map a (edit _ a.frame (.setExit x)))
  | set place x =>
    obtain ⟨side, id, _ | n⟩ := place
    · exact change_eq_replaced (write_eq_map a _)
    · exact change_eq_replaced (write_eq_map a _)
  | process q => exact change_eq_replaced (process_eq_map (ha q))
  | _ => exact hc.elim

theorem state_of_isRead (hc : c.IsRead) (level : Level) : (perform level c a).state = a := by
  cases c with
  | conclude | isForward | entry | exit | get | scratch =>
    rw [perform, Engine.perform, Run.map_apply]
    rfl
  | _ => exact hc.elim

theorem edit_full {d : Direction} {s t : EdgeStore α} (hs : s.Full d)
    (h : edit d frame c s = .ok t) : t.Full d := by
  cases c with
  | set place x =>
    obtain ⟨side, id, _ | n⟩ := place
    · exact hs.setAll h
    · exact hs.set h
  | process q =>
    obtain ⟨v, _, h⟩ := bind_eq_ok.1 h
    exact hs.setAll h
  | _ =>
    cases h
    exact ⟨hs.direction, hs.edges⟩

/-- A call that stays with the routine leaves the analysis as it is or replaces its values. -/
theorem state_of_lasting (hc : c.Lasting) (ha : ∀ q, a.frame.departures q = [])
    (level : Level) : (perform level c a).state = a ∨ ∃ s t, a.store = some s ∧
      edit a.direction a.frame c s = .ok t ∧
      (perform level c a).state = { a with store := some t } := by
  rcases hc with hc | hc
  · exact .inl (state_of_isRead hc level)
  · rw [perform_of_isEdit hc ha]
    cases ht : a.stored >>= edit a.direction a.frame c with
    | error e => exact .inl rfl
    | ok t =>
      obtain ⟨s, hs, ht⟩ := bind_eq_ok.1 ht
      exact .inr ⟨s, t, Analysis.stored_eq_ok.1 hs, ht, rfl⟩

/-- What every history keeps: a frame of the problem, and edges for every quad. -/
structure Sound (p : Problem α) (a : EdgeAnalysis α) : Prop where
  problem : a.problem = p
  framed : a.frame = p.blank ∨ ∃ f, a.frame = p.frame f
  full {s : EdgeStore α} : a.store = some s → s.Full p.direction

theorem Sound.departures (ha : Sound p a) (hp : p.Plain) (q : Quad) :
    a.frame.departures q = [] := by
  rcases ha.framed with h | ⟨f, h⟩
  · rw [h, hp.blank]
  · rw [h, hp.frame]

theorem Sound.perform_of_lasting (ha : Sound p a) (hp : p.Plain) (hc : c.Lasting)
    (level : Level) :
    Sound p (perform level c a).state ∧ (perform level c a).state.frame = a.frame ∧
      ((perform level c a).state.store = none ↔ a.store = none) := by
  rcases state_of_lasting hc (ha.departures hp) level with hstate | ⟨s, t, hs, ht, hstate⟩
  · rw [hstate]
    exact ⟨ha, rfl, .rfl⟩
  · rw [hstate]
    have hdirection : a.direction = p.direction := congrArg Problem.direction ha.problem
    refine ⟨⟨ha.problem, ha.framed, fun h => ?_⟩, rfl, by simp [hs]⟩
    cases h
    rw [hdirection] at ht
    exact edit_full (ha.full hs) ht

theorem Sound.prepare (ha : Sound p a) (f : Routine) : Sound p (prepare f a).state := by
  obtain rfl := ha.problem
  show Sound a.problem
    ((Run.ofExcept f.locations >>= _) { a with frame := a.problem.frame f }).state
  cases f.locations with
  | error e => exact ⟨rfl, .inr ⟨f, rfl⟩, ha.full⟩
  | ok ls =>
    refine ⟨rfl, .inr ⟨f, rfl⟩, fun h => ?_⟩
    cases h
    exact EdgeStore.full_ofRoutine ..

/-- The analysis has been made for the problem, and been through some calls. -/
def Reached (level : Level) (p : Problem α) (a : EdgeAnalysis α) : Prop :=
  ∃ history, (∀ c ∈ history, Call.Direct c) ∧
    a = (Run.session (perform level) history (.ofProblem p)).2

theorem Reached.sound {level : Level} (h : Reached level p a) (hp : p.Plain) : Sound p a := by
  obtain ⟨history, hdirect, rfl⟩ := h
  refine Run.Keeps.session (fun c hc b hb => ?_) ⟨rfl, .inl rfl, fun h => by cases h⟩
  rcases hdirect c hc with hc | ⟨f, rfl⟩
  · exact (hb.perform_of_lasting hp hc level).1
  · rw [perform, Engine.perform, Run.map_apply]
    exact hb.prepare f

end EdgeAnalysis

end Dataflow
