import Dataflow.Proofs.Semilattice
import Dataflow.Proofs.Solving

/-! # Stores by edge

Writes on a store by edge go to one edge of a quad, to all edges that it has, to its given side
or to a boundary. After any number of them an edge has the last value that was written to it, an
edge is missing only if nothing ever opened it, and the value over all edges of a quad is the meet
of their values. A write reaches one side of one quad at most.
-/
namespace Dataflow

theorem Run.session_concat {σ γ ρ : Type} (perform : γ → Run σ ρ) (cs : List γ) (c : γ) (s : σ) :
    (session perform (cs ++ [c]) s).2 = (perform c (session perform cs s).2).state := by
  induction cs generalizing s with
  | nil => rfl
  | cons b cs ih => exact ih (perform b s).state

theorem QuadTable.get_of_set {α : Type} {v w : QuadTable α} {id : QuadId} {a : α}
    (h : v.set id a = .ok w) (j : QuadId) : w.get j = if j = id then .ok a else v.get j := by
  obtain ⟨b, hb⟩ := exists_get_of_set h
  obtain ⟨u, hu, hsame, hother⟩ := exists_set hb a
  cases h.symm.trans hu
  split
  · rename_i hj
    rw [hj, hsame]
  · rename_i hj
    exact hother j hj

namespace EdgeStore

variable {α : Type} [Fact α]

/-- A change of the value of one edge, of all edges of a quad on the solved side, of the given
side of a quad, or of a boundary. -/
inductive Write (α : Type) [Fact α] where
  | edge (id : QuadId) (n : Neighbor) (x : FactSet α)
  | edges (id : QuadId) (x : FactSet α)
  | given (id : QuadId) (x : FactSet α)
  | entry (x : FactSet α)
  | exit (x : FactSet α)

namespace Write

def value : Write α → FactSet α
  | edge _ _ x | edges _ x | given _ x | entry x | exit x => x

/-- The side and the quad whose values are written to, unless it is a boundary. -/
def place (d : Direction) : Write α → Option (Side × QuadId)
  | edge id _ _ | edges id _ => some (d.solved, id)
  | given id _ => some (d.given, id)
  | entry _ | exit _ => none

/-- What becomes of the edges of a quad. -/
def onEdges (w : Write α) (id : QuadId) (m : OrderedMap Neighbor (FactSet α)) :
    OrderedMap Neighbor (FactSet α) :=
  match w with
  | edge j n x => if j = id then m.set n x else m
  | edges j x => if j = id then m.map (fun _ => x) else m
  | given _ _ | entry _ | exit _ => m

/-- What becomes of one edge of a quad. -/
def onEdge (w : Write α) (id : QuadId) (n : Neighbor) (old : Option (FactSet α)) :
    Option (FactSet α) :=
  match w with
  | edge j m x => if j = id ∧ m = n then some x else old
  | edges j x => if j = id then old.map (fun _ => x) else old
  | given _ _ | entry _ | exit _ => old

theorem get?_onEdges (w : Write α) (id : QuadId) (m : OrderedMap Neighbor (FactSet α))
    (n : Neighbor) : (w.onEdges id m).get? n = w.onEdge id n (m.get? n) := by
  cases w with
  | edge j k x =>
    by_cases hj : j = id
    · simp [onEdges, onEdge, hj, eq_comm]
    · simp [onEdges, onEdge, hj]
  | edges j x =>
    by_cases hj : j = id
    · simp [onEdges, onEdge, hj]
    · simp [onEdges, onEdge, hj]
  | given | entry | exit => rfl

theorem get?_foldl_onEdges (ws : List (Write α)) (id : QuadId)
    (m : OrderedMap Neighbor (FactSet α)) (n : Neighbor) :
    (ws.foldl (fun m w => w.onEdges id m) m).get? n =
      ws.foldl (fun old w => w.onEdge id n old) (m.get? n) := by
  induction ws generalizing m with
  | nil => rfl
  | cons w ws ih => rw [List.foldl_cons, List.foldl_cons, ih, get?_onEdges]

end Write

def write (w : Write α) : Run (EdgeStore α) Unit := Run.change fun s =>
  match w with
  | .edge id n x => s.set s.direction.solved id n x
  | .edges id x => s.setAll s.direction.solved id x
  | .given id x => s.setAll s.direction.given id x
  | .entry x => .ok { s with entry := x }
  | .exit x => .ok { s with exit := x }

section Steps

variable {s t : EdgeStore α} {d : Direction} {w : Write α} {id : QuadId}

/-- What a write may do to a store: change the edges as it should, and the given side of a quad or
a boundary if it is a write to that. -/
structure Step (w : Write α) (s t : EdgeStore α) : Prop where
  direction : t.direction = s.direction
  top : t.top = s.top
  edges (id : QuadId) : t.edges.slots.get? id = (s.edges.slots.get? id).map (w.onEdges id)
  unified : t.unified = s.unified ∨ ∃ id x, w = .given id x ∧ s.unified.set id x = .ok t.unified
  entry : t.entry = s.entry ∨ w = .entry t.entry
  exit : t.exit = s.exit ∨ w = .exit t.exit

theorem Step.refl (hw : ∀ id, (s.edges.slots.get? id).map (w.onEdges id) = s.edges.slots.get? id) :
    Step w s s := ⟨rfl, rfl, fun id => (hw id).symm, .inl rfl, .inl rfl, .inl rfl⟩

/-- The store with the edges of a quad revised. -/
def revise (s : EdgeStore α) (id : QuadId)
    (f : OrderedMap Neighbor (FactSet α) → OrderedMap Neighbor (FactSet α)) :
    Except Error (EdgeStore α) :=
  match s.edges.slots.get? id with
  | some m => .ok { s with edges := ⟨s.edges.slots.set id (f m)⟩ }
  | none => .error (.unknownQuad id)

theorem set_solved (s : EdgeStore α) (id : QuadId) (n : Neighbor) (x : FactSet α) :
    s.set s.direction.solved id n x = s.revise id (·.set n x) := by
  unfold EdgeStore.set revise EdgeTable.set EdgeTable.edges
  rw [if_pos rfl]
  cases s.edges.slots.get? id <;> rfl

theorem setAll_solved (s : EdgeStore α) (id : QuadId) (x : FactSet α) :
    s.setAll s.direction.solved id x = s.revise id (·.map fun _ => x) := by
  unfold EdgeStore.setAll revise EdgeTable.setAll EdgeTable.edges
  rw [if_pos rfl]
  cases s.edges.slots.get? id <;> rfl

theorem step_revise {f : OrderedMap Neighbor (FactSet α) → OrderedMap Neighbor (FactSet α)}
    {j : QuadId} (hw : ∀ id, w.onEdges id = fun m => if j = id then f m else m)
    (s : EdgeStore α) : Step w s (Run.change (·.revise j f) s).state := by
  cases hm : s.edges.slots.get? j with
  | none =>
    have hstate : (Run.change (·.revise j f) s).state = s := by simp [Run.change, revise, hm]
    rw [hstate]
    refine .refl fun id => ?_
    by_cases hj : j = id
    · simp [← hj, hm]
    · simp [hw, hj]
  | some m =>
    have hstate : (Run.change (·.revise j f) s).state =
        { s with edges := ⟨s.edges.slots.set j (f m)⟩ } := by simp [Run.change, revise, hm]
    rw [hstate]
    refine ⟨rfl, rfl, fun id => ?_, .inl rfl, .inl rfl, .inl rfl⟩
    by_cases hj : j = id
    · simp [hw, ← hj, hm]
    · simp [hw, hj, Ne.symm hj]

theorem step_write (w : Write α) (s : EdgeStore α) : Step w s (write w s).state := by
  cases w with
  | edge j n x =>
    simp only [write, set_solved]
    exact step_revise (fun id => rfl) s
  | edges j x =>
    simp only [write, setAll_solved]
    exact step_revise (fun id => rfl) s
  | given j x =>
    simp only [write, setAll, if_neg s.direction.given_ne_solved, Run.change]
    cases hset : s.unified.set j x with
    | error e => exact .refl fun id => Option.map_id'
    | ok u =>
      exact ⟨rfl, rfl, fun id => Option.map_id'.symm, .inr ⟨j, x, rfl, hset⟩, .inl rfl, .inl rfl⟩
  | entry x => exact ⟨rfl, rfl, fun id => Option.map_id'.symm, .inl rfl, .inr rfl, .inl rfl⟩
  | exit x => exact ⟨rfl, rfl, fun id => Option.map_id'.symm, .inl rfl, .inl rfl, .inr rfl⟩

theorem onEdges_of_place (h : w.place d ≠ some (d.solved, id)) : w.onEdges id = fun m => m := by
  funext m
  cases w with
  | edge j | edges j =>
    have hj : j ≠ id := fun heq => h (heq ▸ rfl)
    simp [Write.onEdges, hj]
  | given | entry | exit => rfl

theorem Step.edges_eq (h : Step w s t) (hid : w.place d ≠ some (d.solved, id)) :
    t.edges.edges id = s.edges.edges id := by
  unfold EdgeTable.edges
  rw [h.edges, onEdges_of_place hid, Option.map_id']

/-- A write leaves the edges of every other quad. -/
theorem Step.get_eq (h : Step w s t) (hid : w.place d ≠ some (d.solved, id)) (n : Neighbor) :
    t.get d.solved id n = s.get d.solved id n := by
  unfold EdgeStore.get EdgeTable.get
  rw [h.direction, h.edges_eq hid]

theorem Step.getAll_eq (h : Step w s t) (hd : s.direction = d)
    (hid : w.place d ≠ some (d.solved, id)) : t.getAll d.solved id = s.getAll d.solved id := by
  unfold EdgeStore.getAll EdgeTable.meetAll
  rw [h.direction, hd, if_pos rfl, if_pos rfl, h.top, h.edges_eq hid]

/-- The given side of a quad is changed only by a write to it. -/
theorem Step.getAll_given (h : Step w s t) (hd : s.direction = d)
    (hid : w.place d ≠ some (d.given, id)) : t.getAll d.given id = s.getAll d.given id := by
  unfold EdgeStore.getAll
  rw [h.direction, hd, if_neg d.given_ne_solved, if_neg d.given_ne_solved]
  rcases h.unified with heq | ⟨j, x, rfl, hset⟩
  · rw [heq]
  · rw [QuadTable.get_of_set hset, if_neg]
    rintro rfl
    exact hid rfl

/-- What a course of writes does to the edges of any quad. -/
theorem steps_session (ws : List (Write α)) (s : EdgeStore α) :
    (Run.session write ws s).2.direction = s.direction ∧
      (Run.session write ws s).2.top = s.top ∧
      ∀ id, (Run.session write ws s).2.edges.slots.get? id =
        (s.edges.slots.get? id).map (fun m => ws.foldl (fun m w => w.onEdges id m) m) := by
  induction ws generalizing s with
  | nil => exact ⟨rfl, rfl, fun id => Option.map_id'.symm⟩
  | cons w ws ih =>
    have hw := step_write w s
    obtain ⟨hdirection, htop, hedges⟩ := ih (write w s).state
    refine ⟨hdirection.trans hw.direction, htop.trans hw.top, fun id => (hedges id).trans ?_⟩
    rw [hw.edges, Option.map_map]
    rfl

end Steps

section History

variable (d : Direction) (l : Location) (n : Neighbor)

/-- The edge has a value: it has had one from the start, or a write has added it. -/
def Opened (ws : List (Write α)) : Prop := n ∈ d.slots l ∨ ∃ x, .edge l.id n x ∈ ws

/-- A write after these others gives the edge a value, alone or, if it has been opened by then,
with all edges of its quad. -/
def Gives (ws : List (Write α)) (w : Write α) (x : FactSet α) : Prop :=
  w = .edge l.id n x ∨ w = .edges l.id x ∧ Opened d l n ws

def GivenAt (ws : List (Write α)) (i : Nat) (x : FactSet α) : Prop :=
  ∃ w, ws[i]? = some w ∧ Gives d l n (ws.take i) w x

/-- The value that the edge was given last, or the initial one if it was given none. -/
def LastGiven (initial : FactSet α) (ws : List (Write α)) (x : FactSet α) : Prop :=
  (∃ i, GivenAt d l n ws i x ∧ ∀ j y, i < j → ¬ GivenAt d l n ws j y) ∨
    x = initial ∧ ∀ i y, ¬ GivenAt d l n ws i y

variable {d l n} {ws : List (Write α)} {w : Write α} {i : Nat} {initial x y : FactSet α}

theorem opened_concat : Opened d l n (ws ++ [w]) ↔ Opened d l n ws ∨ ∃ x, w = .edge l.id n x := by
  unfold Opened
  rw [or_assoc]
  simp only [List.mem_append, List.mem_singleton, exists_or, eq_comm]

theorem Gives.value_eq (h : Gives d l n ws w x) : w.value = x := by
  rcases h with rfl | ⟨rfl, _⟩ <;> rfl

theorem Gives.unique (h : Gives d l n ws w x) (h' : Gives d l n ws w y) : x = y :=
  h.value_eq.symm.trans h'.value_eq

theorem GivenAt.lt_length (h : GivenAt d l n ws i x) : i < ws.length := by
  obtain ⟨w, hw, _⟩ := h
  exact (List.getElem?_eq_some_iff.1 hw).1

theorem givenAt_concat : GivenAt d l n (ws ++ [w]) i x ↔
    GivenAt d l n ws i x ∨ i = ws.length ∧ Gives d l n ws w x := by
  rcases Nat.lt_trichotomy i ws.length with hi | rfl | hi
  · simp [GivenAt, List.getElem?_append_left hi, List.take_append_of_le_length hi.le, hi.ne]
  · simp [GivenAt]
  · constructor
    · intro h
      have hlt : i < ws.length + 1 := by simpa using h.lt_length
      omega
    · rintro (h | ⟨rfl, _⟩)
      · exact absurd h.lt_length hi.not_gt
      · exact absurd hi (Nat.lt_irrefl _)

/-- What the last of the writes gives is what was given last. -/
theorem lastGiven_concat_of_gives (h : Gives d l n ws w y) :
    LastGiven d l n initial (ws ++ [w]) x ↔ x = y := by
  have hend : GivenAt d l n (ws ++ [w]) ws.length y := givenAt_concat.2 (.inr ⟨rfl, h⟩)
  constructor
  · rintro (⟨i, hi, hlast⟩ | ⟨_, hnone⟩)
    · rcases givenAt_concat.1 hi with hi | ⟨_, hx⟩
      · exact absurd hend (hlast _ _ hi.lt_length)
      · exact hx.unique h
    · exact absurd hend (hnone _ _)
  · rintro rfl
    refine .inl ⟨ws.length, hend, fun j z hj hz => ?_⟩
    have hlt : j < ws.length + 1 := by simpa using hz.lt_length
    omega

theorem lastGiven_concat (h : ∀ y, ¬ Gives d l n ws w y) :
    LastGiven d l n initial (ws ++ [w]) x ↔ LastGiven d l n initial ws x := by
  have hsame (i : Nat) (y : FactSet α) : GivenAt d l n (ws ++ [w]) i y ↔ GivenAt d l n ws i y := by
    rw [givenAt_concat]
    simp [h]
  simp only [LastGiven, hsame]

theorem LastGiven.eq_or_mem (h : LastGiven d l n initial ws x) :
    x = initial ∨ ∃ w ∈ ws, w.value = x := by
  rcases h with ⟨i, ⟨w, hw, hgives⟩, _⟩ | ⟨hx, _⟩
  · exact .inr ⟨w, List.mem_of_getElem? hw, hgives.value_eq⟩
  · exact .inl hx

theorem onEdge_of_gives {old : Option (FactSet α)} (hold : old.isSome ↔ Opened d l n ws)
    (h : Gives d l n ws w x) : w.onEdge l.id n old = some x := by
  rcases h with rfl | ⟨rfl, hopened⟩
  · simp [Write.onEdge]
  · obtain ⟨y, rfl⟩ := Option.isSome_iff_exists.1 (hold.2 hopened)
    simp [Write.onEdge]

theorem onEdge_of_not_gives {old : Option (FactSet α)} (hold : old.isSome ↔ Opened d l n ws)
    (h : ∀ x, ¬ Gives d l n ws w x) : w.onEdge l.id n old = old := by
  cases w with
  | edge j m x =>
    apply if_neg
    rintro ⟨rfl, rfl⟩
    exact h x (.inl rfl)
  | edges j x =>
    by_cases hj : j = l.id
    · have hnone : old = none := by
        rw [← Option.not_isSome_iff_eq_none, hold]
        exact fun hopened => h x (.inr ⟨hj ▸ rfl, hopened⟩)
      simp [Write.onEdge, hnone]
    · exact if_neg hj
  | given | entry | exit => rfl

/-- What becomes of an edge under a course of writes. -/
theorem foldl_onEdge (d : Direction) (l : Location) (n : Neighbor) (initial : FactSet α)
    (ws : List (Write α)) : ∃ final, ws.foldl (fun old w => w.onEdge l.id n old)
        (if n ∈ d.slots l then some initial else none) = final ∧
      (final.isSome ↔ Opened d l n ws) ∧
      ∀ x, final = some x ↔ Opened d l n ws ∧ LastGiven d l n initial ws x := by
  -- The writes are taken up one by one from the first: whether an edge is opened by the time of a
  -- write depends on those before it.
  induction ws using List.reverseRecOn with
  | nil =>
    refine ⟨_, rfl, ?_, fun x => ?_⟩
    · simp [Opened]
    · simp [Opened, LastGiven, GivenAt, eq_comm]
  | append_singleton ws w ih =>
    obtain ⟨old, hold, hopened, hlast⟩ := ih
    rw [List.foldl_append, List.foldl_cons, List.foldl_nil, hold]
    by_cases hgives : ∃ y, Gives d l n ws w y
    · obtain ⟨y, hy⟩ := hgives
      have hopen : Opened d l n (ws ++ [w]) := by
        rcases hy with rfl | ⟨_, hopen⟩
        · exact opened_concat.2 (.inr ⟨y, rfl⟩)
        · exact opened_concat.2 (.inl hopen)
      refine ⟨some y, onEdge_of_gives hopened hy, by simp [hopen], fun x => ?_⟩
      simp [hopen, lastGiven_concat_of_gives hy, eq_comm]
    · have hnot : ∀ y, ¬ Gives d l n ws w y := fun y hy => hgives ⟨y, hy⟩
      have hsame : Opened d l n (ws ++ [w]) ↔ Opened d l n ws := by
        rw [opened_concat]
        exact or_iff_left fun ⟨y, hy⟩ => hnot y (.inl hy)
      refine ⟨old, onEdge_of_not_gives hopened hnot, by rw [hsame, hopened], fun x => ?_⟩
      rw [hsame, lastGiven_concat hnot, hlast]

end History

section Reading

variable {s : EdgeStore α} {d : Direction} {l : Location} {id : QuadId}
  {m : OrderedMap Neighbor (FactSet α)} {initial x : FactSet α} {ws : List (Write α)}

theorem get_solved (hd : s.direction = d) (hm : s.edges.slots.get? id = some m) (n : Neighbor) :
    s.get d.solved id n = match m.get? n with
      | some x => .ok x
      | none => .error (.unknownEdge id (toString n)) := by
  unfold EdgeStore.get EdgeTable.get
  rw [hd, if_pos rfl, EdgeTable.edges_eq_ok.2 hm]
  simp only [bind, Except.bind]
  cases m.get? n <;> rfl

theorem get_solved_eq_ok (hd : s.direction = d) (hm : s.edges.slots.get? id = some m)
    {n : Neighbor} : s.get d.solved id n = .ok x ↔ m.get? n = some x := by
  rw [get_solved hd hm]
  cases m.get? n <;> simp

theorem get_solved_eq_error (hd : s.direction = d) (hm : s.edges.slots.get? id = some m)
    {n : Neighbor} :
    s.get d.solved id n = .error (.unknownEdge id (toString n)) ↔ m.get? n = none := by
  rw [get_solved hd hm]
  cases m.get? n <;> simp

theorem getAll_solved (hd : s.direction = d) (hm : s.edges.slots.get? id = some m) :
    s.getAll d.solved id = .ok (m.values.foldl FactSet.meet s.top) := by
  unfold EdgeStore.getAll EdgeTable.meetAll
  rw [hd, if_pos rfl, EdgeTable.edges_eq_ok.2 hm]
  rfl

/-- What a store shows of the edges of a quad after these writes: some edge has a value, each has
the last one that it was given, only edges that nothing has opened are missing, and the value over
all edges is the meet of theirs. -/
structure Remembers (s : EdgeStore α) (d : Direction) (l : Location) (initial : FactSet α)
    (ws : List (Write α)) : Prop where
  kept : ∃ n x, s.get d.solved l.id n = .ok x
  get_iff (n : Neighbor) (x : FactSet α) :
    s.get d.solved l.id n = .ok x ↔ Opened d l n ws ∧ LastGiven d l n initial ws x
  missing_iff (n : Neighbor) :
    s.get d.solved l.id n = .error (.unknownEdge l.id (toString n)) ↔ ¬ Opened d l n ws
  getAll : ∃ v, s.getAll d.solved l.id = .ok v ∧ v.domain = initial.domain ∧
    v.confluence = initial.confluence ∧ ∀ u, initial.confluence.Le u v.facts ↔
      ∀ n x, s.get d.solved l.id n = .ok x → initial.confluence.Le u x.facts

/-- A meet from the top down over the values of some edges, one of which is over the domain. -/
theorem le_foldl_meet_values_iff {u : OrderedSet α} {n : Neighbor} {y : FactSet α}
    (hn : m.get? n = some y) (hy : y.facts ⊆ initial.domain) :
    initial.confluence.Le u (m.values.foldl FactSet.meet initial.toTop).facts ↔
      ∀ n x, m.get? n = some x → initial.confluence.Le u x.facts := by
  have hfold : (m.values.foldl FactSet.meet initial.toTop).facts =
      (m.values.map FactSet.facts).foldl initial.confluence.meet
        (initial.confluence.top initial.domain) := by
    rw [FactSet.foldl_meet_eq]
    cases hc : initial.confluence <;> simp [FactSet.toTop, Confluence.top, hc]
  rw [hfold, Confluence.le_foldl_meet_iff, List.forall_mem_map]
  constructor
  · rintro ⟨_, h⟩ k x hk
    exact h x (OrderedMap.mem_values_iff.2 ⟨k, hk⟩)
  · intro h
    refine ⟨(h n y hn).trans (Confluence.le_top hy), fun x hx => ?_⟩
    obtain ⟨k, hk⟩ := OrderedMap.mem_values_iff.1 hx
    exact h k x hk

variable {f : Routine} {ls : List Location} {boundary : FactSet α}

theorem get?_ofRoutine (hf : f.graph.Coherent) (hls : f.locations = .ok ls) (d : Direction)
    (initial boundary : FactSet α) (hl : l ∈ ls) :
    ∃ m, (ofRoutine d f ls initial boundary).edges.slots.get? l.id = some m ∧
      ∀ n, m.get? n = if n ∈ d.slots l then some initial else none := by
  cases d with
  | forward => exact EdgeTable.uniform_ofList .forward (hf.locations_nodup hls) initial hl
  | backward => exact EdgeTable.uniform_ofList .backward (hf.locations_nodup hls) initial hl

/-- The edges of a quad after these writes. -/
theorem exists_edges_session (hf : f.graph.Coherent) (hls : f.locations = .ok ls) (d : Direction)
    (initial boundary : FactSet α) (ws : List (Write α)) (hl : l ∈ ls) :
    ∃ m, (Run.session write ws (ofRoutine d f ls initial boundary)).2.edges.slots.get? l.id =
        some m ∧
      ∀ n, ((m.get? n).isSome ↔ Opened d l n ws) ∧
        ∀ x, m.get? n = some x ↔ Opened d l n ws ∧ LastGiven d l n initial ws x := by
  obtain ⟨_, _, hedges⟩ := steps_session ws (ofRoutine d f ls initial boundary)
  obtain ⟨m, hm, hslots⟩ := get?_ofRoutine hf hls d initial boundary hl
  refine ⟨_, by rw [hedges, hm, Option.map_some], fun n => ?_⟩
  obtain ⟨final, hfinal, hopened, hlast⟩ := foldl_onEdge d l n initial ws
  rw [Write.get?_foldl_onEdges, hslots, hfinal]
  exact ⟨hopened, hlast⟩

theorem remembers_session (hf : f.graph.Coherent) (hls : f.locations = .ok ls)
    (hinitial : initial.facts ⊆ initial.domain) (hws : ∀ w ∈ ws, w.value.facts ⊆ initial.domain)
    (hl : l ∈ ls) :
    (Run.session write ws (ofRoutine d f ls initial boundary)).2.Remembers d l initial ws := by
  obtain ⟨hd, htop, _⟩ := steps_session ws (ofRoutine d f ls initial boundary)
  obtain ⟨m, hm, hlast⟩ := exists_edges_session hf hls d initial boundary ws hl
  replace hd : _ = d := hd
  replace htop : _ = initial.toTop := htop
  have hok (n : Neighbor) (x : FactSet α) := get_solved_eq_ok hd hm (n := n) (x := x)
  obtain ⟨n, hn⟩ := List.exists_mem_of_ne_nil _ (d.slots_ne_nil l)
  obtain ⟨y, hy⟩ := Option.isSome_iff_exists.1 ((hlast n).1.2 (.inl hn))
  have hdomain : y.facts ⊆ initial.domain := by
    rcases (((hlast n).2 y).1 hy).2.eq_or_mem with rfl | ⟨w, hw, rfl⟩
    · exact hinitial
    · exact hws w hw
  refine ⟨⟨n, y, (hok n y).2 hy⟩, fun n x => (hok n x).trans ((hlast n).2 x), fun n => ?_,
    _, getAll_solved hd hm, ?_, ?_, fun u => ?_⟩
  · rw [get_solved_eq_error hd hm, ← (hlast n).1, Option.not_isSome_iff_eq_none]
  · rw [FactSet.foldl_meet_eq, htop]
    rfl
  · rw [FactSet.foldl_meet_eq, htop]
    rfl
  · simp only [hok]
    rw [htop]
    exact le_foldl_meet_values_iff hy hdomain

/-- Right after a value has been written to all edges of a quad, it is the value over all of
them. -/
theorem Remembers.getAll_eq (h : s.Remembers d l initial (ws ++ [.edges l.id x])) :
    s.getAll d.solved l.id = .ok { initial with facts := x.facts } := by
  -- Every edge that there is has been given the value by the last write.
  have hedge (n : Neighbor) (y : FactSet α) (hy : s.get d.solved l.id n = .ok y) : y = x := by
    obtain ⟨hopened, hlast⟩ := (h.get_iff n y).1 hy
    have hbefore : Opened d l n ws := by
      rcases opened_concat.1 hopened with hbefore | ⟨z, hz⟩
      · exact hbefore
      · cases hz
    exact (lastGiven_concat_of_gives (.inr ⟨rfl, hbefore⟩)).1 hlast
  obtain ⟨n, y, hy⟩ := h.kept
  obtain ⟨v, hv, hdomain, hconfluence, hle⟩ := h.getAll
  have hfacts : v.facts = x.facts := by
    apply Confluence.Le.antisymm (c := initial.confluence)
    · have hlower := (hle v.facts).1 (.refl _ _) n y hy
      rwa [hedge n y hy] at hlower
    · refine (hle x.facts).2 fun k z hz => ?_
      rw [hedge k z hz]
      exact .refl _ _
  rw [hv, ← hdomain, ← hconfluence, ← hfacts]

theorem exists_write_edges (hf : f.graph.Coherent) (hls : f.locations = .ok ls)
    (hinitial : initial.facts ⊆ initial.domain) (hws : ∀ w ∈ ws, w.value.facts ⊆ initial.domain)
    (hl : l ∈ ls) (hx : x.facts ⊆ initial.domain) :
    ∃ t, write (.edges l.id x) (Run.session write ws (ofRoutine d f ls initial boundary)).2 =
        ⟨.ok (), t, []⟩ ∧ t.getAll d.solved l.id = .ok { initial with facts := x.facts } := by
  obtain ⟨m, hm, _⟩ := exists_edges_session hf hls d initial boundary ws hl
  obtain ⟨t, ht⟩ : ∃ t, write (.edges l.id x)
      (Run.session write ws (ofRoutine d f ls initial boundary)).2 = ⟨.ok (), t, []⟩ := by
    simp [write, setAll_solved, revise, hm, Run.change]
  have hstate : (Run.session write (ws ++ [.edges l.id x])
      (ofRoutine d f ls initial boundary)).2 = t := by rw [Run.session_concat, ht]
  have hall : ∀ w ∈ ws ++ [.edges l.id x], w.value.facts ⊆ initial.domain := by
    intro w hw
    rcases List.mem_append.1 hw with hw | hw
    · exact hws w hw
    · cases List.mem_singleton.1 hw
      exact hx
  have hremembers : t.Remembers d l initial (ws ++ [.edges l.id x]) :=
    hstate ▸ remembers_session hf hls hinitial hall hl
  exact ⟨t, ht, hremembers.getAll_eq⟩

end Reading

/-- A store by edge for the locations of a routine never loses the solved side of a quad. After any
writes of values over its domain, every quad has an edge with a value, each edge has the last value
that was written to it, alone or with all the others once it was there, and is missing only if it is
no neighbor on the solved side, nor stands for one at a quad that has none, and was never written to
alone. The value over all edges is their meet, and just what has been written to all of them if that
was the last write. No write changes another quad, nor the other side of its own. -/
theorem edge_stores_keep_solved_values {f : Routine} (hf : f.graph.Built) {ls : List Location}
    (hls : f.locations = .ok ls) (d : Direction) {initial : FactSet α}
    (hinitial : initial.facts ⊆ initial.domain) (boundary : FactSet α) {ws : List (Write α)}
    (hws : ∀ w ∈ ws, w.value.facts ⊆ initial.domain) {s : EdgeStore α}
    (hs : (Run.session write ws (ofRoutine d f ls initial boundary)).2 = s) :
    (∀ q ∈ f.quads, ∃ l ∈ ls, l.quad = q ∧ s.Remembers d l initial ws ∧
      ∀ x : FactSet α, x.facts ⊆ initial.domain → ∃ t, write (.edges q.id x) s = ⟨.ok (), t, []⟩ ∧
        t.getAll d.solved q.id = .ok { initial with facts := x.facts }) ∧
    ∀ (w : Write α) (id : QuadId),
      (w.place d ≠ some (d.solved, id) →
        (∀ n, (write w s).state.get d.solved id n = s.get d.solved id n) ∧
          (write w s).state.getAll d.solved id = s.getAll d.solved id) ∧
      (w.place d ≠ some (d.given, id) →
        (write w s).state.getAll d.given id = s.getAll d.given id) := by
  have hdirection : s.direction = d := hs ▸ (steps_session ws _).1
  constructor
  · intro q hq
    obtain ⟨l, hl, rfl⟩ := FlowGraph.exists_location_of_quad hls hq
    subst hs
    exact ⟨l, hl, rfl, remembers_session hf.coherent hls hinitial hws hl,
      fun x => exists_write_edges hf.coherent hls hinitial hws hl⟩
  · intro w id
    have hstep := step_write w s
    exact ⟨fun hid => ⟨hstep.get_eq hid, hstep.getAll_eq hdirection hid⟩,
      hstep.getAll_given hdirection⟩

/-- Behind the second quad the graph runs in a circle without quads, so the quad has one edge only,
kept at the exit, which takes the value written to all edges. The first quad has no such edge.
-/
theorem value_kept_before_empty_ring : ∃ g ls, FlowGraph.ofOutline ⟨some 0,
      [⟨0, [⟨2, .new ⟨"x"⟩ "A"⟩, ⟨5, .nullCheck ⟨"x"⟩⟩]⟩, ⟨1, []⟩], [⟨0, 1⟩, ⟨1, 1⟩]⟩ = .ok g ∧
    (⟨"f", [], g⟩ : Routine).locations = .ok ls ∧
    ∃ (initial x : FactSet QuadId) (s : EdgeStore QuadId),
      initial = .top (.ofList [2, 5]) .must ∧ x = .ofFacts (.ofList [2, 5]) .must [2] ∧
      (Run.session write [.edge 2 (.quad 7) x, .edges 5 x]
        (ofRoutine .forward ⟨"f", [], g⟩ ls initial initial)).2 = s ∧
      s.get .output 5 .exit = .ok x ∧
      s.get .output 2 .exit = .error (.unknownEdge 2 (toString Neighbor.exit)) := by
  obtain ⟨g, hg, ls, hls, hquads, hsuccessors⟩ : ∃ g, FlowGraph.ofOutline ⟨some 0,
      [⟨0, [⟨2, .new ⟨"x"⟩ "A"⟩, ⟨5, .nullCheck ⟨"x"⟩⟩]⟩, ⟨1, []⟩], [⟨0, 1⟩, ⟨1, 1⟩]⟩ = .ok g ∧
      ∃ ls, (⟨"f", [], g⟩ : Routine).locations = .ok ls ∧
        g.quads = [⟨2, .new ⟨"x"⟩ "A"⟩, ⟨5, .nullCheck ⟨"x"⟩⟩] ∧
        ∀ l ∈ ls, l.successors = if l.id = 2 then [.quad 5] else [] :=
    ⟨_, rfl, _, rfl, rfl, by decide⟩
  let initial : FactSet QuadId := .top (.ofList [2, 5]) .must
  let x : FactSet QuadId := .ofFacts (.ofList [2, 5]) .must [2]
  have hx : x.facts ⊆ initial.domain := by
    intro a ha
    have ha : a ∈ [2] := OrderedSet.mem_ofList.1 ha
    exact OrderedSet.mem_ofList.2 (List.mem_cons.2 (.inl (List.mem_singleton.1 ha)))
  have hws : ∀ w ∈ ([.edge 2 (.quad 7) x, .edges 5 x] : List (Write QuadId)),
      w.value.facts ⊆ initial.domain := by
    simp only [List.forall_mem_cons]
    exact ⟨hx, hx, fun w hw => absurd hw List.not_mem_nil⟩
  obtain ⟨hquad, _⟩ := edge_stores_keep_solved_values (FlowGraph.built_ofOutline hg) hls .forward
    (OrderedSet.subset_refl _) initial hws rfl
  obtain ⟨l, hl, hlquad, hfirst, _⟩ := hquad ⟨2, .new ⟨"x"⟩ "A"⟩ (by simp [Routine.quads, hquads])
  obtain ⟨k, hk, hkquad, hsecond, _⟩ :=
    hquad ⟨5, .nullCheck ⟨"x"⟩⟩ (by simp [Routine.quads, hquads])
  have hlid : l.id = 2 := congrArg Quad.id hlquad
  have hkid : k.id = 5 := congrArg Quad.id hkquad
  have hslot : Neighbor.exit ∈ Direction.forward.slots k := by
    simp [Direction.slots, Direction.outgoing, Direction.farEnd, hsuccessors k hk, hkid]
  have hnot : ¬ Opened .forward l .exit [.edge 2 (.quad 7) x, .edges 5 x] := by
    simp [Opened, Direction.slots, Direction.outgoing, hsuccessors l hl, hlid]
  have hlast : LastGiven .forward k .exit initial ([.edge 2 (.quad 7) x] ++ [.edges 5 x]) x :=
    (lastGiven_concat_of_gives (.inr ⟨by rw [hkid], .inl hslot⟩)).2 rfl
  have hexit := (hsecond.get_iff .exit x).2 ⟨.inl hslot, hlast⟩
  have hmissing := (hfirst.missing_iff .exit).2 hnot
  rw [hkid] at hexit
  rw [hlid] at hmissing
  exact ⟨g, ls, hg, hls, initial, x, _, rfl, rfl, rfl, hexit, hmissing⟩

end EdgeStore

end Dataflow
