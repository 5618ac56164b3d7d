import Dataflow.Proofs.Serving

/-! # Levels of logging

The same calls are made at two levels. Lines are written between the steps of a run, and a line
that only shows what is at hand leaves no trace in the outcome. A line that has to be read first
may fail, and then takes the run with it: such lines stand in the conclusions of two problems, and
nowhere else. So the state never depends on the level, and an answer does only where one of these
problems concludes about values that are not there.
-/
namespace Dataflow

theorem isOk_of_bind {ε α β : Type} {x : Except ε α} {f : α → Except ε β} (h : (x >>= f).isOk) :
    x.isOk := by
  cases x with
  | error e => cases h
  | ok a => rfl

namespace Run

variable {σ α β γ ρ : Type}

/-- The runs do the same, apart from their logs. -/
def Alike (r r' : Run σ α) : Prop := ∀ s, (r s).Like (r' s)

theorem Alike.refl (r : Run σ α) : Alike r r := fun _ => ⟨rfl, rfl⟩

theorem Alike.bind {r r' : Run σ α} {f f' : α → Run σ β} (hr : Alike r r')
    (hf : ∀ a, Alike (f a) (f' a)) : Alike (r >>= f) (r' >>= f') := by
  intro s
  obtain ⟨hresult, hstate⟩ := hr s
  rw [bind_apply, bind_apply, ← hresult, ← hstate]
  cases (r s).result with
  | error e => exact ⟨rfl, rfl⟩
  | ok a => exact hf a (r s).state

theorem Alike.forM {r r' : α → Run σ Unit} (h : ∀ a, Alike (r a) (r' a)) (l : List α) :
    Alike (l.forM r) (l.forM r') := by
  induction l with
  | nil => exact .refl _
  | cons a l ih => exact (h a).bind fun _ => ih

theorem Alike.foldlM {r r' : β → α → Run σ β} (h : ∀ b a, Alike (r b a) (r' b a)) (l : List α)
    (b : β) : Alike (l.foldlM r b) (l.foldlM r' b) := by
  induction l generalizing b with
  | nil => exact .refl _
  | cons a l ih => exact (h b a).bind ih

theorem alike_say (limit limit' l : Level) (message : Unit → String) :
    Alike (say limit l message : Run σ Unit) (say limit' l message) := fun _ => ⟨rfl, rfl⟩

theorem Alike.after (r : Run σ α) {f f' : α → Run σ β} (h : ∀ a, Alike (f a) (f' a)) :
    Alike (r >>= f) (r >>= f') := (Alike.refl r).bind h

theorem Alike.repeatWhile {round round' : Run σ Bool} {tell tell' : Nat → Bool → Run σ Unit}
    (hround : Alike round round') (htell : ∀ count changed, Alike (tell count changed)
      (tell' count changed)) (fuel count : Nat) :
    Alike (Run.repeatWhile round tell fuel count) (Run.repeatWhile round' tell' fuel count) := by
  induction fuel generalizing count with
  | zero => exact .refl _
  | succ fuel ih =>
    refine hround.bind fun changed => (htell count changed).bind fun _ => ?_
    cases changed with
    | true => exact ih (count + 1)
    | false => exact .refl _

/-- Runs that may fail at different levels, but leave the same state. -/
def SameState (r r' : Run σ α) : Prop := ∀ s, (r s).state = (r' s).state

theorem Alike.bind_sameState {r r' : Run σ α} {f f' : α → Run σ β} (hr : Alike r r')
    (hf : ∀ a, SameState (f a) (f' a)) : SameState (r >>= f) (r' >>= f') := by
  intro s
  obtain ⟨hresult, hstate⟩ := hr s
  rw [bind_apply, bind_apply, ← hresult, ← hstate]
  cases (r s).result with
  | error e => rfl
  | ok a => exact hf a (r s).state

theorem SameState.after (r : Run σ α) {f f' : α → Run σ β} (h : ∀ a, SameState (f a) (f' a)) :
    SameState (r >>= f) (r >>= f') := (Alike.refl r).bind_sameState h

theorem map_apply (g : α → β) (r : Run σ α) (s : σ) :
    (g <$> r) s = ⟨(r s).result.map g, (r s).state, (r s).log⟩ := by
  show (r >>= fun a => pure (g a)) s = _
  rw [bind_apply]
  cases (r s).result with
  | error e => rfl
  | ok a => exact congrArg _ (List.append_nil _)

theorem like_map {r r' : Run σ α} {s : σ} (h : (r s).Like (r' s)) (g : α → β) :
    ((g <$> r) s).Like ((g <$> r') s) := by
  rw [map_apply, map_apply]
  exact ⟨congrArg (Except.map g) h.1, h.2⟩

theorem Keeps.map {P : σ → Prop} {r : Run σ α} (hr : Keeps P r) (g : α → β) :
    Keeps P (g <$> r) := by
  intro s hs
  rw [map_apply]
  exact hr s hs

theorem keeps_look (P : σ → Prop) (f : σ → Except Error α) : Keeps P (look f) := fun _ hs => hs

theorem Yields.of_forM {l : List α} {r : α → Run σ Unit} {s t : σ}
    (h : (l.forM r).Yields s () t) : ∀ a ∈ l, ∃ s' t', (r a).Yields s' () t' := by
  induction l generalizing s with
  | nil => exact fun a ha => absurd ha List.not_mem_nil
  | cons b l ih =>
    obtain ⟨_, u, hb, hl⟩ := Yields.of_bind h
    intro a ha
    rcases List.mem_cons.1 ha with rfl | ha
    · exact ⟨s, u, hb⟩
    · exact ih hl a ha

theorem yields_trySay_off (l : Level) (h : l ≠ .off) (message : Unit → Except Error String)
    (s : σ) : (trySay .off l message : Run σ Unit).Yields s () s := by
  have hhidden : Level.off.shows l = false := by
    cases l with
    | off => exact absurd rfl h
    | _ => rfl
  refine ⟨[], ?_⟩
  rw [trySay, hhidden]
  rfl

/-- A line that has been written could be read. -/
theorem Yields.of_trySay {limit l : Level} {message : Unit → Except Error String} {s t : σ}
    (hl : limit.shows l) (h : (trySay limit l message : Run σ Unit).Yields s () t) :
    (message ()).isOk := by
  have hresult := h.result
  unfold trySay at hresult
  rw [if_pos hl] at hresult
  cases hm : message () with
  | error e =>
    rw [hm] at hresult
    cases hresult
  | ok text => rfl

/-- Each call is made in a state that suits it. -/
def Along (perform : γ → Run σ ρ) (P : γ → σ → Prop) : List γ → σ → Prop
  | [], _ => True
  | c :: cs, s => P c s ∧ Along perform P cs (perform c s).state

theorem along_of_forall {perform : γ → Run σ ρ} {P : γ → σ → Prop} (h : ∀ c s, P c s)
    (cs : List γ) (s : σ) : Along perform P cs s := by
  induction cs generalizing s with
  | nil => trivial
  | cons c cs ih => exact ⟨h c s, ih _⟩

/-- As long as the invariant holds, the level never shows in the state, and shows in the answer to
a call only if the state does not suit it. -/
structure Discreet (perform : Level → γ → Run σ ρ) (I : σ → Prop) (proper : γ → Prop)
    (P : γ → σ → Prop) : Prop where
  keeps (level : Level) (c : γ) : Keeps I (perform level c)
  state {c : γ} {s : σ} : proper c → I s →
    ∀ l l', (perform l c s).state = (perform l' c s).state
  result {c : γ} {s : σ} : proper c → I s →
    ((∀ l l', (perform l c s).result = (perform l' c s).result) ↔ P c s)

variable {perform : Level → γ → Run σ ρ} {I : σ → Prop} {proper : γ → Prop} {P : γ → σ → Prop}

theorem Discreet.session_state (h : Discreet perform I proper P) {cs : List γ} {s : σ}
    (hcs : ∀ c ∈ cs, proper c) (hs : I s) (l l' : Level) :
    (session (perform l) cs s).2 = (session (perform l') cs s).2 := by
  induction cs generalizing s with
  | nil => rfl
  | cons c cs ih =>
    show (session (perform l) cs (perform l c s).state).2 =
      (session (perform l') cs (perform l' c s).state).2
    rw [h.state (hcs c List.mem_cons_self) hs l' l]
    exact ih (fun d hd => hcs d (List.mem_cons_of_mem c hd)) (h.keeps l c s hs)

theorem Discreet.session_results (h : Discreet perform I proper P) {cs : List γ} {s : σ}
    (hcs : ∀ c ∈ cs, proper c) (hs : I s) :
    (∀ l l', (session (perform l) cs s).1 = (session (perform l') cs s).1) ↔
      Along (perform .off) P cs s := by
  induction cs generalizing s with
  | nil => exact ⟨fun _ => trivial, fun _ _ _ => rfl⟩
  | cons c cs ih =>
    have hc := hcs c List.mem_cons_self
    have hrest := ih (fun d hd => hcs d (List.mem_cons_of_mem c hd)) (h.keeps .off c s hs)
    -- All levels go on from the same state, so the first answer and the others are compared apart.
    have hcons (l : Level) : (session (perform l) (c :: cs) s).1 =
        (perform l c s).result :: (session (perform l) cs (perform .off c s).state).1 := by
      rw [h.state hc hs .off l]
      rfl
    constructor
    · intro heq
      simp only [hcons, List.cons.injEq] at heq
      exact ⟨(h.result hc hs).1 fun l l' => (heq l l').1, hrest.1 fun l l' => (heq l l').2⟩
    · rintro ⟨hP, halong⟩ l l'
      rw [hcons, hcons, (h.result hc hs).2 hP l l', hrest.2 halong l l']

/-- The level does not show in the state after these calls, and it shows in the answers exactly if
some call is made in a state that does not suit it. -/
def DiscreetOn (perform : Level → γ → Run σ ρ) (P : γ → σ → Prop) (cs : List γ) (s : σ) : Prop :=
  (∀ l l', (session (perform l) cs s).2 = (session (perform l') cs s).2) ∧
    ((∀ l l', (session (perform l) cs s).1 = (session (perform l') cs s).1) ↔
      Along (perform .off) P cs s)

theorem Discreet.on (h : Discreet perform I proper P) {cs : List γ} {s : σ}
    (hcs : ∀ c ∈ cs, proper c) (hs : I s) : DiscreetOn perform P cs s :=
  ⟨h.session_state hcs hs, h.session_results hcs hs⟩

theorem DiscreetOn.session_eq {cs : List γ} {s : σ} (h : DiscreetOn perform P cs s)
    (hP : ∀ c s, P c s) (l l' : Level) : session (perform l) cs s = session (perform l') cs s :=
  Prod.ext (h.2.2 (along_of_forall hP cs s) l l') (h.1 l l')

end Run

/-- The conclusion comes out the same at all levels exactly where this holds. -/
def Problem.Discloses {α : Type} [Fact α] (p : Problem α)
    (shown : Routine → Readings α → Prop) : Prop :=
  ∀ f values, (∀ l l', (p.conclude l f values ()).result = (p.conclude l' f values ()).result) ↔
    shown f values

section Problems

variable {f : Routine}

/-- All values are read before the first line is written. -/
theorem NullCheck.alike_conclude (values : Readings Register) (l l' : Level) :
    Run.Alike (conclude l f values) (conclude l' f values) := by
  refine .after _ fun ids => Run.Alike.bind ?_ fun _ => .refl _
  exact (Run.alike_say _ _ _ _).bind fun _ => .forM (fun q => Run.alike_say _ _ _ _) _

theorem NullCheck.discloses_problem (mode : Mode) :
    (problem mode).Discloses fun _ _ => True := fun _ values =>
  ⟨fun _ => trivial, fun _ l l' => (alike_conclude values l l' ()).1⟩

theorem NullCheck.discloses_guardedProblem (mode : Mode) :
    (guardedProblem mode).Discloses fun _ _ => True := fun _ values =>
  ⟨fun _ => trivial, fun _ l l' =>
    (Run.Alike.after (Run.ofExcept values.ready) (fun _ => alike_conclude values l l') ()).1⟩

/-- Without logging nothing is read. -/
theorem ReachingDefinition.yields_conclude_off (values : Readings QuadId) :
    (conclude .off f values).Yields () [] () :=
  (Run.yields_say _ _ _ _).bind ((Run.yields_forM_same fun q _ =>
    Run.yields_trySay_off .info (by decide) _ _).bind (Run.yields_pure _ _))

theorem ReachingDefinition.discloses_problem : problem.Discloses Shown := by
  intro f values
  constructor
  · intro heq q hq
    have hinfo : (conclude .info f values).Yields () [] () :=
      Run.yields_of_result ((heq .info .off).trans (yields_conclude_off values).result)
    obtain ⟨_, _, _, hrest⟩ := Run.Yields.of_bind hinfo
    obtain ⟨_, _, hlines, _⟩ := Run.Yields.of_bind hrest
    obtain ⟨_, _, hline⟩ := hlines.of_forM q hq
    exact isOk_of_bind (Run.Yields.of_trySay rfl hline)
  · intro h l l'
    exact (yields_conclude h l).result.trans (yields_conclude h l').result.symm

theorem LiveVariable.yields_conclude_off (values : Readings Register) :
    (conclude .off f values).Yields () [] () :=
  (Run.yields_say _ _ _ _).bind ((Run.yields_forM_same fun q _ =>
    Run.yields_trySay_off .debug (by decide) _ _).bind
      ((Run.yields_trySay_off .info (by decide) _ _).bind (Run.yields_pure _ _)))

theorem LiveVariable.discloses_problem : problem.Discloses Shown := by
  intro f values
  constructor
  · intro heq
    -- At this level every line is written, so a conclusion that succeeds has read them all.
    have hdebug : (conclude .debug f values).Yields () [] () :=
      Run.yields_of_result ((heq .debug .off).trans (yields_conclude_off values).result)
    obtain ⟨_, _, _, hrest⟩ := Run.Yields.of_bind hdebug
    obtain ⟨_, _, hlines, hrest⟩ := Run.Yields.of_bind hrest
    obtain ⟨_, _, hentry, _⟩ := Run.Yields.of_bind hrest
    constructor
    · intro q hq
      obtain ⟨_, _, hline⟩ := hlines.of_forM q hq
      exact isOk_of_bind (Run.Yields.of_trySay rfl hline)
    · exact isOk_of_bind (Run.Yields.of_trySay rfl hentry)
  · intro h l l'
    exact (yields_conclude h l).result.trans (yields_conclude h l').result.symm

end Problems

/-- What can be asked of an analysis and its solver; values are read and written at places. -/
inductive Call (α ι : Type) [Fact α] where
  | prepare (f : Routine)
  | conclude (f : Routine)
  | isForward
  | entry
  | exit
  | setEntry (x : FactSet α)
  | setExit (x : FactSet α)
  | get (place : ι)
  | set (place : ι) (x : FactSet α)
  | scratch
  | process (q : Quad)
  | seed (ls : List Location)
  | pass (ls : List Location)
  | solve (f : Routine)

inductive Answer (α : Type) [Fact α] where
  | done
  | flag (b : Bool)
  | value (x : FactSet α)
  | ids (ids : List QuadId)

theorem map_inj_iff {ε α β : Type} {g : α → β} (hg : ∀ {a b}, g a = g b → a = b)
    {x y : Except ε α} : x.map g = y.map g ↔ x = y := by
  constructor
  · intro h
    cases x with
    | error e =>
      cases y with
      | error e' =>
        cases h
        rfl
      | ok b => cases h
    | ok a =>
      cases y with
      | error e => cases h
      | ok b => exact congrArg _ (hg (Except.ok.inj h))
  · exact congrArg _

namespace Call

variable {α ι : Type} [Fact α]

/-- Routines to be solved have been built. -/
def Proper : Call α ι → Prop
  | solve f => f.graph.Built
  | _ => True

/-- A conclusion is asked for only where it is disclosed. -/
def Suits (shown : Routine → Readings α → Prop) (values : Readings α) : Call α ι → Prop
  | conclude f => shown f values
  | _ => True

theorem suits_always (values : Readings α) (c : Call α ι) : c.Suits (fun _ _ => True) values := by
  cases c <;> trivial

/-- It is enough to look at the conclusions, which read only, if all other calls go alike at all
levels. -/
theorem discreet {A : Type} {perform : Level → Call α ι → Run A (Answer α)} {I : A → Prop}
    {readings : A → Readings α} {p : Problem α} {shown : Routine → Readings α → Prop}
    (hp : p.Discloses shown) (hkeeps : ∀ level c, Run.Keeps I (perform level c))
    (hconclude : ∀ level f a, I a → (perform level (conclude f) a).Like
      ⟨(p.conclude level f (readings a) ()).result.map .ids, a, []⟩)
    (hlike : ∀ c, c.Proper → (∀ f, c ≠ conclude f) → ∀ l l' a, I a →
      (perform l c a).Like (perform l' c a)) :
    Run.Discreet perform I Proper fun c a => c.Suits shown (readings a) where
  keeps := hkeeps
  state := by
    intro c a hc ha l l'
    cases c with
    | conclude f => exact (hconclude l f a ha).2.trans (hconclude l' f a ha).2.symm
    | _ => exact (hlike _ hc (fun _ h => by cases h) l l' a ha).2
  result := by
    intro c a hc ha
    cases c with
    | conclude f =>
      refine Iff.trans ?_ (hp f (readings a))
      simp only [(hconclude _ f a ha).1, map_inj_iff Answer.ids.inj]
    | _ => exact iff_of_true (fun l l' => (hlike _ hc (fun _ h => by cases h) l l' a ha).1) trivial

end Call

section Perform

variable {σ τ α ι : Type} [Fact α]

/-- Carries out a call, where values are read and written at places in this way. -/
def Engine.perform (e : Engine σ τ α) (get : Analysis σ α → ι → Except Error (FactSet α))
    (set : Analysis σ α → ι → FactSet α → Except Error (Analysis σ α)) (level : Level) :
    Call α ι → Run (Analysis σ α) (Answer α)
  | .prepare f => (fun _ => .done) <$> e.prepare f
  | .conclude f => .ids <$> e.conclude level f
  | .isForward => .flag <$> Run.look fun a => .ok (decide (a.direction = .forward))
  | .entry => .value <$> Run.look e.entry
  | .exit => .value <$> Run.look e.exit
  | .setEntry x => (fun _ => .done) <$> Run.change (e.setEntry · x)
  | .setExit x => (fun _ => .done) <$> Run.change (e.setExit · x)
  | .get place => .value <$> Run.look (get · place)
  | .set place x => (fun _ => .done) <$> Run.change (set · place x)
  | .scratch => .value <$> Run.look Analysis.scratch
  | .process q => (fun _ => .done) <$> Run.change (e.process · q)
  | .seed ls => (fun _ => .done) <$> e.seed ls
  | .pass ls => .flag <$> e.pass level ls
  | .solve f => .ids <$> e.solve level f

/-- A place is the side of a quad. -/
def NodeAnalysis.perform : Level → Call α (Side × QuadId) → Run (NodeAnalysis α) (Answer α) :=
  engine.perform (fun a place => NodeAnalysis.get a place.1 place.2)
    fun a place => NodeAnalysis.set a place.1 place.2

namespace EdgeAnalysis

/-- The value along one edge of a quad or, without a neighbor, over all of them. -/
def getAt (a : EdgeAnalysis α) : Side × QuadId × Option Neighbor → Except Error (FactSet α)
  | (side, id, some n) => a.get side id n
  | (side, id, none) => a.getAll side id

def setAt (a : EdgeAnalysis α) :
    Side × QuadId × Option Neighbor → FactSet α → Except Error (EdgeAnalysis α)
  | (side, id, some n), x => a.set side id n x
  | (side, id, none), x => a.setAll side id x

def perform :
    Level → Call α (Side × QuadId × Option Neighbor) → Run (EdgeAnalysis α) (Answer α) :=
  engine.perform getAt setAt

end EdgeAnalysis

end Perform

namespace Engine

variable {σ τ α ι : Type} [Fact α] {e : Engine σ τ α} {p : Problem α}
  {get : Analysis σ α → ι → Except Error (FactSet α)}
  {set : Analysis σ α → ι → FactSet α → Except Error (Analysis σ α)}
  {shown : Routine → Readings α → Prop}

theorem alike_pass (l l' : Level) (ls : List Location) :
    Run.Alike (e.pass l ls) (e.pass l' ls) := by
  have hvisit (k : Location) : Run.Alike (e.visitAt l k) (e.visitAt l' k) :=
    .after _ fun a => .after _ fun v => .after _ fun _ =>
      (Run.alike_say _ _ _ _).bind fun _ => .refl _
  exact .after _ fun a => .foldlM (fun changed k => (hvisit k).bind fun _ => .refl _) _ _

/-- A conclusion reads only. -/
theorem sameState_solve (l l' : Level) (f : Routine) :
    Run.SameState (e.solve l f) (e.solve l' f) := by
  refine .after _ fun _ => .after _ fun ls => .after _ fun _ => .after _ fun a => ?_
  have hiterate : Run.Alike (e.iterate l f.name ls (Problem.passLimit a.frame ls) 1)
      (e.iterate l' f.name ls (Problem.passLimit a.frame ls) 1) :=
    (alike_pass l l' ls).repeatWhile (fun _ _ => Run.alike_say _ _ _ _) _ _
  have hsettle : Run.Alike (e.settle l ls) (e.settle l' ls) :=
    .after _ fun a => .after _ fun value => (Run.alike_say _ _ _ _).bind fun _ => .refl _
  exact hiterate.bind_sameState fun _ => hsettle.bind_sameState fun _ _ => rfl

theorem keeps_perform (he : e.Steady)
    (hset : ∀ {a b : Analysis σ α} {place x}, set a place x = .ok b → a.SameSetting b)
    (level : Level) (c : Call α ι) : Run.Keeps (Analysis.On p) (e.perform get set level c) := by
  cases c with
  | prepare f => exact (he.prepare p f).map _
  | conclude f => exact Run.Keeps.map (fun _ ha => ha) _
  | isForward => exact (Run.keeps_look _ _).map _
  | entry => exact (Run.keeps_look _ _).map _
  | exit => exact (Run.keeps_look _ _).map _
  | setEntry x => exact (Run.keeps_change fun ha h => (he.setEntry h).on ha).map _
  | setExit x => exact (Run.keeps_change fun ha h => (he.setExit h).on ha).map _
  | get place => exact (Run.keeps_look _ _).map _
  | set place x => exact (Run.keeps_change fun ha h => (hset h).on ha).map _
  | scratch => exact (Run.keeps_look _ _).map _
  | process q => exact (Run.keeps_change fun ha h => (he.process h).on ha).map _
  | seed ls => exact (he.keeps_seed ls).map _
  | pass ls => exact (he.keeps_pass level ls).map _
  | solve f => exact (he.keeps_solve level f).map _

theorem like_solve (he : e.Correct) {f : Routine} {found : Valuation α → List QuadId}
    (hp : p.Settles f found) (hf : f.graph.Coherent) {a : Analysis σ α} (ha : a.problem = p)
    (l l' : Level) : (e.solve l f a).Like (e.solve l' f a) := by
  refine ⟨?_, sameState_solve l l' f a⟩
  cases hls : f.locations with
  | error x => rw [he.error hls, he.error hls]
  | ok ls =>
    -- The values have been found by now, so whatever the conclusion shows can be read.
    obtain ⟨ids, _, hresult⟩ := he.exists_found hp hf hls
    rw [hresult l a ha, hresult l' a ha]

theorem discreet_perform (he : e.Correct)
    (hset : ∀ {a b : Analysis σ α} {place x}, set a place x = .ok b → a.SameSetting b)
    (hsettles : ∀ f, ∃ found, p.Settles f found) (hp : p.Discloses shown) :
    Run.Discreet (e.perform get set) (Analysis.On p) Call.Proper
      fun c a => c.Suits shown (e.readings a) := by
  refine Call.discreet hp (keeps_perform he.steady hset) (fun level f a ha => ?_)
    fun c hc hother l l' a ha => ?_
  · obtain rfl : a.problem = p := ha
    rw [perform, Run.map_apply]
    exact ⟨rfl, rfl⟩
  · cases c with
    | conclude f => exact absurd rfl (hother f)
    | pass ls => exact Run.like_map (alike_pass l l' ls a) _
    | solve f =>
      obtain ⟨found, hfound⟩ := hsettles f
      exact Run.like_map (like_solve he hfound (FlowGraph.Built.coherent hc) ha l l') _
    | _ => exact ⟨rfl, rfl⟩

end Engine

section Solvers

variable {α : Type} [Fact α] {p : Problem α} {shown : Routine → Readings α → Prop}

theorem NodeAnalysis.discreet_perform (hsettles : ∀ f, ∃ found, p.Settles f found)
    (hp : p.Discloses shown) :
    Run.Discreet perform (Analysis.On p) Call.Proper fun c a => c.Suits shown a.readings :=
  Engine.discreet_perform correct_engine Analysis.sameSetting_write hsettles hp

theorem EdgeAnalysis.sameSetting_setAt {a b : EdgeAnalysis α}
    {place : Side × QuadId × Option Neighbor} {x : FactSet α} (h : a.setAt place x = .ok b) :
    a.SameSetting b := by
  obtain ⟨side, id, _ | n⟩ := place
  · exact Analysis.sameSetting_write h
  · exact Analysis.sameSetting_write h

theorem EdgeAnalysis.discreet_perform (hsettles : ∀ f, ∃ found, p.Settles f found)
    (hp : p.Discloses shown) :
    Run.Discreet perform (Analysis.On p) Call.Proper fun c a => c.Suits shown a.readings :=
  Engine.discreet_perform correct_engine sameSetting_setAt hsettles hp

end Solvers

/-- Any calls on an analysis of null checks, from any state, have the same answers and leave the
same state at all levels. Calls on the other analyses leave the same state too, and have the same
answers exactly if every conclusion is asked for where the values that its log shows can be read. -/
theorem levels_show_in_unread_conclusions_only (mode : NullCheck.Mode) :
    (∀ (a : NodeAnalysis Register) (calls : List (Call Register _)),
      a.problem = NullCheck.guardedProblem mode → (∀ c ∈ calls, c.Proper) →
        ∀ l l', Run.session (NodeAnalysis.perform l) calls a =
          Run.session (NodeAnalysis.perform l') calls a) ∧
    (∀ (a : EdgeAnalysis Register) (calls : List (Call Register _)),
      a.problem = NullCheck.problem mode → (∀ c ∈ calls, c.Proper) →
        ∀ l l', Run.session (EdgeAnalysis.perform l) calls a =
          Run.session (EdgeAnalysis.perform l') calls a) ∧
    (∀ (a : NodeAnalysis QuadId) (calls : List (Call QuadId _)),
      a.problem = ReachingDefinition.problem → (∀ c ∈ calls, c.Proper) →
        Run.DiscreetOn NodeAnalysis.perform
          (fun c a => c.Suits ReachingDefinition.Shown a.readings) calls a) ∧
    (∀ (a : EdgeAnalysis QuadId) (calls : List (Call QuadId _)),
      a.problem = ReachingDefinition.problem → (∀ c ∈ calls, c.Proper) →
        Run.DiscreetOn EdgeAnalysis.perform
          (fun c a => c.Suits ReachingDefinition.Shown a.readings) calls a) ∧
    ∀ (a : NodeAnalysis Register) (calls : List (Call Register _)),
      a.problem = LiveVariable.problem → (∀ c ∈ calls, c.Proper) →
        Run.DiscreetOn NodeAnalysis.perform
          (fun c a => c.Suits LiveVariable.Shown a.readings) calls a := by
  refine ⟨fun a calls ha hcalls => ?_, fun a calls ha hcalls => ?_, fun a calls ha hcalls => ?_,
    fun a calls ha hcalls => ?_, fun a calls ha hcalls => ?_⟩
  · have hdiscreet := NodeAnalysis.discreet_perform
      (fun f => ⟨_, NullCheck.settles_guardedProblem mode f⟩)
      (NullCheck.discloses_guardedProblem mode)
    exact (hdiscreet.on hcalls ha).session_eq fun c a => c.suits_always a.readings
  · have hdiscreet := EdgeAnalysis.discreet_perform
      (fun f => ⟨_, NullCheck.settles_problem mode f⟩) (NullCheck.discloses_problem mode)
    exact (hdiscreet.on hcalls ha).session_eq fun c a => c.suits_always a.readings
  · exact (NodeAnalysis.discreet_perform (fun f => ⟨_, ReachingDefinition.settles_problem f⟩)
      ReachingDefinition.discloses_problem).on hcalls ha
  · exact (EdgeAnalysis.discreet_perform (fun f => ⟨_, ReachingDefinition.settles_problem f⟩)
      ReachingDefinition.discloses_problem).on hcalls ha
  · exact (NodeAnalysis.discreet_perform (fun f => ⟨_, LiveVariable.settles_problem f⟩)
      LiveVariable.discloses_problem).on hcalls ha

/-- Values of the loop can be read once it has been prepared, and still after it has been solved. -/
theorem levels_unseen_on_prepared_loop : ∃ g, FlowGraph.ofOutline FlowGraph.loopOutline = .ok g ∧
    ∀ l l', (Run.session (EdgeAnalysis.perform l)
        [.prepare ⟨"loop", [], g⟩, .conclude ⟨"loop", [], g⟩, .solve ⟨"loop", [], g⟩,
          .conclude ⟨"loop", [], g⟩] (.ofProblem ReachingDefinition.problem)).1 =
      (Run.session (EdgeAnalysis.perform l')
        [.prepare ⟨"loop", [], g⟩, .conclude ⟨"loop", [], g⟩, .solve ⟨"loop", [], g⟩,
          .conclude ⟨"loop", [], g⟩] (.ofProblem ReachingDefinition.problem)).1 := by
  obtain ⟨g, hg, halong⟩ : ∃ g, FlowGraph.ofOutline FlowGraph.loopOutline = .ok g ∧
      Run.Along (EdgeAnalysis.perform .off)
        (fun c a => c.Suits ReachingDefinition.Shown a.readings)
        [.prepare ⟨"loop", [], g⟩, .conclude ⟨"loop", [], g⟩, .solve ⟨"loop", [], g⟩,
          .conclude ⟨"loop", [], g⟩] (.ofProblem ReachingDefinition.problem) := by
    refine ⟨_, rfl, trivial, ?_, trivial, ?_, trivial⟩
    · show ReachingDefinition.Shown _ _
      decide +kernel
    · show ReachingDefinition.Shown _ _
      decide +kernel
  obtain ⟨_, _, _, hedges, _⟩ := levels_show_in_unread_conclusions_only .basic
  refine ⟨g, hg, (hedges _ _ rfl ?_).2.2 halong⟩
  intro c hc
  simp only [List.mem_cons, List.not_mem_nil, or_false] at hc
  rcases hc with rfl | rfl | rfl | rfl
  · trivial
  · trivial
  · exact FlowGraph.built_ofOutline hg
  · trivial

/-- Before that, a conclusion succeeds unless it is logged. -/
theorem unprepared_conclusion_fails_when_logged : ∃ g,
    FlowGraph.ofOutline FlowGraph.loopOutline = .ok g ∧
    (Run.session (NodeAnalysis.perform .off) [.conclude ⟨"loop", [], g⟩]
      (.ofProblem ReachingDefinition.problem)).1 = [.ok (.ids [])] ∧
    (Run.session (NodeAnalysis.perform .info) [.conclude ⟨"loop", [], g⟩]
      (.ofProblem ReachingDefinition.problem)).1 = [.error .uninitialized] := ⟨_, rfl, rfl, rfl⟩

end Dataflow
