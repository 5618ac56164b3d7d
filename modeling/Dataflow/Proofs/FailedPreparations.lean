import Dataflow.Proofs.EdgeCalls

/-! # Preparations that fail

A preparation takes up the frame of the new routine before it asks for the locations. If these are
not to be had, the values of the routine before stay, under a frame that is not theirs. Later calls
show it exactly where they use the frame: a scratch value is drawn over another domain, and a quad
is processed with the effects of another routine.
-/
namespace Dataflow

namespace Run

variable {σ γ ρ ω : Type} {perform : γ → Run σ ρ} {cs : List γ}

/-- What is seen of each call, where calls are made one after the other. -/
def course (perform : γ → Run σ ρ) (seen : Outcome σ ρ → ω) : List γ → σ → List ω
  | [], _ => []
  | c :: cs, s => seen (perform c s) :: course perform seen cs (perform c s).state

theorem course_result (cs : List γ) (s : σ) :
    course perform Outcome.result cs s = (session perform cs s).1 := by
  induction cs generalizing s with
  | nil => rfl
  | cons c cs ih => exact congrArg _ (ih _)

/-- Two courses show the same as long as the states suit the calls, if the states stay related
for so long and a call that its state does not suit shows a difference. -/
theorem course_eq_iff {seen : Outcome σ ρ → ω} {R : σ → σ → Prop} {P : γ → σ → Prop}
    (hseen : ∀ c ∈ cs, ∀ s t, R s t → (seen (perform c t) = seen (perform c s) ↔ P c s))
    (hnext : ∀ c ∈ cs, ∀ s t, R s t → P c s → R (perform c s).state (perform c t).state)
    {s t : σ} (h : R s t) :
    course perform seen cs t = course perform seen cs s ↔ Along perform P cs s := by
  induction cs generalizing s t with
  | nil => exact iff_of_true rfl trivial
  | cons c cs ih =>
    obtain ⟨hseen, hseens⟩ := List.forall_mem_cons.1 hseen
    obtain ⟨hnext, hnexts⟩ := List.forall_mem_cons.1 hnext
    rw [course, course, List.cons.injEq, hseen s t h]
    apply and_congr_right
    intro hP
    exact ih hseens hnexts (hnext s t h hP)

theorem along_const {P : γ → Prop} {s : σ} :
    Along perform (fun c _ => P c) cs s ↔ ∀ c ∈ cs, P c := by
  induction cs generalizing s with
  | nil => exact iff_of_true trivial fun _ h => absurd h List.not_mem_nil
  | cons c cs ih =>
    rw [List.forall_mem_cons]
    exact and_congr_right fun _ => ih

end Run

namespace EdgeAnalysis

variable {α : Type} [Fact α] {p : Problem α} {a b : EdgeAnalysis α} {frame : Frame α}
  {c : Call α (Side × QuadId × Option Neighbor)}

/-- The same values under another frame. -/
def reframed (a : EdgeAnalysis α) (frame : Frame α) : EdgeAnalysis α := { a with frame := frame }

theorem prepare_of_error {f : Routine} {e : Error} (h : (prepare f a).result = .error e) :
    (prepare f a).state = a.reframed (a.problem.frame f) := by
  show ((Run.ofExcept f.locations >>= _) (a.reframed (a.problem.frame f))).state = _
  replace h : ((Run.ofExcept f.locations >>= _) (a.reframed (a.problem.frame f))).result = _ := h
  cases hls : f.locations with
  | error e => rfl
  | ok ls =>
    rw [hls] at h
    cases h

/-- The call would show nothing of that frame: no scratch value is drawn over another domain, and
no quad is processed to another value. -/
def Spared (frame : Frame α) (c : Call α (Side × QuadId × Option Neighbor))
    (a : EdgeAnalysis α) : Prop :=
  match c with
  | .scratch => a.store = none ∨ frame.domain = a.frame.domain
  | .process q => ∀ v b, a.getAll a.direction.given q.id = .ok v → a.process q = .ok b →
    frame.transfer q v.facts = a.frame.transfer q v.facts
  | _ => True

theorem edit_of_spared (ha : ∀ q, a.frame.departures q = []) (h : Spared frame c a) :
    a.stored >>= edit a.direction frame c = a.stored >>= edit a.direction a.frame c := by
  cases hs : a.stored with
  | error e => rfl
  | ok s =>
    show edit a.direction frame c s = edit a.direction a.frame c s
    cases c with
    | process q =>
      show (s.getAll a.direction.given q.id >>= _) = (s.getAll a.direction.given q.id >>= _)
      cases hv : s.getAll a.direction.given q.id with
      | error e => rfl
      | ok v =>
        show s.setAll a.direction.solved q.id (v.onFacts (frame.transfer q)) =
          s.setAll a.direction.solved q.id (v.onFacts (a.frame.transfer q))
        cases ht : s.setAll a.direction.solved q.id (v.onFacts (a.frame.transfer q)) with
        -- Where the solved side cannot be set it does not matter to what.
        | error e => exact EdgeStore.setAll_error ht _
        | ok t =>
          have hget : a.getAll a.direction.given q.id = .ok v := bind_eq_ok.2 ⟨s, hs, hv⟩
          have hprocess : a.process q = .ok { a with store := some t } :=
            (process_eq_ok (ha q)).2 ⟨s, v, t, Analysis.stored_eq_ok.1 hs, hv, ht, rfl⟩
          rw [← ht, FactSet.onFacts, h v _ hget hprocess]
          rfl
    | set place x => obtain ⟨side, id, _ | n⟩ := place <;> rfl
    | _ => rfl

theorem scratch_reframed (hp : a.problem.scratchAtOnce = false) :
    Analysis.scratch (a.reframed frame) = Analysis.scratch a ↔ Spared frame .scratch a := by
  unfold Analysis.scratch
  cases hs : a.store <;> simp [Spared, reframed, Analysis.stored, hp, hs, FactSet.empty]

/-- A call that is spared goes the same way under the other frame. -/
theorem perform_reframed (hc : c.Lasting) (ha : ∀ q, a.frame.departures q = [])
    (hframe : ∀ q, frame.departures q = []) (hp : a.problem.scratchAtOnce = false)
    (h : Spared frame c a) (level : Level) :
    perform level c (a.reframed frame) = (perform level c a).mapState (·.reframed frame) := by
  rcases hc with hc | hc
  · cases c with
    | get place =>
      obtain ⟨side, id, _ | n⟩ := place <;>
        rw [perform, Engine.perform, Run.map_apply, Run.map_apply] <;> rfl
    | conclude | isForward | entry | exit =>
      rw [perform, Engine.perform, Run.map_apply, Run.map_apply]
      rfl
    | scratch =>
      rw [perform, Engine.perform, Run.map_apply, Run.map_apply, Run.look, Run.look, (scratch_reframed hp).2 h]
      rfl
    | _ => exact hc.elim
  · rw [perform_of_isEdit hc hframe, perform_of_isEdit hc ha, ← edit_of_spared ha h]
    show (a.reframed frame).replaced (a.stored >>= edit a.direction frame c) = _
    cases a.stored >>= edit a.direction frame c <;> rfl

theorem spared_of_scratch (hp : a.problem.scratchAtOnce = false) {level : Level}
    (h : (perform level .scratch (a.reframed frame)).result = (perform level .scratch a).result) :
    Spared frame .scratch a := by
  rw [perform, Engine.perform, Run.map_apply, Run.map_apply] at h
  exact (scratch_reframed hp).1 (map_inj_iff Answer.value.inj |>.1 h)

theorem Sound.spared_of_process (ha : Sound p a) (hp : p.Plain)
    (hframe : ∀ q, frame.departures q = []) {level : Level} {q : Quad}
    (h : (perform level (.process q) (a.reframed frame)).state.store =
      (perform level (.process q) a).state.store) :
    Spared frame (.process q) a := by
  intro v b hget hprocess
  obtain ⟨s, w, t, hs, hw, ht, rfl⟩ := (process_eq_ok (ha.departures hp q)).1 hprocess
  obtain ⟨s', hs', hv⟩ := bind_eq_ok.1 hget
  cases hs.symm.trans (Analysis.stored_eq_ok.1 hs')
  cases hw.symm.trans hv
  have hdirection : a.direction = p.direction := congrArg Problem.direction ha.problem
  have hedit := Call.isEdit_process (α := α) (ι := Side × QuadId × Option Neighbor) q
  rw [perform_of_isEdit hedit hframe, perform_of_isEdit hedit (ha.departures hp)] at h
  cases hu : s.setAll a.direction.solved q.id (v.onFacts (frame.transfer q)) with
  | error e => cases (EdgeStore.setAll_error hu _).symm.trans ht
  | ok u =>
    have hother : (a.reframed frame).stored >>= edit a.direction frame (.process q) = .ok u :=
      bind_eq_ok.2 ⟨s, hs', bind_eq_ok.2 ⟨v, hv, hu⟩⟩
    have hown : a.stored >>= edit a.direction a.frame (.process q) = .ok t :=
      bind_eq_ok.2 ⟨s, hs', bind_eq_ok.2 ⟨v, hv, ht⟩⟩
    have hsame : some u = some t := by
      rw [hown] at h
      exact (congrArg (fun x => ((a.reframed frame).replaced x).state.store) hother).symm.trans h
    cases hsame
    rw [hdirection] at ht hu
    exact congrArg FactSet.facts ((ha.full hs).setAll_inj hu ht)

section Apart

variable {calls : List (Call α (Side × QuadId × Option Neighbor))} {level : Level}

/-- Both have come the same way from one analysis, but the second under another frame. -/
structure Apart (p : Problem α) (frame : Frame α) (a b b' : EdgeAnalysis α) : Prop where
  sound : Sound p b
  frame_eq : b.frame = a.frame
  store_eq_none : b.store = none ↔ a.store = none
  eq_reframed : b' = b.reframed frame

variable {b' : EdgeAnalysis α} (hp : p.Plain) (hframe : ∀ q, frame.departures q = [])

theorem Sound.apart (ha : Sound p a) : Apart p frame a a (a.reframed frame) := ⟨ha, rfl, .rfl, rfl⟩

include hp in
theorem Apart.scratchAtOnce (h : Apart p frame a b b') : b.problem.scratchAtOnce = false := by
  rw [h.sound.problem]
  exact hp.scratch

include hp hframe in
theorem Apart.perform_eq (h : Apart p frame a b b') (hc : c.Lasting) (hspared : Spared frame c b) :
    perform level c b' = (perform level c b).mapState (·.reframed frame) := by
  rw [h.eq_reframed]
  exact perform_reframed hc (h.sound.departures hp) hframe (h.scratchAtOnce hp) hspared level

include hp in
theorem Apart.perform (h : Apart p frame a b b') (hc : c.Lasting)
    (hstate : (perform level c b').state = (perform level c b).state.reframed frame) :
    Apart p frame a (perform level c b).state (perform level c b').state := by
  obtain ⟨hsound, hkept, hnone⟩ := h.sound.perform_of_lasting hp hc level
  exact ⟨hsound, hkept.trans h.frame_eq, hnone.trans h.store_eq_none, hstate⟩

theorem Apart.spared_scratch_iff (h : Apart p frame a b b') :
    Spared frame .scratch b ↔ a.store = none ∨ frame.domain = a.frame.domain := by
  rw [← h.store_eq_none, ← h.frame_eq]
  rfl

theorem Apart.spared (h : Apart p frame a b b') (htransfer : frame.transfer = a.frame.transfer)
    (hc : c ≠ .scratch) : Spared frame c b := by
  cases c with
  | scratch => exact absurd rfl hc
  | process q =>
    intro v _ _ _
    rw [htransfer, h.frame_eq]
  | _ => trivial

include hp hframe in
/-- A scratch value is drawn and left, so that no later call depends on it. -/
theorem Apart.perform_of_transfer (h : Apart p frame a b b')
    (htransfer : frame.transfer = a.frame.transfer) (hc : c.Lasting) :
    Apart p frame a (EdgeAnalysis.perform level c b).state
      (EdgeAnalysis.perform level c b').state := by
  apply h.perform hp hc
  by_cases hscratch : c = .scratch
  · subst hscratch
    rw [state_of_isRead Call.isRead_scratch, state_of_isRead Call.isRead_scratch]
    exact h.eq_reframed
  · rw [h.perform_eq hp hframe hc (h.spared htransfer hscratch)]
    rfl

include hp hframe in
/-- Answers and values, call by call, tell exactly whether all calls are spared. -/
theorem Sound.course_reframed (ha : Sound p a) (hcalls : ∀ c ∈ calls, c.Lasting) :
    Run.course (EdgeAnalysis.perform level) (fun o => (o.result, o.state.store)) calls
          (a.reframed frame) =
        Run.course (EdgeAnalysis.perform level) (fun o => (o.result, o.state.store)) calls a ↔
      Run.Along (EdgeAnalysis.perform level) (Spared frame) calls a := by
  refine Run.course_eq_iff (fun c hc b b' h => ⟨fun heq => ?_, fun hspared => ?_⟩)
    (fun c hc b b' h hspared => ?_) ha.apart
  · obtain ⟨hresult, hstore⟩ := Prod.mk.inj heq
    rw [h.eq_reframed] at hresult hstore
    cases c with
    | scratch => exact spared_of_scratch (h.scratchAtOnce hp) hresult
    | process q => exact h.sound.spared_of_process hp hframe hstore
    | _ => trivial
  · rw [h.perform_eq hp hframe (hcalls c hc) hspared]
    rfl
  · apply h.perform hp (hcalls c hc)
    rw [h.perform_eq hp hframe (hcalls c hc) hspared]
    rfl

include hp hframe in
/-- If quads have the same effects under both frames, only scratch values tell them apart. -/
theorem Sound.session_reframed (ha : Sound p a) (htransfer : frame.transfer = a.frame.transfer)
    (hcalls : ∀ c ∈ calls, c.Lasting) :
    (Run.session (EdgeAnalysis.perform level) calls (a.reframed frame)).1 =
        (Run.session (EdgeAnalysis.perform level) calls a).1 ↔
      (.scratch ∈ calls → a.store = none ∨ frame.domain = a.frame.domain) := by
  -- Frame and readiness never change on the way, so the first state decides for all scratch values.
  have hseen : ∀ c ∈ calls, ∀ b b', Apart p frame a b b' →
      ((EdgeAnalysis.perform level c b').result = (EdgeAnalysis.perform level c b).result ↔
        (c = .scratch → a.store = none ∨ frame.domain = a.frame.domain)) := by
    intro c hc b b' h
    have hgo : Spared frame c b →
        (EdgeAnalysis.perform level c b').result = (EdgeAnalysis.perform level c b).result := by
      intro hspared
      rw [h.perform_eq hp hframe (hcalls c hc) hspared]
      rfl
    by_cases hscratch : c = .scratch
    · subst hscratch
      refine ⟨fun hresult _ => h.spared_scratch_iff.1 ?_,
        fun hsame => hgo (h.spared_scratch_iff.2 (hsame rfl))⟩
      rw [h.eq_reframed] at hresult
      exact spared_of_scratch (h.scratchAtOnce hp) hresult
    · exact iff_of_true (hgo (h.spared htransfer hscratch)) fun heq => absurd heq hscratch
  have hstart : Apart p frame a a (a.reframed frame) := ha.apart
  have hcourse := Run.course_eq_iff hseen
    (fun c hc b b' h _ => h.perform_of_transfer hp hframe htransfer (hcalls c hc)) hstart
  rw [Run.course_result, Run.course_result, Run.along_const] at hcourse
  exact hcourse.trans ⟨fun h hm => h _ hm rfl, fun h c hm hc => h (hc ▸ hm)⟩

include hp hframe in
theorem Sound.stores_reframed (ha : Sound p a) (htransfer : frame.transfer = a.frame.transfer)
    (hcalls : ∀ c ∈ calls, c.Lasting) :
    Run.course (EdgeAnalysis.perform level) (·.state.store) calls (a.reframed frame) =
      Run.course (EdgeAnalysis.perform level) (·.state.store) calls a := by
  have hnext : ∀ c ∈ calls, ∀ b b', Apart p frame a b b' → Apart p frame a
      (EdgeAnalysis.perform level c b).state (EdgeAnalysis.perform level c b').state :=
    fun c hc b b' h => h.perform_of_transfer hp hframe htransfer (hcalls c hc)
  refine (Run.course_eq_iff (P := fun _ _ => True) (fun c hc b b' h => ?_)
    (fun c hc b b' h _ => hnext c hc b b' h) ha.apart).2 ?_
  · rw [(hnext c hc b b' h).eq_reframed]
    exact iff_of_true rfl trivial
  · exact Run.along_of_forall (fun _ _ => trivial) calls a

end Apart

end EdgeAnalysis

open EdgeAnalysis

/-- A preparation that fails leaves all values in place. For null checks, the answers to later
calls then tell of it exactly if a scratch value is drawn over the registers of another routine; the
values take the same course in any case. For reaching definitions, the course of answers and values
is the same exactly if, besides, every quad is processed as before. -/
theorem failed_preparations_show_in_scratch_values_and_effects (mode : NullCheck.Mode)
    (level : Level) :
    (∀ (a : EdgeAnalysis Register) (f : Routine) (e : Error) (calls : List (Call Register _)),
      Reached level (NullCheck.problem mode) a → (prepare f a).result = .error e →
      (∀ c ∈ calls, c.Lasting) →
        (prepare f a).state.store = a.store ∧
        ((Run.session (perform level) calls (prepare f a).state).1 =
            (Run.session (perform level) calls a).1 ↔
          (.scratch ∈ calls → a.store = none ∨ NullCheck.mentioned f = a.frame.domain)) ∧
        Run.course (perform level) (·.state.store) calls (prepare f a).state =
          Run.course (perform level) (·.state.store) calls a) ∧
    ∀ (a : EdgeAnalysis QuadId) (f : Routine) (e : Error) (calls : List (Call QuadId _)),
      Reached level ReachingDefinition.problem a → (prepare f a).result = .error e →
      (∀ c ∈ calls, c.Lasting) →
        (prepare f a).state.store = a.store ∧
        (Run.course (perform level) (fun o => (o.result, o.state.store)) calls
              (prepare f a).state =
            Run.course (perform level) (fun o => (o.result, o.state.store)) calls a ↔
          Run.Along (perform level) (Spared (ReachingDefinition.problem.frame f)) calls a) := by
  constructor
  · intro a f e calls hreached hfails hcalls
    have ha := hreached.sound (NullCheck.plain_problem mode)
    have htransfer : ((NullCheck.problem mode).frame f).transfer = a.frame.transfer := by
      rcases ha.framed with h | ⟨g, h⟩
      · rw [h]
        rfl
      · rw [h]
        rfl
    rw [prepare_of_error hfails, ha.problem]
    exact ⟨rfl, ha.session_reframed (NullCheck.plain_problem mode) (fun _ => rfl) htransfer hcalls,
      ha.stores_reframed (NullCheck.plain_problem mode) (fun _ => rfl) htransfer hcalls⟩
  · intro a f e calls hreached hfails hcalls
    have ha := hreached.sound ReachingDefinition.plain_problem
    rw [prepare_of_error hfails, ha.problem]
    exact ⟨rfl, ha.course_reframed ReachingDefinition.plain_problem (fun _ => rfl) hcalls⟩

/-- The loop without its entry has the registers and the definitions of the loop, so a preparation
that fails on it leaves no trace. -/
theorem failed_preparation_unseen_on_same_quads : ∃ g h,
    FlowGraph.ofOutline FlowGraph.loopOutline = .ok g ∧
    FlowGraph.ofOutline { FlowGraph.loopOutline with entry := none } = .ok h ∧
    (∃ a : EdgeAnalysis Register, Reached .off (NullCheck.problem .basic) a ∧
      (prepare ⟨"loop", [], h⟩ a).result = .error (.graph .noEntry) ∧
      (Run.session (perform .off) [.scratch, .process ⟨1, .nullCheck ⟨"x"⟩⟩]
          (prepare ⟨"loop", [], h⟩ a).state).1 =
        (Run.session (perform .off) [.scratch, .process ⟨1, .nullCheck ⟨"x"⟩⟩] a).1) ∧
    ∃ a : EdgeAnalysis QuadId, Reached .off ReachingDefinition.problem a ∧
      (prepare ⟨"loop", [], h⟩ a).result = .error (.graph .noEntry) ∧
      Run.course (perform .off) (fun o => (o.result, o.state.store))
          [.scratch, .process ⟨2, .move ⟨"y"⟩ (.register ⟨"x"⟩)⟩]
          (prepare ⟨"loop", [], h⟩ a).state =
        Run.course (perform .off) (fun o => (o.result, o.state.store))
          [.scratch, .process ⟨2, .move ⟨"y"⟩ (.register ⟨"x"⟩)⟩] a := by
  obtain ⟨g, h, hg, hh, hfails, hfails', hdomain, hframe⟩ : ∃ g h,
      FlowGraph.ofOutline FlowGraph.loopOutline = .ok g ∧
      FlowGraph.ofOutline { FlowGraph.loopOutline with entry := none } = .ok h ∧
      (∀ a : EdgeAnalysis Register,
        (prepare ⟨"loop", [], h⟩ a).result = .error (.graph .noEntry)) ∧
      (∀ a : EdgeAnalysis QuadId,
        (prepare ⟨"loop", [], h⟩ a).result = .error (.graph .noEntry)) ∧
      NullCheck.mentioned ⟨"loop", [], h⟩ = (Run.session (perform .off)
        [.prepare ⟨"loop", [], g⟩] (.ofProblem (NullCheck.problem .basic))).2.frame.domain ∧
      ReachingDefinition.problem.frame ⟨"loop", [], h⟩ = (Run.session (perform .off)
        [.prepare ⟨"loop", [], g⟩] (.ofProblem ReachingDefinition.problem)).2.frame :=
    ⟨_, _, rfl, rfl, fun _ => rfl, fun _ => rfl, rfl, rfl⟩
  have hdirect {α : Type} [Fact α] : ∀ c : Call α (Side × QuadId × Option Neighbor),
      c ∈ [.prepare ⟨"loop", [], g⟩] → c.Direct :=
    fun c hc => .inr ⟨_, List.mem_singleton.1 hc⟩
  have hlasting {α : Type} [Fact α] (q : Quad) :
      ∀ c : Call α (Side × QuadId × Option Neighbor), c ∈ [.scratch, .process q] → c.Lasting := by
    intro c hc
    simp only [List.mem_cons, List.not_mem_nil, or_false] at hc
    rcases hc with rfl | rfl
    · exact .inl trivial
    · exact .inr trivial
  obtain ⟨hchecks, hdefinitions⟩ :=
    failed_preparations_show_in_scratch_values_and_effects .basic .off
  refine ⟨g, h, hg, hh, ⟨_, ⟨_, hdirect, rfl⟩, hfails _, ?_⟩, _, ⟨_, hdirect, rfl⟩, hfails' _, ?_⟩
  · apply (hchecks _ _ _ _ ⟨_, hdirect, rfl⟩ (hfails _) (hlasting _)).2.1.2
    exact fun _ => .inr hdomain
  · apply (hdefinitions _ _ _ _ ⟨_, hdirect, rfl⟩ (hfails' _) (hlasting _)).2.2
    rw [hframe]
    refine ⟨.inr rfl, ?_, trivial⟩
    rw [state_of_isRead Call.isRead_scratch]
    exact fun _ _ _ _ => rfl

/-- A routine without definitions takes the place of one that defines a register twice. Then the
second definition no longer drops the first. -/
theorem definition_kept_after_failed_preparation : ∃ g h,
    FlowGraph.ofQuads [⟨1, .new ⟨"x"⟩ "A"⟩, ⟨2, .new ⟨"x"⟩ "A"⟩] = .ok g ∧
    FlowGraph.ofOutline ⟨none, [⟨0, [⟨1, .nop⟩]⟩], []⟩ = .ok h ∧
    ∃ a, a = (Run.session (perform .off)
        [.prepare ⟨"f", [], g⟩, .set (.input, 2, none) ⟨.ofList [1], .ofList [1, 2], .may⟩]
        (.ofProblem ReachingDefinition.problem)).2 ∧
      (prepare ⟨"g", [], h⟩ a).result = .error (.graph .noEntry) ∧
      (Run.session (perform .off) [.process ⟨2, .new ⟨"x"⟩ "A"⟩, .get (.output, 2, none)] a).1 =
        [.ok .done, .ok (.value ⟨.ofList [2], .ofList [1, 2], .may⟩)] ∧
      (Run.session (perform .off) [.process ⟨2, .new ⟨"x"⟩ "A"⟩, .get (.output, 2, none)]
          (prepare ⟨"g", [], h⟩ a).state).1 =
        [.ok .done, .ok (.value ⟨.ofList [1, 2], .ofList [1, 2], .may⟩)] :=
  ⟨_, _, rfl, rfl, _, rfl, rfl, rfl, rfl⟩

end Dataflow
