import Dataflow.Proofs.Runs
import Dataflow.Proofs.Sweeps
import Dataflow.Solver.Engine

/-! # What engines have in common

Whatever the values are stored in, a write leaves problem and frame alone, what each visit keeps is
kept by a pass and by the loop of passes, and if a visit does what a step does, then a pass does
what a sequence of steps does.
-/
namespace Dataflow

theorem Run.Keeps.repeatWhile {σ : Type} {P : σ → Prop} {round : Run σ Bool}
    {tell : Nat → Bool → Run σ Unit} (hround : Keeps P round)
    (htell : ∀ count changed, Keeps P (tell count changed)) (fuel count : Nat) :
    Keeps P (Run.repeatWhile round tell fuel count) := by
  induction fuel generalizing count with
  | zero => exact fun _ hs => hs
  | succ fuel ih =>
    refine hround.bind fun changed => (htell count changed).bind fun _ => ?_
    cases changed with
    | true => exact ih (count + 1)
    | false => exact fun _ hs => hs

/-- If each visit of a round does what a step does and reports what the step would, so does the
round. -/
theorem Run.exists_yields_rounds {σ V β : Type} {H : V → σ → Prop} {step : V → β → V}
    {stirs : V → β → Bool} (stirsAny : V → List β → Bool) (hnil : ∀ v, stirsAny v [] = false)
    (hcons : ∀ v b l, stirsAny v (b :: l) = (stirs v b || stirsAny (step v b) l))
    {visit : β → Run σ Bool} {l : List β}
    (hvisit : ∀ b ∈ l, ∀ v s, H v s →
      ∃ t, (visit b).Yields s (stirs v b) t ∧ H (step v b) t)
    {v : V} {s : σ} (h : H v s) (changed : Bool) :
    ∃ t, (l.foldlM (fun changed b => do
        let now ← visit b
        return changed || now) changed).Yields s (changed || stirsAny v l) t ∧
      H (l.foldl step v) t := by
  induction l generalizing v s changed with
  | nil =>
    rw [hnil, Bool.or_false]
    exact ⟨s, yields_pure changed s, h⟩
  | cons b l ih =>
    obtain ⟨t, ht, hH⟩ := hvisit b List.mem_cons_self v s h
    obtain ⟨u, hu, hH'⟩ := ih (fun c hc => hvisit c (List.mem_cons_of_mem b hc)) hH
      (changed || stirs v b)
    have hnow : (visit b >>= fun now => pure (changed || now)).Yields s
        (changed || stirs v b) t := ht.bind (yields_pure _ t)
    refine ⟨u, ?_, hH'⟩
    rw [List.foldlM_cons, hcons, ← Bool.or_assoc]
    exact hnow.bind hu

namespace Direction

variable {β γ : Type} {d : Direction} {quad : QuadId → Except Error β} {entry exit : Except Error β}
  {n : Neighbor}

theorem of_inflow {id : QuadId} {x : β} {P : β → Prop}
    (h : d.inflow id quad entry exit n = .ok x) (hquad : ∀ {k}, quad k = .ok x → P x)
    (hentry : entry = .ok x → P x) (hexit : exit = .ok x → P x) : P x := by
  unfold inflow at h
  split at h
  · exact hquad h
  · exact hentry h
  · cases h
  · exact hexit h
  · cases h

/-- Nothing flows in from where the flow ends. -/
theorem map_inflow {l : Location} {g : β → γ} {value : Neighbor → γ}
    (hfar : d.farEnd ∉ d.incoming l)
    (hquad : ∀ k, .quad k ∈ d.incoming l → (quad k).map g = .ok (value (.quad k)))
    (hentry : d = .forward → entry.map g = .ok (value .entry))
    (hexit : d = .backward → exit.map g = .ok (value .exit)) (hn : n ∈ d.incoming l) :
    (d.inflow l.id quad entry exit n).map g = .ok (value n) := by
  cases n with
  | quad k => exact hquad k hn
  | entry =>
    cases d with
    | forward => exact hentry rfl
    | backward => exact absurd hn hfar
  | exit =>
    cases d with
    | forward => exact absurd hn hfar
    | backward => exact hexit rfl

end Direction

namespace Analysis

variable {σ α β : Type} [Fact α] {a b : Analysis σ α}

theorem stored_eq_ok {s : σ} : a.stored = .ok s ↔ a.store = some s := by
  unfold stored
  cases a.store <;> simp

theorem write_eq_ok {f : σ → Except Error σ} : a.write f = .ok b ↔
    ∃ s t, a.store = some s ∧ f s = .ok t ∧ b = { a with store := some t } := by
  unfold write
  rw [bind_eq_ok]
  constructor
  · rintro ⟨s, hs, h⟩
    obtain ⟨t, ht, h⟩ := bind_eq_ok.1 h
    cases h
    exact ⟨s, t, stored_eq_ok.1 hs, ht, rfl⟩
  · rintro ⟨s, t, hs, ht, rfl⟩
    exact ⟨s, stored_eq_ok.2 hs, bind_eq_ok.2 ⟨t, ht, rfl⟩⟩

/-- Nothing but the store is another. -/
def SameSetting (a b : Analysis σ α) : Prop := b.problem = a.problem ∧ b.frame = a.frame

theorem SameSetting.trans {c : Analysis σ α} (hab : a.SameSetting b) (hbc : b.SameSetting c) :
    a.SameSetting c := ⟨hbc.1.trans hab.1, hbc.2.trans hab.2⟩

theorem sameSetting_write {f : σ → Except Error σ} (h : a.write f = .ok b) : a.SameSetting b := by
  obtain ⟨s, t, _, _, rfl⟩ := write_eq_ok.1 h
  exact ⟨rfl, rfl⟩

/-- The analysis is about this problem. -/
def On (p : Problem α) (a : Analysis σ α) : Prop := a.problem = p

theorem SameSetting.on {p : Problem α} (h : a.SameSetting b) (ha : a.On p) : b.On p := h.1.trans ha

def top (a : Analysis σ α) : FactSet α := .top a.frame.domain a.problem.confluence

theorem toTop_of_scratch {x : FactSet α} (h : a.scratch = .ok x) : x.toTop = a.top := by
  unfold scratch at h
  split at h
  · obtain ⟨_, _, h⟩ := bind_eq_ok.1 h
    cases h
    rfl
  · cases h
    rfl

/-- The analysis is at work on a routine, and `C` holds of its store. -/
def AtWork (p : Problem α) (f : Routine) (C : σ → Prop) (a : Analysis σ α) : Prop :=
  ∃ s, a = ⟨p, p.frame f, some s⟩ ∧ C s

section AtWork

variable {p : Problem α} {f : Routine} {C : σ → Prop}

theorem AtWork.problem (h : a.AtWork p f C) : a.problem = p := by
  obtain ⟨s, rfl, _⟩ := h
  rfl

theorem AtWork.frame (h : a.AtWork p f C) : a.frame = p.frame f := by
  obtain ⟨s, rfl, _⟩ := h
  rfl

theorem AtWork.of_read (h : a.AtWork p f C) {g : σ → Except Error β} {x : β} {P : β → Prop}
    (hx : a.read g = .ok x) (hg : ∀ {s}, C s → g s = .ok x → P x) : P x := by
  obtain ⟨s, rfl, hs⟩ := h
  exact hg hs hx

theorem AtWork.of_write (h : a.AtWork p f C) {g : σ → Except Error σ} (hb : a.write g = .ok b)
    (hg : ∀ {s t}, C s → g s = .ok t → C t) : b.AtWork p f C := by
  obtain ⟨s, rfl, hs⟩ := h
  obtain ⟨_, t, ⟨⟩, ht, rfl⟩ := write_eq_ok.1 hb
  exact ⟨t, rfl, hg hs ht⟩

end AtWork

end Analysis

namespace Engine

variable {σ τ α : Type} [Fact α] {e : Engine σ τ α} {P : Analysis σ α → Prop} {level : Level}
  {ls : List Location} {a b : Analysis σ α}

/-- A visit changes the store in two steps. -/
theorem exists_of_visit {l : Location} {w : Visit σ τ α} (h : e.visit a l = .ok w) :
    ∃ x b, e.met a l = .ok x ∧ e.setGiven a l.id x = .ok b ∧
      e.process b l.quad = .ok w.analysis := by
  obtain ⟨_, _, h⟩ := bind_eq_ok.1 h
  obtain ⟨x, hx, h⟩ := bind_eq_ok.1 h
  obtain ⟨b, hb, h⟩ := bind_eq_ok.1 h
  obtain ⟨c, hc, h⟩ := bind_eq_ok.1 h
  obtain ⟨_, _, h⟩ := bind_eq_ok.1 h
  cases h
  exact ⟨x, b, hx, hb, hc⟩

theorem keeps_visitAt {l : Location} (h : ∀ {a w}, P a → e.visit a l = .ok w → P w.analysis) :
    Run.Keeps P (e.visitAt level l) := by
  intro a ha
  show P ((Run.ofExcept (e.visit a l) >>= _) a).state
  cases hv : e.visit a l with
  | error x => exact ha
  | ok w => exact h ha hv

theorem keeps_pass (h : ∀ l ∈ ls, Run.Keeps P (e.visitAt level l)) :
    Run.Keeps P (e.pass level ls) := by
  intro a ha
  refine Run.Keeps.foldlM (fun l hl _ => ?_) false a ha
  have hl : l ∈ ls := (a.direction.arrange_perm ls).mem_iff.1 hl
  exact (h l hl).bind fun _ _ hs => hs

theorem keeps_iterate (h : Run.Keeps P (e.pass level ls)) (name : String) (fuel count : Nat) :
    Run.Keeps P (e.iterate level name ls fuel count) :=
  h.repeatWhile (fun _ _ => Run.keeps_say _ _ _ _) fuel count

/-- Settling keeps what the write at the boundary keeps where the flow ends. -/
theorem keeps_settle
    (hexit : ∀ {a b x}, P a → a.direction = .forward → e.farValue a ls = .ok x →
      e.setExit a x = .ok b → P b)
    (hentry : ∀ {a b x}, P a → a.direction = .backward → e.farValue a ls = .ok x →
      e.setEntry a x = .ok b → P b) : Run.Keeps P (e.settle level ls) := by
  intro a ha
  show P ((Run.ofExcept (e.farValue a ls) >>= _) a).state
  cases hx : e.farValue a ls with
  | error y => exact ha
  | ok x =>
    cases hd : a.direction with
    | forward => exact Run.change_state ha (hexit ha hd hx)
    | backward => exact Run.change_state ha (hentry ha hd hx)

theorem yields_visitAt {l : Location} {w : Visit σ τ α} (h : e.visit a l = .ok w) :
    (e.visitAt level l).Yields a w.changed w.analysis :=
  (Run.yields_get a).bind ((Run.yields_ofExcept h a).bind
    ((Run.yields_put a w.analysis).bind ((Run.yields_say _ _ _ _).bind (Run.yields_pure _ _))))

/-- If a visit is a step, a pass is a sweep. -/
theorem exists_pass {V : Type} {H : V → Analysis σ α → Prop} {d : Direction}
    {step : V → Location → V} {stirs : V → Location → Bool} (stirsAny : V → List Location → Bool)
    (hnil : ∀ v, stirsAny v [] = false)
    (hcons : ∀ v l ls, stirsAny v (l :: ls) = (stirs v l || stirsAny (step v l) ls))
    (hdirection : ∀ {v a}, H v a → a.direction = d)
    (hvisit : ∀ {v a}, H v a → ∀ {l}, l ∈ ls → ∃ w, e.visit a l = .ok w ∧
      H (step v l) w.analysis ∧ w.changed = stirs v l) {v : V} (h : H v a) :
    ∃ b, (e.pass level ls).Yields a (stirsAny v (d.arrange ls)) b ∧
      H ((d.arrange ls).foldl step v) b := by
  have hstep : ∀ l ∈ d.arrange ls, ∀ v a, H v a →
      ∃ b, (e.visitAt level l).Yields a (stirs v l) b ∧ H (step v l) b := by
    intro l hl v a h
    obtain ⟨w, hw, hH, hchanged⟩ := hvisit h ((d.arrange_perm ls).mem_iff.1 hl)
    exact ⟨w.analysis, hchanged ▸ yields_visitAt hw, hH⟩
  obtain ⟨b, hb, hH⟩ := Run.exists_yields_rounds stirsAny hnil hcons hstep h false
  rw [Bool.false_or] at hb
  refine ⟨b, (Run.yields_get a).bind ?_, hH⟩
  rw [hdirection h]
  exact hb

theorem yields_settle {x : FactSet α} (hfar : e.farValue a ls = .ok x)
    (hset : (match a.direction with
      | .forward => e.setExit a x
      | .backward => e.setEntry a x) = .ok b) : (e.settle level ls).Yields a () b := by
  refine (Run.yields_get a).bind ((Run.yields_ofExcept hfar a).bind
    ((Run.yields_say _ _ _ _).bind ?_))
  cases hd : a.direction with
  | forward =>
    rw [hd] at hset
    exact Run.yields_change hset
  | backward =>
    rw [hd] at hset
    exact Run.yields_change hset

end Engine

end Dataflow
