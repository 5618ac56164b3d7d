import Dataflow.Run

/-! # Reasoning about runs

A run yields a value and a state when it succeeds; what it logs on the way is left open. Runs
are taken apart at their binds and put together again from what the parts yield.
-/
namespace Dataflow

theorem bind_eq_ok {ε α β : Type} {x : Except ε α} {f : α → Except ε β} {b : β} :
    (x >>= f) = .ok b ↔ ∃ a, x = .ok a ∧ f a = .ok b := by
  cases x with
  | error e =>
    constructor
    · intro h
      cases h
    · rintro ⟨a, h, _⟩
      cases h
  | ok a =>
    constructor
    · intro h
      exact ⟨a, rfl, h⟩
    · rintro ⟨c, hc, h⟩
      cases hc
      exact h

theorem exists_of_isOk {ε α : Type} {x : Except ε α} (h : x.isOk) : ∃ a, x = .ok a := by
  cases x with
  | error e => cases h
  | ok a => exact ⟨a, rfl⟩

/-- Outcomes that differ in their logs at most. -/
def Outcome.Like {σ α : Type} (o p : Outcome σ α) : Prop :=
  o.result = p.result ∧ o.state = p.state

theorem Outcome.Like.trans {σ α : Type} {o p q : Outcome σ α} (h : o.Like p) (h' : p.Like q) :
    o.Like q := ⟨h.1.trans h'.1, h.2.trans h'.2⟩

namespace Run

variable {σ τ α β : Type}

/-- The run succeeds from `s` with the value `a` and leaves the state `t`. -/
def Yields (r : Run σ α) (s : σ) (a : α) (t : σ) : Prop := ∃ log, r s = ⟨.ok a, t, log⟩

theorem Yields.result {r : Run σ α} {s t : σ} {a : α} (h : r.Yields s a t) :
    (r s).result = .ok a := by
  obtain ⟨log, h⟩ := h
  rw [h]

theorem Yields.state {r : Run σ α} {s t : σ} {a : α} (h : r.Yields s a t) : (r s).state = t := by
  obtain ⟨log, h⟩ := h
  rw [h]

theorem yields_of_result {r : Run σ α} {s : σ} {a : α} (h : (r s).result = .ok a) :
    r.Yields s a (r s).state := by
  cases ho : r s with
  | mk result state log =>
    rw [ho] at h
    cases h
    exact ⟨log, ho⟩

theorem Yields.of_like {r : Run σ α} {s t : σ} {a : α} {log : List Line}
    (h : (r s).Like ⟨.ok a, t, log⟩) : r.Yields s a t := by
  have hyields := yields_of_result h.1
  rw [h.2] at hyields
  exact hyields

theorem Yields.of_result_like {r r' : Run σ α} {s t : σ} {a : α} (hlike : (r s).Like (r' t))
    (h : (r s).result = .ok a) : r'.Yields t a (r s).state := by
  rw [hlike.2]
  exact yields_of_result (hlike.1 ▸ h)

theorem bind_apply (r : Run σ α) (f : α → Run σ β) (s : σ) :
    (r >>= f) s = match (r s).result with
      | .ok a => { f a (r s).state with log := (r s).log ++ (f a (r s).state).log }
      | .error e => ⟨.error e, (r s).state, (r s).log⟩ := rfl

theorem get_bind (f : σ → Run σ β) (s : σ) : (Run.get >>= f) s = f s s := rfl

theorem put_bind (t : σ) (f : Unit → Run σ β) (s : σ) : (Run.put t >>= f) s = f () t := rfl

theorem look_bind (g : σ → Except Error α) (f : α → Run σ β) (s : σ) :
    (Run.look g >>= f) s = match g s with
      | .ok a => f a s
      | .error e => ⟨.error e, s, []⟩ := by
  rw [bind_apply, Run.look]
  cases g s <;> rfl

/-- What holds before the run holds after it, also if it fails. -/
def Keeps (P : σ → Prop) (r : Run σ α) : Prop := ∀ s, P s → P (r s).state

theorem Keeps.bind {P : σ → Prop} {r : Run σ α} {f : α → Run σ β} (hr : Keeps P r)
    (hf : ∀ a, Keeps P (f a)) : Keeps P (r >>= f) := by
  intro s hs
  rw [bind_apply]
  split
  · exact hf _ _ (hr s hs)
  · exact hr s hs

theorem Keeps.forM {P : σ → Prop} {r : α → Run σ Unit} {l : List α}
    (hr : ∀ a ∈ l, Keeps P (r a)) : Keeps P (l.forM r) := by
  induction l with
  | nil => exact fun s hs => hs
  | cons a l ih =>
    exact (hr a List.mem_cons_self).bind fun _ => ih fun b hb => hr b (List.mem_cons_of_mem a hb)

theorem Keeps.foldlM {P : σ → Prop} {r : β → α → Run σ β} {l : List α}
    (hr : ∀ a ∈ l, ∀ b, Keeps P (r b a)) (b : β) : Keeps P (l.foldlM r b) := by
  induction l generalizing b with
  | nil => exact fun s hs => hs
  | cons a l ih =>
    exact (hr a List.mem_cons_self b).bind (ih fun c hc => hr c (List.mem_cons_of_mem a hc))

theorem keeps_ofExcept (P : σ → Prop) (x : Except Error α) : Keeps P (Run.ofExcept x) :=
  fun _ hs => hs

theorem keeps_say (P : σ → Prop) (limit l : Level) (message : Unit → String) :
    Keeps P (Run.say limit l message : Run σ Unit) := fun _ hs => hs

theorem change_state {P : σ → Prop} {f : σ → Except Error σ} {s : σ} (hs : P s)
    (h : ∀ {t}, f s = .ok t → P t) : P (Run.change f s).state := by
  unfold Run.change
  cases ht : f s with
  | error e => exact hs
  | ok t => exact h ht

theorem keeps_change {P : σ → Prop} {f : σ → Except Error σ}
    (h : ∀ {s t}, P s → f s = .ok t → P t) : Keeps P (Run.change f) :=
  fun _ hs => change_state hs (h hs)

/-- The runs do the same from the states in question. -/
def EqOn (P : σ → Prop) (r r' : Run σ α) : Prop := ∀ s, P s → r s = r' s

theorem EqOn.bind {P : σ → Prop} {r r' : Run σ α} {f f' : α → Run σ β} (hr : EqOn P r r')
    (hkeep : Keeps P r) (hf : ∀ a, EqOn P (f a) (f' a)) : EqOn P (r >>= f) (r' >>= f') := by
  intro s hs
  rw [bind_apply, bind_apply, ← hr s hs]
  cases (r s).result with
  | error e => rfl
  | ok a => simp only [hf a _ (hkeep s hs)]

theorem Keeps.eqOn_bind {P : σ → Prop} {r : Run σ α} {f f' : α → Run σ β} (hkeep : Keeps P r)
    (hf : ∀ a, EqOn P (f a) (f' a)) : EqOn P (r >>= f) (r >>= f') :=
  .bind (fun _ _ => rfl) hkeep hf

/-- Two sequences go alike if their parts do, up to a change of the state. -/
theorem bind_mapState {φ : σ → τ} {r : Run σ α} {r' : Run τ α} {f : α → Run σ β}
    {f' : α → Run τ β} {s : σ} {t : τ} (hr : r' t = (r s).mapState φ)
    (hf : ∀ a u, f' a (φ u) = (f a u).mapState φ) :
    (r' >>= f') t = ((r >>= f) s).mapState φ := by
  rw [bind_apply, bind_apply, hr]
  cases hresult : (r s).result with
  | error e => simp only [Outcome.mapState, hresult]
  | ok a => simp only [Outcome.mapState, hresult, hf]

theorem forM_mapState {φ : σ → τ} {r : α → Run σ Unit} {r' : α → Run τ Unit}
    (h : ∀ a s, r' a (φ s) = (r a s).mapState φ) (l : List α) (s : σ) :
    l.forM r' (φ s) = (l.forM r s).mapState φ := by
  induction l generalizing s with
  | nil => rfl
  | cons a l ih => exact bind_mapState (h a s) fun _ => ih

theorem Yields.bind {r : Run σ α} {f : α → Run σ β} {s t u : σ} {a : α} {b : β}
    (hr : r.Yields s a t) (hf : (f a).Yields t b u) : (r >>= f).Yields s b u := by
  obtain ⟨first, hr⟩ := hr
  obtain ⟨second, hf⟩ := hf
  exact ⟨first ++ second, by rw [bind_apply, hr]; simp only [hf]⟩

/-- After a first part that succeeds, the second decides. -/
theorem Yields.bind_like {r : Run σ α} {s t : σ} {a : α} (hr : r.Yields s a t)
    (f : α → Run σ β) : ((r >>= f) s).Like (f a t) := by
  obtain ⟨log, hr⟩ := hr
  rw [bind_apply, hr]
  exact ⟨rfl, rfl⟩

theorem bind_result_of_error {r : Run σ α} {s : σ} {e : Error} (hr : (r s).result = .error e)
    (f : α → Run σ β) : ((r >>= f) s).result = .error e := by
  rw [bind_apply, hr]

/-- A sequence that succeeds has two parts that do. -/
theorem Yields.of_bind {r : Run σ α} {f : α → Run σ β} {s u : σ} {b : β}
    (h : (r >>= f).Yields s b u) : ∃ a t, r.Yields s a t ∧ (f a).Yields t b u := by
  obtain ⟨log, h⟩ := h
  rw [bind_apply] at h
  cases hr : (r s).result with
  | error e =>
    rw [hr] at h
    cases congrArg Outcome.result h
  | ok a =>
    rw [hr] at h
    refine ⟨a, (r s).state, yields_of_result hr, (f a (r s).state).log, ?_⟩
    have hresult : (f a (r s).state).result = .ok b := congrArg Outcome.result h
    have hstate : (f a (r s).state).state = u := congrArg Outcome.state h
    rw [← hresult, ← hstate]

theorem Yields.unique {r : Run σ α} {s t u : σ} {a b : α} (h : r.Yields s a t)
    (h' : r.Yields s b u) : a = b ∧ t = u := by
  obtain ⟨log, h⟩ := h
  obtain ⟨log', h'⟩ := h'
  cases h.symm.trans h'
  exact ⟨rfl, rfl⟩

theorem Yields.of_zoom {r : Run σ α} {view : τ → σ} {update : τ → σ → τ} {s t : τ} {a : α}
    (h : (r.zoom view update).Yields s a t) : ∃ u, r.Yields (view s) a u ∧ t = update s u := by
  have hresult : (r (view s)).result = .ok a := h.result
  exact ⟨_, yields_of_result hresult, h.state.symm⟩

theorem Yields.of_mapError {r : Run σ α} {f : Error → Error} {s t : σ} {a : α}
    (h : (r.mapError f).Yields s a t) : r.Yields s a t := by
  have hstate : (r s).state = t := h.state
  have hresult : (r s).result = .ok a := by
    have hmapped : (r s).result.mapError f = .ok a := h.result
    cases hr : (r s).result with
    | error e =>
      rw [hr] at hmapped
      cases hmapped
    | ok b =>
      rw [hr] at hmapped
      exact hmapped
  exact hstate ▸ yields_of_result hresult

theorem Yields.of_ofExcept {x : Except Error α} {s t : σ} {a : α}
    (h : (Run.ofExcept x : Run σ α).Yields s a t) : x = .ok a ∧ s = t := ⟨h.result, h.state⟩

theorem final_eq_ok {r : Run σ α} {s t : σ} : Run.final s r = .ok t ↔ ∃ a, r.Yields s a t := by
  show (r s).result.map (fun _ => (r s).state) = .ok t ↔ _
  constructor
  · intro h
    cases hr : (r s).result with
    | error e =>
      rw [hr] at h
      cases h
    | ok a =>
      rw [hr] at h
      cases h
      exact ⟨a, yields_of_result hr⟩
  · rintro ⟨a, h⟩
    rw [h.result, h.state]
    rfl

theorem yields_pure (a : α) (s : σ) : (pure a : Run σ α).Yields s a s := ⟨[], rfl⟩

theorem yields_get (s : σ) : (Run.get : Run σ σ).Yields s s s := ⟨[], rfl⟩

theorem yields_put (s t : σ) : (Run.put t).Yields s () t := ⟨[], rfl⟩

theorem yields_ofExcept {x : Except Error α} {a : α} (h : x = .ok a) (s : σ) :
    (Run.ofExcept x).Yields s a s := ⟨[], by rw [h]; rfl⟩

theorem yields_change {f : σ → Except Error σ} {s t : σ} (h : f s = .ok t) :
    (Run.change f).Yields s () t := ⟨[], by rw [Run.change, h]⟩

theorem yields_say (limit l : Level) (message : Unit → String) (s : σ) :
    (Run.say limit l message : Run σ Unit).Yields s () s := ⟨_, rfl⟩

theorem yields_trySay (limit l : Level) {message : Unit → Except Error String}
    (h : ∃ text, message () = .ok text) (s : σ) :
    (Run.trySay limit l message : Run σ Unit).Yields s () s := by
  obtain ⟨text, h⟩ := h
  unfold Run.trySay Yields
  by_cases hl : limit.shows l
  · simp only [hl, if_true, h]
    exact ⟨_, rfl⟩
  · simp only [hl, Bool.false_eq_true, if_false]
    exact ⟨_, rfl⟩

/-- A loop that changes nothing, if none of its rounds does. -/
theorem yields_forM_same {l : List α} {r : α → Run σ Unit} {s : σ}
    (h : ∀ a ∈ l, (r a).Yields s () s) : (l.forM r).Yields s () s := by
  induction l with
  | nil => exact yields_pure () s
  | cons a l ih =>
    exact (h a List.mem_cons_self).bind (ih fun b hb => h b (List.mem_cons_of_mem a hb))

theorem Yields.zoom {r : Run σ α} {view : τ → σ} {update : τ → σ → τ} {s : τ} {a : α} {t : σ}
    (h : r.Yields (view s) a t) : (r.zoom view update).Yields s a (update s t) := by
  obtain ⟨log, h⟩ := h
  exact ⟨log, by rw [Run.zoom, h]; rfl⟩

theorem Yields.mapError {r : Run σ α} {s t : σ} {a : α} (h : r.Yields s a t)
    (f : Error → Error) : (r.mapError f).Yields s a t := by
  obtain ⟨log, h⟩ := h
  exact ⟨log, by simp only [Run.mapError, h]; rfl⟩

section Loops

variable {s u : σ} {x : Error}

theorem bind_eq_error {r : Run σ α} {f : α → Run σ β} :
    ((r >>= f) s).result = .error x ↔
      (r s).result = .error x ∨ ∃ a t, r.Yields s a t ∧ (f a t).result = .error x := by
  rw [bind_apply]
  cases hr : (r s).result with
  | error y =>
    have hnot (a : α) (t : σ) : ¬ r.Yields s a t := fun h => by simp [h.result] at hr
    simp [hnot]
  | ok a =>
    constructor
    · intro h
      exact .inr ⟨a, _, yields_of_result hr, h⟩
    · rintro (⟨⟨⟩⟩ | ⟨b, t, hb, h⟩)
      obtain ⟨rfl, rfl⟩ := hb.unique (yields_of_result hr)
      exact h

variable {r : α → Run σ Unit} {l : List α} {a : α}

theorem yields_forM_nil : (([] : List α).forM r).Yields s () u ↔ u = s :=
  ⟨fun h => h.state.symm, fun h => h ▸ yields_pure () s⟩

theorem yields_forM_cons :
    ((a :: l).forM r).Yields s () u ↔ ∃ t, (r a).Yields s () t ∧ (l.forM r).Yields t () u := by
  constructor
  · intro h
    obtain ⟨_, t, ha, hl⟩ := Yields.of_bind h
    exact ⟨t, ha, hl⟩
  · rintro ⟨t, ha, hl⟩
    exact ha.bind hl

theorem yields_forM_concat :
    ((l ++ [a]).forM r).Yields s () u ↔ ∃ t, (l.forM r).Yields s () t ∧ (r a).Yields t () u := by
  induction l generalizing s with
  | nil => simp only [List.nil_append, yields_forM_cons, yields_forM_nil, exists_eq_left,
      exists_eq_right']
  | cons b l ih =>
    simp only [List.cons_append, yields_forM_cons, ih]
    constructor
    · rintro ⟨t, hb, v, hl, ha⟩
      exact ⟨v, ⟨t, hb, hl⟩, ha⟩
    · rintro ⟨v, ⟨t, hb, hl⟩, ha⟩
      exact ⟨t, hb, v, hl, ha⟩

/-- A loop fails where one of its rounds does, after those before it. -/
theorem forM_eq_error : (l.forM r s).result = .error x ↔ ∃ pre a post t, l = pre ++ a :: post ∧
    (pre.forM r).Yields s () t ∧ (r a t).result = .error x := by
  induction l generalizing s with
  | nil =>
    constructor
    · rintro ⟨⟩
    · rintro ⟨pre, a, post, t, heq, -⟩
      simp at heq
  | cons b l ih =>
    have hcons : ((b :: l).forM r s).result = .error x ↔ (r b s).result = .error x ∨
        ∃ t, (r b).Yields s () t ∧ (l.forM r t).result = .error x :=
      bind_eq_error.trans
        ⟨fun h => h.imp_right fun ⟨_, h⟩ => h, fun h => h.imp_right fun h => ⟨(), h⟩⟩
    rw [hcons]
    constructor
    · rintro (hb | ⟨t, hb, hl⟩)
      · exact ⟨[], b, l, s, rfl, yields_pure () s, hb⟩
      · obtain ⟨pre, a, post, v, rfl, hpre, ha⟩ := ih.1 hl
        exact ⟨b :: pre, a, post, v, rfl, yields_forM_cons.2 ⟨t, hb, hpre⟩, ha⟩
    · rintro ⟨pre, a, post, v, heq, hpre, ha⟩
      cases pre with
      | nil =>
        obtain ⟨rfl, rfl⟩ := List.cons.inj heq
        rw [yields_forM_nil.1 hpre] at ha
        exact .inl ha
      | cons c pre =>
        obtain ⟨rfl, rfl⟩ := List.cons.inj heq
        obtain ⟨t, hb, hpre⟩ := yields_forM_cons.1 hpre
        exact .inr ⟨t, hb, ih.2 ⟨pre, a, post, v, rfl, hpre, ha⟩⟩

theorem final_eq_error {r : Run σ α} : Run.final s r = .error x ↔ (r s).result = .error x := by
  show (r s).result.map (fun _ => (r s).state) = .error x ↔ _
  cases (r s).result <;> simp [Except.map]

end Loops

/-- The answers to calls made one after the other, whether they succeed or not, and the state at
the end. -/
def session {γ ρ : Type} (perform : γ → Run σ ρ) : List γ → σ → List (Except Error ρ) × σ
  | [], s => ([], s)
  | c :: cs, s =>
    let o := perform c s
    let rest := session perform cs o.state
    (o.result :: rest.1, rest.2)

end Run

end Dataflow
