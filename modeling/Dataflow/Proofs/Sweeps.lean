import Dataflow.Proofs.Equations
import Mathlib.Algebra.Order.BigOperators.Group.List
import Mathlib.Algebra.Order.Ring.Nat
import Mathlib.Data.Nat.Cast.Basic
import Mathlib.Data.List.Nodup

/-! # Sweeps over the locations

A sweep updates both values of one location after the other, in place, so that later ones
already see what earlier ones have become. Started from the top, the solved values only ever
sink, they stay above every solution, and a sweep in which no watched value moves leaves a
solution behind.
-/
namespace Dataflow

theorem Direction.arrange_perm (d : Direction) (ls : List Location) : (d.arrange ls).Perm ls := by
  cases d with
  | forward => exact .refl _
  | backward => exact List.reverse_perm _

namespace Scheme

variable {α : Type} [Fact α] {E : Scheme α} {v w : Valuation α} {l k : Location}

/-- Both values of a location after a visit to it. -/
def step (E : Scheme α) (v : Valuation α) (l : Location) : Valuation α := fun side id =>
  if id = l.id then
    if side = E.direction.given then E.met v l else E.transfer l.quad (E.met v l)
  else v side id

@[simp] theorem step_given : E.step v l E.direction.given l.id = E.met v l := by simp [step]

@[simp] theorem step_solved :
    E.step v l E.direction.solved l.id = E.transfer l.quad (E.met v l) := by
  simp [step, (Direction.given_ne_solved E.direction).symm]

theorem step_other {side : Side} {id : QuadId} (h : id ≠ l.id) :
    E.step v l side id = v side id := by
  simp [step, h]

def sweep (E : Scheme α) (v : Valuation α) (ls : List Location) : Valuation α := ls.foldl E.step v

/-- Whether a visit changes the solved value of a watched location. -/
def stirs (E : Scheme α) (watched : Location → Bool) (v : Valuation α) (l : Location) : Bool :=
  watched l && decide (E.step v l E.direction.solved l.id ≠ v E.direction.solved l.id)

/-- Whether some visit of a sweep does. -/
def stirsAny (E : Scheme α) (watched : Location → Bool) :
    Valuation α → List Location → Bool
  | _, [] => false
  | v, l :: ls => E.stirs watched v l || stirsAny E watched (E.step v l) ls

section Still
variable {watched : Location → Bool}

theorem step_solved_of_still (h : E.stirs watched v l = false) (hl : watched l = true)
    (id : QuadId) : E.step v l E.direction.solved id = v E.direction.solved id := by
  by_cases hid : id = l.id
  · rw [hid]
    simpa [stirs, hl] using h
  · exact step_other hid

/-- Meets look at watched locations only. -/
def Covers (E : Scheme α) (watched : Location → Bool) : Prop :=
  ∀ l ∈ E.locations, ∀ id, .quad id ∈ E.direction.incoming l →
    ∀ k ∈ E.locations, k.id = id → watched k = true

theorem Covers.met_step_of_still (hc : E.Covers watched)
    (hl : l ∈ E.locations) (hk : k ∈ E.locations) (h : E.stirs watched v l = false) :
    E.met (E.step v l) k = E.met v k := by
  apply met_congr
  intro id hid
  by_cases hw : watched l = true
  · exact step_solved_of_still h hw id
  · apply step_other
    rintro rfl
    exact hw (hc k hk _ hid l hl rfl)

theorem sweep_other {ls : List Location} {side : Side} {id : QuadId}
    (h : id ∉ ls.map Location.id) : E.sweep v ls side id = v side id := by
  induction ls generalizing v with
  | nil => rfl
  | cons l ls ih =>
    rw [List.map_cons, List.mem_cons, not_or] at h
    exact (ih h.2).trans (step_other h.1)

/-- A sweep that stirs nothing watched gives every location the meet that it had before, and
all meets are the same afterwards. -/
theorem Covers.sweep_of_still (hc : E.Covers watched) {ls : List Location}
    (hls : ∀ l ∈ ls, l ∈ E.locations) (hnd : (ls.map Location.id).Nodup)
    (h : E.stirsAny watched v ls = false) :
    (∀ k ∈ E.locations, E.met (E.sweep v ls) k = E.met v k) ∧
      ∀ l ∈ ls, E.sweep v ls E.direction.given l.id = E.met v l ∧
        E.sweep v ls E.direction.solved l.id = E.transfer l.quad (E.met v l) := by
  induction ls generalizing v with
  | nil => exact ⟨fun k _ => rfl, fun l hl => absurd hl List.not_mem_nil⟩
  | cons l ls ih =>
    have hl : l ∈ E.locations := hls l List.mem_cons_self
    rw [stirsAny, Bool.or_eq_false_iff] at h
    obtain ⟨hnot, hnd⟩ := List.nodup_cons.1 hnd
    have hstep : ∀ k ∈ E.locations, E.met (E.step v l) k = E.met v k :=
      fun k hk => hc.met_step_of_still hl hk h.1
    obtain ⟨hmet, hval⟩ := ih (fun k hk => hls k (List.mem_cons_of_mem l hk)) hnd h.2
    refine ⟨fun k hk => (hmet k hk).trans (hstep k hk), fun k hk => ?_⟩
    rcases List.mem_cons.1 hk with rfl | hk
    · show E.sweep (E.step v k) ls _ _ = _ ∧ E.sweep (E.step v k) ls _ _ = _
      rw [sweep_other hnot, sweep_other hnot]
      exact ⟨step_given, step_solved⟩
    · rw [← hstep k (hls k (List.mem_cons_of_mem l hk))]
      exact hval k hk

/-- After a sweep over all locations that stirs nothing watched, the equations hold. -/
theorem Covers.solves_of_still (hc : E.Covers watched)
    (hnd : (E.locations.map Location.id).Nodup) {ls : List Location} (hls : ls.Perm E.locations)
    (h : E.stirsAny watched v ls = false) : E.Solves (E.sweep v ls) := by
  obtain ⟨hmet, hval⟩ := hc.sweep_of_still (fun l hl => hls.mem_iff.1 hl)
    ((hls.map Location.id).nodup_iff.2 hnd) h
  intro l hl
  obtain ⟨hgiven, hsolved⟩ := hval l (hls.mem_iff.2 hl)
  exact ⟨by rw [hgiven, hmet l hl], by rw [hsolved, hgiven]⟩

end Still

/-- The state of a descent: no value leaves the domain, and each solved value is still at or
above what its equation would make of it now. -/
structure Falling (E : Scheme α) (v : Valuation α) : Prop where
  inside : E.Inside v
  above {l : Location} : l ∈ E.locations →
    E.confluence.Le (E.transfer l.quad (E.met v l)) (v E.direction.solved l.id)

def topValuation (E : Scheme α) : Valuation α := fun _ _ => E.confluence.top E.domain

theorem Regular.falling_top (hE : E.Regular) : E.Falling E.topValuation := by
  have hin : E.Inside E.topValuation := fun _ _ _ => Confluence.top_subset _ _
  exact ⟨hin, fun hl => Confluence.le_top (hE.closed hl (hE.met_subset hin hl))⟩

theorem Falling.step_le (h : E.Falling v) (hl : l ∈ E.locations) (id : QuadId) :
    E.confluence.Le (E.step v l E.direction.solved id) (v E.direction.solved id) := by
  by_cases hid : id = l.id
  · rw [hid, step_solved]
    exact h.above hl
  · rw [step_other hid]
    exact .refl _ _

theorem Regular.inside_step (hE : E.Regular) (hv : E.Inside v) (hl : l ∈ E.locations) :
    E.Inside (E.step v l) := by
  intro side k hk
  by_cases hid : k.id = l.id
  · have hmet := hE.met_subset hv hl
    rcases Direction.eq_given_or_eq_solved E.direction side with rfl | rfl
    · rw [hid, step_given]
      exact hmet
    · rw [hid, step_solved]
      exact hE.closed hl hmet
  · rw [step_other hid]
    exact hv side k hk

theorem Regular.falling_step (hE : E.Regular) (h : E.Falling v) (hl : l ∈ E.locations) :
    E.Falling (E.step v l) := by
  refine ⟨hE.inside_step h.inside hl, fun {k} hk => ?_⟩
  have hsink : E.confluence.Le (E.transfer k.quad (E.met (E.step v l) k))
      (E.transfer k.quad (E.met v k)) :=
    hE.transfer_mono hk (hE.met_mono hk fun j _ => h.step_le hl j.id)
  by_cases hid : k.id = l.id
  · cases List.inj_on_of_nodup_map hE.nodup hk hl hid
    rw [step_solved]
    exact hsink
  · rw [step_other hid]
    exact hsink.trans (h.above hk)

theorem Regular.falling_sweep (hE : E.Regular) {ls : List Location}
    (hls : ∀ l ∈ ls, l ∈ E.locations) (h : E.Falling v) : E.Falling (E.sweep v ls) := by
  induction ls generalizing v with
  | nil => exact h
  | cons l ls ih =>
    exact ih (fun k hk => hls k (List.mem_cons_of_mem l hk))
      (hE.falling_step h (hls l List.mem_cons_self))

/-- Each solved value is at or below what its equation would make of it. -/
def Rising (E : Scheme α) (w : Valuation α) : Prop :=
  ∀ l ∈ E.locations, E.confluence.Le (w E.direction.solved l.id) (E.transfer l.quad (E.met w l))

theorem Solves.rising (hw : E.Solves w) : E.Rising w := by
  intro l hl
  rw [(hw l hl).2, (hw l hl).1]
  exact .refl _ _

/-- Solved values that lie above rising ones still do after a visit. -/
theorem Regular.dominates_step (hE : E.Regular) (hw : E.Rising w)
    (h : ∀ k ∈ E.locations,
      E.confluence.Le (w E.direction.solved k.id) (v E.direction.solved k.id))
    (hl : l ∈ E.locations) : ∀ k ∈ E.locations,
      E.confluence.Le (w E.direction.solved k.id) (E.step v l E.direction.solved k.id) := by
  intro k hk
  by_cases hid : k.id = l.id
  · cases List.inj_on_of_nodup_map hE.nodup hk hl hid
    rw [step_solved]
    exact (hw l hl).trans (hE.transfer_mono hl (hE.met_mono hl h))
  · rw [step_other hid]
    exact h k hk

theorem Regular.dominates_sweep (hE : E.Regular) (hw : E.Rising w) {ls : List Location}
    (hls : ∀ l ∈ ls, l ∈ E.locations)
    (h : ∀ k ∈ E.locations,
      E.confluence.Le (w E.direction.solved k.id) (v E.direction.solved k.id)) :
    ∀ k ∈ E.locations,
      E.confluence.Le (w E.direction.solved k.id) (E.sweep v ls E.direction.solved k.id) := by
  induction ls generalizing v with
  | nil => exact h
  | cons l ls ih =>
    exact ih (fun k hk => hls k (List.mem_cons_of_mem l hk))
      (hE.dominates_step hw h (hls l List.mem_cons_self))

/-- How far the solved values of the watched locations can still sink. -/
def slack (E : Scheme α) (watched : Location → Bool) (v : Valuation α) : Nat :=
  ((E.locations.filter watched).map fun l =>
    E.confluence.rank E.domain (v E.direction.solved l.id)).sum

theorem Falling.slack_step_le (h : E.Falling v) (watched : Location → Bool)
    (hl : l ∈ E.locations) : E.slack watched (E.step v l) ≤ E.slack watched v :=
  List.sum_le_sum fun k _ => Confluence.rank_mono (h.step_le hl k.id)

theorem Regular.slack_step_lt (hE : E.Regular) {watched : Location → Bool} (h : E.Falling v)
    (hl : l ∈ E.locations) (hs : E.stirs watched v l = true) :
    E.slack watched (E.step v l) < E.slack watched v := by
  obtain ⟨hw, hne⟩ : watched l = true ∧
      E.step v l E.direction.solved l.id ≠ v E.direction.solved l.id := by
    simpa [stirs] using hs
  refine List.sum_lt_sum _ _ (fun k _ => Confluence.rank_mono (h.step_le hl k.id))
    ⟨l, List.mem_filter.2 ⟨hl, hw⟩, ?_⟩
  exact Confluence.rank_lt ((hE.inside_step h.inside hl) _ l hl) (h.step_le hl l.id) hne

theorem Regular.slack_sweep (hE : E.Regular) (watched : Location → Bool) {ls : List Location}
    (hls : ∀ l ∈ ls, l ∈ E.locations) (h : E.Falling v) :
    E.slack watched (E.sweep v ls) + (if E.stirsAny watched v ls then 1 else 0) ≤
      E.slack watched v := by
  induction ls generalizing v with
  | nil => exact Nat.le_refl _
  | cons l ls ih =>
    have hl : l ∈ E.locations := hls l List.mem_cons_self
    have hrest := ih (fun k hk => hls k (List.mem_cons_of_mem l hk)) (hE.falling_step h hl)
    have hle := h.slack_step_le watched hl
    show E.slack watched (E.sweep (E.step v l) ls) +
      (if (E.stirs watched v l || E.stirsAny watched (E.step v l) ls) = true then 1 else 0) ≤ _
    cases hs : E.stirs watched v l with
    | true =>
      have hlt := hE.slack_step_lt h hl hs
      simp only [Bool.true_or, if_true]
      split at hrest <;> omega
    | false =>
      simp only [Bool.false_or]
      omega

/-- A sweep that stirs something watched brings the values nearer to where they must stop. -/
theorem Regular.slack_sweep_lt (hE : E.Regular) {watched : Location → Bool} {ls : List Location}
    (hls : ∀ l ∈ ls, l ∈ E.locations) (h : E.Falling v)
    (hs : E.stirsAny watched v ls = true) :
    E.slack watched (E.sweep v ls) < E.slack watched v := by
  have hle := hE.slack_sweep watched hls h
  rw [hs, if_pos rfl] at hle
  omega

theorem Falling.slack_le (h : E.Falling v) (watched : Location → Bool) :
    E.slack watched v ≤ E.locations.length * E.domain.size := by
  have hrank : ∀ n ∈ (E.locations.filter watched).map (fun l =>
      E.confluence.rank E.domain (v E.direction.solved l.id)), n ≤ E.domain.size := by
    intro n hn
    obtain ⟨l, hl, rfl⟩ := List.mem_map.1 hn
    exact Confluence.rank_le_size (h.inside _ l (List.mem_filter.1 hl).1)
  have hsum := List.sum_le_card_nsmul _ _ hrank
  rw [List.length_map, nsmul_eq_mul] at hsum
  exact hsum.trans (Nat.mul_le_mul_right _ (List.length_filter_le _ _))

/-- Sweeps until one stirs nothing watched, or the fuel is used up. -/
def descend (E : Scheme α) (watched : Location → Bool) : Nat → Valuation α → Valuation α
  | 0, v => v
  | fuel + 1, v =>
    if E.stirsAny watched v (E.direction.arrange E.locations) then
      descend E watched fuel (E.sweep v (E.direction.arrange E.locations))
    else E.sweep v (E.direction.arrange E.locations)

theorem arrange_perm (E : Scheme α) : (E.direction.arrange E.locations).Perm E.locations :=
  E.direction.arrange_perm E.locations

theorem arrange_subset (E : Scheme α) :
    ∀ l ∈ E.direction.arrange E.locations, l ∈ E.locations :=
  fun _ hl => E.arrange_perm.mem_iff.1 hl

/-- A descent with enough fuel ends in a solution, since every sweep but the last uses up some
of the slack. -/
theorem Regular.solves_descend (hE : E.Regular) {watched : Location → Bool}
    (hc : E.Covers watched) {fuel : Nat} (h : E.Falling v) (hfuel : E.slack watched v < fuel) :
    E.Solves (E.descend watched fuel v) := by
  induction fuel generalizing v with
  | zero => exact absurd hfuel (Nat.not_lt_zero _)
  | succ fuel ih =>
    have hls := E.arrange_subset
    rw [descend]
    split
    · rename_i hs
      have hlt := hE.slack_sweep_lt hls h hs
      exact ih (hE.falling_sweep hls h) (by omega)
    · rename_i hs
      exact hc.solves_of_still hE.nodup E.arrange_perm (Bool.not_eq_true _ ▸ hs)

/-- Whatever every sweep keeps, a descent keeps. -/
theorem descend_induction {P : Valuation α → Prop} {watched : Location → Bool}
    (hP : ∀ v, P v → P (E.sweep v (E.direction.arrange E.locations))) (fuel : Nat) (h : P v) :
    P (E.descend watched fuel v) := by
  induction fuel generalizing v with
  | zero => exact h
  | succ fuel ih =>
    rw [descend]
    split
    · exact ih (hP v h)
    · exact hP v h

/-- A descent from the top never sinks below rising values. -/
theorem Regular.dominates_descend (hE : E.Regular) (hw : E.Rising w) (hin : E.Inside w)
    (watched : Location → Bool) (fuel : Nat) : ∀ k ∈ E.locations,
      E.confluence.Le (w E.direction.solved k.id)
        (E.descend watched fuel E.topValuation E.direction.solved k.id) :=
  descend_induction (P := fun v => ∀ k ∈ E.locations, E.confluence.Le
    (w E.direction.solved k.id) (v E.direction.solved k.id))
    (fun _ hv => hE.dominates_sweep hw E.arrange_subset hv) fuel
    (fun k hk => Confluence.le_top (hin _ k hk))

/-- A descent from the top reaches the maximal fixed point. -/
theorem Regular.greatest_descend (hE : E.Regular) {watched : Location → Bool}
    (hc : E.Covers watched) {fuel : Nat} (hfuel : E.locations.length * E.domain.size < fuel) :
    E.Greatest (E.descend watched fuel E.topValuation) := by
  have hls := E.arrange_subset
  have htop := hE.falling_top
  have hsolves := hE.solves_descend hc htop (Nat.lt_of_le_of_lt (htop.slack_le watched) hfuel)
  have hfalling : E.Falling (E.descend watched fuel E.topValuation) :=
    descend_induction (fun v hv => hE.falling_sweep hls hv) fuel htop
  refine ⟨hsolves, hfalling.inside, fun w hin hw => ?_⟩
  have hbelow := hE.dominates_descend hw.rising hin watched fuel
  intro side l hl
  rcases Direction.eq_given_or_eq_solved E.direction side with rfl | rfl
  · rw [(hw l hl).1, (hsolves l hl).1]
    exact hE.met_mono hl hbelow
  · exact hbelow l hl

end Scheme

end Dataflow
