import Dataflow.Proofs.QuadPaths

/-! # Facts carried along paths

In a may-problem a quad adds some facts, stops some and lets the others pass. The maximal fixed
point then holds behind a quad exactly the facts that a path carries there from a quad that
adds them. No fact comes from a loop alone, since the facts so carried are a solution
themselves.
-/
namespace Dataflow.Scheme

variable {α : Type} [Fact α] {E : Scheme α} {v : Valuation α} {adds stops : Quad → α → Prop}
  {a : α} {l : Location} {q : Quad}

/-- Facts come from the quads alone, and each quad adds, stops or lets pass. -/
structure Sifts (E : Scheme α) (adds stops : Quad → α → Prop) : Prop where
  confluence : E.confluence = .may
  boundary (a : α) : a ∉ E.boundary
  mem_transfer {l : Location} : l ∈ E.locations → ∀ {s : OrderedSet α} {a : α},
    a ∈ E.transfer l.quad s ↔ adds l.quad a ∨ (a ∈ s ∧ ¬ stops l.quad a)

/-- Some path leads behind the quad from one that adds the fact, and no quad after that one
stops it. -/
def Carries (E : Scheme α) (adds stops : Quad → α → Prop) (q : Quad) (a : α) : Prop :=
  ∃ l ∈ E.locations, adds l.quad a ∧
    Relation.ReflTransGen (fun p q => E.Feeds p q ∧ ¬ stops q a) l.quad q

theorem carries_iff_isChain : E.Carries adds stops q a ↔
    ∃ l ∈ E.locations, adds l.quad a ∧ ∃ tail, (l.quad :: tail).IsChain E.Feeds ∧
      (∀ m ∈ tail, ¬ stops m a) ∧ (l.quad :: tail).getLast? = some q := by
  unfold Carries
  simp only [reflTransGen_iff_isChain]

theorem Sifts.mem_met (h : E.Sifts adds stops) (hE : E.Regular) (hl : l ∈ E.locations) :
    a ∈ E.met v l ↔ ∃ p, E.Feeds p l.quad ∧ a ∈ v E.direction.solved p.id := by
  rw [mem_met_may h.confluence]
  constructor
  · rintro ⟨n, hn, ha⟩
    cases n with
    | quad id =>
      obtain ⟨k, hk, rfl, _⟩ := hE.incoming hl hn
      exact ⟨k.quad, (hE.feeds_iff hl).2 ⟨k, hk, rfl, hn⟩, ha⟩
    | entry => exact absurd ha (h.boundary a)
    | exit => exact absurd ha (h.boundary a)
  · rintro ⟨p, hp, ha⟩
    obtain ⟨k, _, rfl, hn⟩ := (hE.feeds_iff hl).1 hp
    exact ⟨.quad k.id, hn, ha⟩

theorem Sifts.mem_given (h : E.Sifts adds stops) (hE : E.Regular) (hv : E.Solves v)
    (hl : l ∈ E.locations) : a ∈ v E.direction.given l.id ↔
      ∃ p, E.Feeds p l.quad ∧ a ∈ v E.direction.solved p.id := by
  rw [(hv l hl).1]
  exact h.mem_met hE hl

theorem Carries.mem_solved (hc : E.Carries adds stops q a) (h : E.Sifts adds stops)
    (hE : E.Regular) (hv : E.Solves v) : a ∈ v E.direction.solved q.id := by
  obtain ⟨d, hd, hadds, hpath⟩ := hc
  induction hpath with
  | refl =>
    have hsolved : v E.direction.solved d.id = _ := (hv d hd).2
    exact hsolved ▸ (h.mem_transfer hd).2 (.inl hadds)
  | @tail p q _ hstep ih =>
    obtain ⟨hfeeds, hnot⟩ := hstep
    obtain ⟨k, hk, l, hl, rfl, rfl, hin⟩ := hfeeds
    have hgiven := (h.mem_given hE hv hl).2 ⟨k.quad, ⟨k, hk, l, hl, rfl, rfl, hin⟩, ih⟩
    have hsolved : v E.direction.solved l.id = _ := (hv l hl).2
    exact hsolved ▸ (h.mem_transfer hl).2 (.inr ⟨hgiven, hnot⟩)

/-- What is carried behind each quad, and in front of it from the quads that feed it. -/
noncomputable def carried (E : Scheme α) (adds stops : Quad → α → Prop) : Valuation α :=
  E.select (fun q a => ∃ p, E.Feeds p q ∧ E.Carries adds stops p a) (E.Carries adds stops)

theorem Sifts.carried_solves (h : E.Sifts adds stops) (hE : E.Regular) :
    E.Solves (E.carried adds stops) := by
  intro l hl
  constructor
  · apply OrderedSet.ext
    intro a
    refine (hE.mem_select_given hl).trans (Iff.trans ?_ (h.mem_met hE hl).symm)
    constructor
    · rintro ⟨ha, p, hfeeds, hp⟩
      obtain ⟨k, hk, rfl, _⟩ := (hE.feeds_iff hl).1 hfeeds
      exact ⟨k.quad, hfeeds, (hE.mem_select_solved hk).2 ⟨ha, hp⟩⟩
    · rintro ⟨p, hfeeds, hp⟩
      obtain ⟨k, hk, rfl, _⟩ := (hE.feeds_iff hl).1 hfeeds
      obtain ⟨ha, hp⟩ := (hE.mem_select_solved hk).1 hp
      exact ⟨ha, k.quad, hfeeds, hp⟩
  · apply OrderedSet.ext
    intro a
    refine (hE.mem_select_solved hl).trans (Iff.trans ?_ (h.mem_transfer hl).symm)
    constructor
    · rintro ⟨ha, d, hd, hadds, hpath⟩
      cases hpath.cases_tail with
      | inl heq => exact .inl (heq ▸ hadds)
      | inr hlast =>
        obtain ⟨p, hpath, hfeeds, hnot⟩ := hlast
        exact .inr ⟨(hE.mem_select_given hl).2 ⟨ha, p, hfeeds, d, hd, hadds, hpath⟩, hnot⟩
    · rintro (hadds | ⟨hgiven, hnot⟩)
      · have hdomain : a ∈ E.domain := hE.closed hl (OrderedSet.empty_subset _) a
          ((h.mem_transfer hl).2 (.inl hadds))
        exact ⟨hdomain, l, hl, hadds, .refl⟩
      · obtain ⟨ha, p, hfeeds, d, hd, hadds, hpath⟩ := (hE.mem_select_given hl).1 hgiven
        exact ⟨ha, d, hd, hadds, hpath.tail ⟨hfeeds, hnot⟩⟩

theorem Sifts.mem_solved (h : E.Sifts adds stops) (hE : E.Regular) (hv : E.Greatest v)
    (hl : l ∈ E.locations) :
    a ∈ v E.direction.solved l.id ↔ E.Carries adds stops l.quad a := by
  constructor
  · intro ha
    have hbelow := hv.above _ (E.select_inside _ _) (h.carried_solves hE) E.direction.solved l hl
    rw [h.confluence] at hbelow
    exact ((hE.mem_select_solved hl).1 (hbelow a ha)).2
  · intro hc
    exact hc.mem_solved h hE hv.solves

theorem Sifts.mem_farValue (h : E.Sifts adds stops) (hE : E.Regular) (hv : E.Greatest v) :
    a ∈ E.farValue v ↔ ∃ l ∈ E.locations, E.direction.farEnd ∈ E.direction.outgoing l ∧
      E.Carries adds stops l.quad a := by
  rw [mem_farValue_may h.confluence]
  refine exists_congr fun l => and_congr_right fun hl => and_congr_right fun _ => ?_
  exact h.mem_solved hE hv hl

end Dataflow.Scheme
