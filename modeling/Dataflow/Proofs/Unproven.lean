import Dataflow.Proofs.Problems

/-! # Registers that may be null

A register is unproven at a point if some path leads there along which nothing proves it: from
the entry, or from the quad that last wrote it. The maximal fixed point of the null check
problem holds at every quad exactly the mentioned registers that are not unproven there.
-/
namespace Dataflow.NullCheck

open FlowGraph (Point)

inductive Unproven (g : FlowGraph) (mode : Mode) : Point → Register → Prop
  | entry {e : BlockIndex} {r : Register} : g.entry = some e → Unproven g mode (g.start e) r
  | hop {i j : BlockIndex} {r : Register} :
      Unproven g mode ⟨i, []⟩ r → ⟨i, j⟩ ∈ g.edges → Unproven g mode (g.start j) r
  /-- The quad neither writes nor checks the register. -/
  | keep {i : BlockIndex} {q : Quad} {rest : List Quad} {r : Register} :
      Unproven g mode ⟨i, q :: rest⟩ r → r ∉ q.defined → q.operation ≠ .nullCheck r →
      Unproven g mode ⟨i, rest⟩ r
  | define {i : BlockIndex} {q : Quad} {rest : List Quad} {r : Register} :
      g.Within ⟨i, q :: rest⟩ → r ∈ q.defined → ¬ (mode = .moveAware ∧ q.isMove = true) →
      Unproven g mode ⟨i, rest⟩ r
  | copy {i : BlockIndex} {q : Quad} {rest : List Quad} {r s : Register} :
      Unproven g mode ⟨i, q :: rest⟩ s → q.operation = .move r (.register s) →
      Unproven g mode ⟨i, rest⟩ r

/-- What is unproven behind a quad if `before` is unproven in front of it. -/
def Forgets (mode : Mode) (q : Quad) (before : Register → Prop) (r : Register) : Prop :=
  (before r ∧ r ∉ q.defined ∧ q.operation ≠ .nullCheck r) ∨
    (r ∈ q.defined ∧ ¬ (mode = .moveAware ∧ q.isMove = true)) ∨
    ∃ s, before s ∧ q.operation = .move r (.register s)

section Quad

variable {mode : Mode} {q : Quad} {r : Register}

theorem isMove_iff : q.isMove = true ↔ ∃ d s, q.operation = .move d (.register s) := by
  unfold Quad.isMove Operation.isMove
  split
  · rename_i d s heq
    exact ⟨fun _ => ⟨d, s, heq⟩, fun _ => rfl⟩
  · rename_i hnot
    exact ⟨fun h => (by cases h), fun ⟨d, s, heq⟩ => absurd heq (hnot d s)⟩

theorem isNullCheck_iff : q.isNullCheck = true ↔ ∃ s, q.operation = .nullCheck s := by
  unfold Quad.isNullCheck Operation.isNullCheck
  split
  · rename_i s heq
    exact ⟨fun _ => ⟨s, heq⟩, fun _ => rfl⟩
  · rename_i hnot
    exact ⟨fun h => (by cases h), fun ⟨s, heq⟩ => absurd heq (hnot s)⟩

theorem checks_iff : (q.isNullCheck = true ∧ r ∈ q.used) ↔ q.operation = .nullCheck r := by
  constructor
  · rintro ⟨hcheck, hused⟩
    obtain ⟨s, hs⟩ := isNullCheck_iff.1 hcheck
    rw [Quad.used, hs] at hused
    rw [hs, List.mem_singleton.1 hused]
  · intro h
    refine ⟨isNullCheck_iff.2 ⟨r, h⟩, ?_⟩
    rw [Quad.used, h]
    exact List.mem_singleton_self r

/-- What a transfer leaves unproven. -/
theorem not_mem_transfer {s : OrderedSet Register} :
    r ∉ transfer mode q s ↔ Forgets mode q (fun u => u ∉ s) r := by
  rw [mem_transfer, checks_iff, provesMove_eq_true]
  unfold Forgets
  by_cases hmove : q.isMove = true
  · obtain ⟨d, u, hop⟩ := isMove_iff.1 hmove
    have hdefined : q.defined = [d] := by rw [Quad.defined, hop]; rfl
    have hused : q.used = [u] := by rw [Quad.used, hop]; rfl
    simp only [hdefined, hused, hop, hmove, List.mem_singleton, reduceCtorEq, and_true, true_and,
      ne_eq, not_false_eq_true, forall_eq, Operation.move.injEq, Operand.register.injEq]
    constructor
    · intro h
      by_cases hd : r = d
      · by_cases hmode : mode = .moveAware
        · refine .inr (.inr ⟨u, fun hu => h (.inr (.inr ⟨⟨hmode, hu⟩, hd⟩)), hd.symm, rfl⟩)
        · exact .inr (.inl ⟨hd, hmode⟩)
      · exact .inl ⟨fun hs => h (.inl ⟨hs, hd⟩), hd⟩
    · rintro (⟨hs, hd⟩ | ⟨hd, hmode⟩ | ⟨t, ht, hd, rfl⟩) (⟨hm, hne⟩ | hfalse | ⟨⟨hmode', hu⟩, hd'⟩)
      · exact hs hm
      · exact hfalse
      · exact hd hd'
      · exact hne hd
      · exact hfalse
      · exact hmode hmode'
      · exact hne hd.symm
      · exact hfalse
      · exact ht hu
  · have hnot : ∀ d u, q.operation ≠ .move d (.register u) :=
      fun d u heq => hmove (isMove_iff.2 ⟨d, u, heq⟩)
    simp only [hmove, hnot, false_and, and_false, or_false, exists_false, not_false_eq_true,
      and_true, Bool.false_eq_true]
    constructor
    · intro h
      by_cases hd : r ∈ q.defined
      · exact .inr hd
      · exact .inl ⟨fun hs => h (.inl ⟨hs, hd⟩), hd, fun heq => h (.inr heq)⟩
    · rintro (⟨hs, hd, hcheck⟩ | hd) (⟨hm, hne⟩ | heq)
      · exact hs hm
      · exact hcheck heq
      · exact hne hd
      · rw [Quad.defined, heq] at hd
        exact absurd hd List.not_mem_nil

end Quad

namespace Unproven

variable {g : FlowGraph} {mode : Mode} {x y : Point} {r : Register} {i : BlockIndex} {q : Quad}
  {rest : List Quad}

theorem within (h : Unproven g mode x r) : g.Within x := by
  induction h with
  | entry _ => exact g.within_start _
  | hop _ _ _ => exact g.within_start _
  | keep _ _ _ ih => exact ih.tail
  | define hq _ _ => exact hq.tail
  | copy _ _ ih => exact ih.tail

theorem glide (h : Unproven g mode x r) (hglide : g.Glide x y) : Unproven g mode y r := by
  induction hglide with
  | refl => exact h
  | @tail y z _ hhop ih =>
    obtain ⟨i, rest⟩ := y
    obtain ⟨j, quads⟩ := z
    obtain ⟨hrest, hedge, hquads⟩ := hhop
    have hstart : (⟨j, quads⟩ : Point) = g.start j := congrArg (Point.mk j) hquads
    cases hrest
    rw [hstart]
    exact .hop ih hedge

/-- Behind a quad a register is unproven because of that quad. -/
theorem behind_iff (hq : g.Within ⟨i, q :: rest⟩) :
    Unproven g mode ⟨i, rest⟩ r ↔ Forgets mode q (Unproven g mode ⟨i, q :: rest⟩) r := by
  have hinside : ∀ j, g.start j ≠ ⟨i, rest⟩ := by
    intro j heq
    obtain ⟨rfl, hquads⟩ := Point.mk.inj heq
    exact FlowGraph.ne_of_cons_suffix hq hquads.symm
  constructor
  · intro h
    generalize hx : (⟨i, rest⟩ : Point) = x at h
    cases h with
    | entry _ => exact absurd hx.symm (hinside _)
    | hop _ _ => exact absurd hx.symm (hinside _)
    | keep h hdef hcheck =>
      cases hx
      cases FlowGraph.head_unique_of_suffix hq h.within
      exact .inl ⟨h, hdef, hcheck⟩
    | define hw hdef hmode =>
      cases hx
      cases FlowGraph.head_unique_of_suffix hq hw
      exact .inr (.inl ⟨hdef, hmode⟩)
    | copy h hop =>
      cases hx
      cases FlowGraph.head_unique_of_suffix hq h.within
      exact .inr (.inr ⟨_, h, hop⟩)
  · rintro (⟨h, hdef, hcheck⟩ | ⟨hdef, hmode⟩ | ⟨s, h, hop⟩)
    · exact .keep h hdef hcheck
    · exact .define hq hdef hmode
    · exact .copy h hop

/-- A path back to where the register was last unproven by itself: the entry, or the point
behind some quad. -/
theorem traced (h : Unproven g mode x r) :
    (∃ e, g.entry = some e ∧ g.Glide (g.start e) x) ∨
      ∃ id y, g.Behind id y ∧ g.Glide y x ∧ Unproven g mode y r := by
  induction h with
  | entry he => exact .inl ⟨_, he, .refl⟩
  | hop _ hedge ih =>
    rcases ih with ⟨e, he, hglide⟩ | ⟨id, y, hy, hglide, hun⟩
    · exact .inl ⟨e, he, hglide.tail (FlowGraph.hop_start hedge)⟩
    · exact .inr ⟨id, y, hy, hglide.tail (FlowGraph.hop_start hedge), hun⟩
  | keep h hdef hcheck _ => exact .inr ⟨_, _, ⟨_, rfl, h.within⟩, .refl, .keep h hdef hcheck⟩
  | define hq hdef hmode => exact .inr ⟨_, _, ⟨_, rfl, hq⟩, .refl, .define hq hdef hmode⟩
  | copy h hop _ => exact .inr ⟨_, _, ⟨_, rfl, h.within⟩, .refl, .copy h hop⟩

end Unproven

section Values

variable {f : Routine} {ls : List Location} {mode : Mode} {v : Valuation Register}
  {l : Location} {i : BlockIndex} {rest : List Quad} {r : Register}

theorem mem_met {v : Valuation Register} {l : Location} :
    r ∈ ((problem mode).scheme f ls).met v l ↔ r ∈ mentioned f ∧ .entry ∉ l.predecessors ∧
      .exit ∉ l.predecessors ∧ ∀ id, .quad id ∈ l.predecessors → r ∈ v .output id := by
  rw [Scheme.mem_met_must rfl]
  refine and_congr_right fun _ => ?_
  constructor
  · intro h
    exact ⟨fun hn => absurd (h _ hn) (OrderedSet.not_mem_empty r),
      fun hn => absurd (h _ hn) (OrderedSet.not_mem_empty r), fun id hn => h _ hn⟩
  · rintro ⟨hentry, hexit, hquad⟩ n hn
    cases n with
    | entry => exact absurd hn hentry
    | exit => exact absurd hn hexit
    | quad id => exact hquad id hn

/-- A path without quads leads to the point from the entry or from a quad behind which the
valuation lacks the register. -/
def Arrives (g : FlowGraph) (v : Valuation Register) (x : Point) (r : Register) : Prop :=
  (∃ e, g.entry = some e ∧ g.Glide (g.start e) x) ∨
    ∃ id y, g.Behind id y ∧ g.Glide y x ∧ r ∉ v .output id

theorem Arrives.not_mem_input (hat : f.graph.Located l i rest) (hl : l ∈ ls)
    (hv : ((problem mode).scheme f ls).Solves v)
    (h : Arrives f.graph v ⟨i, l.quad :: rest⟩ r) : r ∉ v .input l.id := by
  intro hr
  obtain ⟨_, hentry, _, hquad⟩ := mem_met.1 ((hv l hl).1 ▸ hr)
  rcases h with hback | ⟨id, y, hy, hglide, hnot⟩
  · exact hentry (hat.entry_predecessors.2 hback)
  · exact hnot (hquad id ((hat.quad_predecessors id).2 ⟨y, hy, hglide⟩))

/-- A solution never holds an unproven register: along the path, each quad in turn fails to
bring it in. -/
theorem Unproven.arrives (hf : f.graph.Coherent) (hls : f.locations = .ok ls)
    (hv : ((problem mode).scheme f ls).Solves v) {x : Point} (h : Unproven f.graph mode x r) :
    Arrives f.graph v x r := by
  have hinput : ∀ {i q rest r}, f.graph.Within ⟨i, q :: rest⟩ →
      Arrives f.graph v ⟨i, q :: rest⟩ r → r ∉ v .input q.id := by
    intro i q rest r hq hback
    obtain ⟨l, hl, rfl, hat⟩ := hf.exists_location hls hq
    exact hback.not_mem_input hat hl hv
  have houtput : ∀ {i q rest r}, f.graph.Within ⟨i, q :: rest⟩ →
      Forgets mode q (fun u => u ∉ v .input q.id) r → Arrives f.graph v ⟨i, rest⟩ r := by
    intro i q rest r hq hforgets
    obtain ⟨l, hl, rfl, _⟩ := hf.exists_location hls hq
    have hsolved : v .output l.id = transfer mode l.quad (v .input l.id) := (hv l hl).2
    have hnot : r ∉ v .output l.id := by
      rw [hsolved]
      exact not_mem_transfer.2 hforgets
    exact .inr ⟨l.id, ⟨i, rest⟩, ⟨l.quad, rfl, hq⟩, .refl, hnot⟩
  induction h with
  | entry he => exact .inl ⟨_, he, .refl⟩
  | hop _ hedge ih =>
    rcases ih with ⟨e, he, hglide⟩ | ⟨id, y, hy, hglide, hnot⟩
    · exact .inl ⟨e, he, hglide.tail (FlowGraph.hop_start hedge)⟩
    · exact .inr ⟨id, y, hy, hglide.tail (FlowGraph.hop_start hedge), hnot⟩
  | keep h hdef hcheck ih => exact houtput h.within (.inl ⟨hinput h.within ih, hdef, hcheck⟩)
  | define hq hdef hmode => exact houtput hq (.inr (.inl ⟨hdef, hmode⟩))
  | copy h hop ih => exact houtput h.within (.inr (.inr ⟨_, hinput h.within ih, hop⟩))

/-- The points next to a quad, by side. -/
def Beside (g : FlowGraph) : Side → QuadId → Point → Prop
  | .input => g.Before
  | .output => g.Behind

open Classical in
/-- The mentioned registers that are not unproven next to a quad. -/
noncomputable def proven (f : Routine) (mode : Mode) : Valuation Register := fun side id =>
  (mentioned f).filter fun r =>
    decide (¬ ∃ x, Beside f.graph side id x ∧ Unproven f.graph mode x r)

theorem mem_proven {side : Side} {id : QuadId} : r ∈ proven f mode side id ↔
    r ∈ mentioned f ∧ ∀ x, Beside f.graph side id x → ¬ Unproven f.graph mode x r := by
  unfold proven
  simp only [OrderedSet.mem_filter, decide_eq_true_eq, not_exists, not_and]

theorem mem_proven_input (hf : f.graph.Coherent) (hat : f.graph.Located l i rest) :
    r ∈ proven f mode .input l.id ↔
      r ∈ mentioned f ∧ ¬ Unproven f.graph mode ⟨i, l.quad :: rest⟩ r := by
  rw [mem_proven]
  refine and_congr_right fun _ => ⟨fun h => h _ ⟨l.quad, rest, rfl, rfl, hat.within⟩, ?_⟩
  rintro h ⟨j, quads⟩ ⟨q, tail, hid, rfl, hx⟩
  obtain ⟨rfl, rfl, rfl⟩ := hf.point_unique hx hat.within hid
  exact h

theorem mem_proven_output (hf : f.graph.Coherent) (hat : f.graph.Located l i rest) :
    r ∈ proven f mode .output l.id ↔ r ∈ mentioned f ∧ ¬ Unproven f.graph mode ⟨i, rest⟩ r := by
  rw [mem_proven]
  refine and_congr_right fun _ => ⟨fun h => h _ ⟨l.quad, rfl, hat.within⟩, ?_⟩
  rintro h ⟨j, quads⟩ ⟨q, hid, hx⟩
  obtain ⟨rfl, rfl, rfl⟩ := hf.point_unique hx hat.within hid
  exact h

theorem proven_solves (hf : f.graph.Coherent) (hls : f.locations = .ok ls) :
    ((problem mode).scheme f ls).Solves (proven f mode) := by
  intro l hl
  obtain ⟨i, rest, hat⟩ := hf.exists_located hls hl
  constructor
  · apply OrderedSet.ext
    intro r
    refine (mem_proven_input hf hat).trans (Iff.trans ?_ mem_met.symm)
    refine and_congr_right fun hr => ⟨fun hnot => ⟨?_, hat.exit_predecessors, ?_⟩, ?_⟩
    · intro hentry
      obtain ⟨e, he, hglide⟩ := hat.entry_predecessors.1 hentry
      exact hnot ((Unproven.entry he).glide hglide)
    · intro id hid
      obtain ⟨y, hy, hglide⟩ := (hat.quad_predecessors id).1 hid
      refine mem_proven.2 ⟨hr, fun z hz hun => hnot ?_⟩
      have hyz : y = z := by
        obtain ⟨q, hq, hqy⟩ := hy
        obtain ⟨p, hp, hpz⟩ := hz
        obtain ⟨hblock, _, hrest⟩ := hf.point_unique hqy hpz (hq.trans hp.symm)
        cases y
        cases z
        exact congr (congrArg Point.mk hblock) hrest
      exact (hyz ▸ hun).glide hglide
    · rintro ⟨hentry, _, hquad⟩ hun
      rcases hun.traced with hback | ⟨id, y, hy, hglide, hun⟩
      · exact hentry (hat.entry_predecessors.2 hback)
      · have hmem := hquad id ((hat.quad_predecessors id).2 ⟨y, hy, hglide⟩)
        exact (mem_proven.1 hmem).2 y hy hun
  · have hq : l.quad ∈ f.quads := FlowGraph.mem_quads_of_location hls hl
    have hin : proven f mode .input l.id ⊆ mentioned f := fun r hr => (mem_proven.1 hr).1
    apply OrderedSet.ext
    intro r
    refine (mem_proven_output hf hat).trans ?_
    constructor
    · rintro ⟨hr, hnot⟩
      by_contra hforgets
      refine hnot ((Unproven.behind_iff hat.within).2 ?_)
      rcases not_mem_transfer.1 hforgets with ⟨hs, hdef, hcheck⟩ | hdef | ⟨s, hs, hop⟩
      · refine .inl ⟨?_, hdef, hcheck⟩
        by_contra hun
        exact hs ((mem_proven_input hf hat).2 ⟨hr, hun⟩)
      · exact .inr (.inl hdef)
      · refine .inr (.inr ⟨s, ?_, hop⟩)
        have hmentioned : s ∈ mentioned f := by
          refine mem_mentioned hq (.inr ?_)
          rw [Quad.used, hop]
          exact List.mem_singleton_self s
        by_contra hun
        exact hs ((mem_proven_input hf hat).2 ⟨hmentioned, hun⟩)
    · intro hr
      refine ⟨transfer_mentioned hq hin r hr, fun hun => ?_⟩
      have hnot : ∀ s, Unproven f.graph mode ⟨i, l.quad :: rest⟩ s →
          s ∉ proven f mode .input l.id :=
        fun s hs hm => ((mem_proven_input hf hat).1 hm).2 hs
      refine not_mem_transfer.2 ?_ hr
      rcases (Unproven.behind_iff hat.within).1 hun with ⟨hs, hdef, hcheck⟩ | hdef | ⟨s, hs, hop⟩
      · exact .inl ⟨hnot r hs, hdef, hcheck⟩
      · exact .inr (.inl hdef)
      · exact .inr (.inr ⟨s, hnot s hs, hop⟩)

/-- In front of a quad the maximal fixed point holds what is mentioned and not unproven. -/
theorem mem_input (hf : f.graph.Coherent) (hls : f.locations = .ok ls)
    (hv : ((problem mode).scheme f ls).Greatest v) (hl : l ∈ ls) (hat : f.graph.Located l i rest) :
    r ∈ v .input l.id ↔ r ∈ mentioned f ∧ ¬ Unproven f.graph mode ⟨i, l.quad :: rest⟩ r := by
  constructor
  · intro hr
    refine ⟨hv.inside .input l hl r hr, fun hun => ?_⟩
    exact (hun.arrives hf hls hv.solves).not_mem_input hat hl hv.solves hr
  · intro hr
    have hin : ((problem mode).scheme f ls).Inside (proven f mode) :=
      fun side k _ s hs => (mem_proven.1 hs).1
    have hbelow := hv.above _ hin (proven_solves hf hls) .input l hl
    exact hbelow r ((mem_proven_input hf hat).2 hr)

/-- Likewise behind a quad. -/
theorem mem_output (hf : f.graph.Coherent) (hls : f.locations = .ok ls)
    (hv : ((problem mode).scheme f ls).Greatest v) (hl : l ∈ ls) (hat : f.graph.Located l i rest) :
    r ∈ v .output l.id ↔ r ∈ mentioned f ∧ ¬ Unproven f.graph mode ⟨i, rest⟩ r := by
  have hinput : v .input l.id = proven f mode .input l.id := by
    apply OrderedSet.ext
    intro s
    exact (mem_input hf hls hv hl hat).trans (mem_proven_input hf hat).symm
  have hsolved : v .output l.id = proven f mode .output l.id :=
    calc v .output l.id
      _ = transfer mode l.quad (v .input l.id) := (hv.solves l hl).2
      _ = transfer mode l.quad (proven f mode .input l.id) := by rw [hinput]
      _ = proven f mode .output l.id := ((proven_solves hf hls l hl).2).symm
  rw [hsolved]
  exact mem_proven_output hf hat

end Values

end Dataflow.NullCheck
