import Dataflow.Proofs.Tables
import Mathlib.Data.List.Chain

/-! # Neighbors as paths of blocks

At the ends of a block the neighbors of a quad are told by paths along the edges that lead
through empty blocks only. The search for them is a recursion from block to block, which comes
to an end on every graph since it enters a block once.
-/
namespace Dataflow.FlowGraph

/-- The recursion of the search: it goes through a list of next blocks, and from one that has no
quad and is new it looks on before it comes back to the others. -/
inductive Scans (g : FlowGraph) (o : Outlook) : List BlockIndex → List BlockIndex →
    List Neighbor → List BlockIndex → List Neighbor → Prop
  | done {visited : List BlockIndex} {found : List Neighbor} :
      Scans g o [] visited found visited found
  | meets {j : BlockIndex} {q : Quad} {rest visited seen : List BlockIndex}
      {found all : List Neighbor} : g.meeting o j = some q →
      Scans g o rest visited (addNew found (.quad q.id)) seen all →
      Scans g o (j :: rest) visited found seen all
  | again {j : BlockIndex} {rest visited seen : List BlockIndex} {found all : List Neighbor} :
      g.meeting o j = none → j ∈ visited → Scans g o rest visited found seen all →
      Scans g o (j :: rest) visited found seen all
  | enters {j : BlockIndex} {rest visited between seen : List BlockIndex}
      {found middle all : List Neighbor} : g.meeting o j = none → j ∉ visited →
      Scans g o (o.next j) (j :: visited) ((o.ends j).foldl addNew found) between middle →
      Scans g o rest between middle seen all → Scans g o (j :: rest) visited found seen all

/-- From one block the recursion ends with these neighbors. -/
def Looks (g : FlowGraph) (o : Outlook) (i : BlockIndex) (all : List Neighbor) : Prop :=
  ∃ seen, g.Scans o (o.next i) [i] (o.ends i) seen all

section Recursion

variable {g : FlowGraph} {o : Outlook} {i : BlockIndex} {first rest visited seen : List BlockIndex}
  {found all : List Neighbor}

theorem Scans.of_append (h : g.Scans o (first ++ rest) visited found seen all) :
    ∃ between middle, g.Scans o first visited found between middle ∧
      g.Scans o rest between middle seen all := by
  generalize hlist : first ++ rest = blocks at h
  induction h generalizing first with
  | done =>
    obtain ⟨rfl, rfl⟩ := List.append_eq_nil_iff.1 hlist
    exact ⟨_, _, .done, .done⟩
  | meets hq hrest ih =>
    rcases List.append_eq_cons_iff.1 hlist with ⟨rfl, rfl⟩ | ⟨tail, rfl, htail⟩
    · exact ⟨_, _, .done, .meets hq hrest⟩
    · obtain ⟨between, middle, hfirst, hlast⟩ := ih htail.symm
      exact ⟨between, middle, .meets hq hfirst, hlast⟩
  | again hnone hold hrest ih =>
    rcases List.append_eq_cons_iff.1 hlist with ⟨rfl, rfl⟩ | ⟨tail, rfl, htail⟩
    · exact ⟨_, _, .done, .again hnone hold hrest⟩
    · obtain ⟨between, middle, hfirst, hlast⟩ := ih htail.symm
      exact ⟨between, middle, .again hnone hold hfirst, hlast⟩
  | enters hnone hnew hinner hrest _ ih =>
    rcases List.append_eq_cons_iff.1 hlist with ⟨rfl, rfl⟩ | ⟨tail, rfl, htail⟩
    · exact ⟨_, _, .done, .enters hnone hnew hinner hrest⟩
    · obtain ⟨between, middle, hfirst, hlast⟩ := ih htail.symm
      exact ⟨between, middle, .enters hnone hnew hinner hfirst, hlast⟩

theorem Scans.unique {seen' : List BlockIndex} {all' : List Neighbor}
    (h : g.Scans o rest visited found seen all) (h' : g.Scans o rest visited found seen' all') :
    seen = seen' ∧ all = all' := by
  induction h generalizing seen' all' with
  | done =>
    cases h'
    exact ⟨rfl, rfl⟩
  | meets hq _ ih =>
    cases h' with
    | meets hq' hrest =>
      cases hq.symm.trans hq'
      exact ih hrest
    | again hnone => cases hq.symm.trans hnone
    | enters hnone => cases hq.symm.trans hnone
  | again hnone hold _ ih =>
    cases h' with
    | meets hq' => cases hq'.symm.trans hnone
    | again _ _ hrest => exact ih hrest
    | enters _ hnew => exact absurd hold hnew
  | enters hnone hnew _ _ ihinner ih =>
    cases h' with
    | meets hq' => cases hq'.symm.trans hnone
    | again _ hold => exact absurd hold hnew
    | enters _ _ hinner hrest =>
      obtain ⟨rfl, rfl⟩ := ihinner hinner
      exact ih hrest

/-- With fuel for the edges that are left, the search is what the recursion ends with. -/
theorem exists_scans_search {source : Edge → BlockIndex}
    (hsource : ∀ i, (o.next i).length = g.edges.countP (fun e => source e == i)) (fuel : Nat)
    (pending visited : List BlockIndex) (found : List Neighbor)
    (hfuel : pending.length + g.spare source visited ≤ fuel) :
    ∃ seen, g.Scans o pending visited found seen (g.search o fuel pending visited found) := by
  induction fuel generalizing pending visited found with
  | zero =>
    have hp : pending = [] := List.length_eq_zero_iff.1 (by omega)
    subst hp
    exact ⟨visited, .done⟩
  | succ fuel ih =>
    cases pending with
    | nil => exact ⟨visited, .done⟩
    | cons j pending =>
      rw [List.length_cons] at hfuel
      rw [search]
      split
      · rename_i q hq
        obtain ⟨seen, hseen⟩ := ih pending visited (addNew found (.quad q.id)) (by omega)
        exact ⟨seen, .meets hq hseen⟩
      · rename_i hnone
        split
        · rename_i hold
          obtain ⟨seen, hseen⟩ := ih pending visited found (by omega)
          exact ⟨seen, .again hnone (List.contains_iff_mem.1 hold) hseen⟩
        · rename_i hnew
          have hj : j ∉ visited := fun hm => hnew (List.contains_iff_mem.2 hm)
          have hpay := spare_cons g source hj
          obtain ⟨seen, hseen⟩ := ih (o.next j ++ pending) (j :: visited)
            ((o.ends j).foldl addNew found) (by rw [List.length_append, hsource]; omega)
          obtain ⟨between, middle, hinner, hrest⟩ := hseen.of_append
          exact ⟨seen, .enters hnone hj hinner hrest⟩

theorem looks_lookOut (source : Edge → BlockIndex)
    (hsource : ∀ i, (o.next i).length = g.edges.countP (fun e => source e == i)) :
    g.Looks o i all ↔ all = g.lookOut o i := by
  have hpay := spare_cons g source (i := i) List.not_mem_nil
  have hall : g.spare source [] = g.edges.length := by simp [spare]
  obtain ⟨seen, hseen⟩ := exists_scans_search hsource g.searchFuel (o.next i) [i] (o.ends i)
    (by rw [hsource, hpay, hall]; exact Nat.le_succ _)
  constructor
  · rintro ⟨seen', hseen'⟩
    exact (hseen'.unique hseen).2
  · rintro rfl
    exact ⟨seen, hseen⟩

/-- The recursion backward ends from every block of every graph. -/
theorem looks_backward : g.Looks g.backward i all ↔ all = g.entryNeighbors i :=
  looks_lookOut Edge.tail fun i => by
    simp only [backward, before, List.length_map, List.countP_eq_length_filter]

theorem looks_forward : g.Looks g.forward i all ↔ all = g.exitNeighbors i :=
  looks_lookOut Edge.head fun i => by
    simp only [forward, after, List.length_map, List.countP_eq_length_filter]

theorem nodup_addNew {n : Neighbor} (h : found.Nodup) : (addNew found n).Nodup := by
  unfold addNew
  split
  · exact h
  · rename_i hnew
    rw [← List.concat_eq_append]
    exact h.concat fun hm => hnew (List.contains_iff_mem.2 hm)

theorem Scans.nodup (h : g.Scans o rest visited found seen all) (hfound : found.Nodup) :
    all.Nodup := by
  induction h with
  | done => exact hfound
  | meets _ _ ih => exact ih (nodup_addNew hfound)
  | again _ _ _ ih => exact ih hfound
  | enters _ _ _ _ ihinner ih =>
    exact ih (ihinner (List.foldlRecOn _ addNew hfound fun _ h _ _ => nodup_addNew h))

theorem nodup_entryNeighbors : (g.entryNeighbors i).Nodup := by
  obtain ⟨seen, hseen⟩ := looks_backward.2 (rfl : g.entryNeighbors i = g.entryNeighbors i)
  refine hseen.nodup ?_
  show (if g.entry = some i then [Neighbor.entry] else []).Nodup
  split <;> simp

theorem nodup_exitNeighbors : (g.exitNeighbors i).Nodup := by
  obtain ⟨seen, hseen⟩ := looks_forward.2 (rfl : g.exitNeighbors i = g.exitNeighbors i)
  refine hseen.nodup ?_
  show (if (g.after i).isEmpty then [Neighbor.exit] else []).Nodup
  split <;> simp

end Recursion

/-- A block that is there and has no quad. -/
def Vacant (g : FlowGraph) (i : BlockIndex) : Prop := ∃ b, g.blocks.get? i = some b ∧ b.quads = []

/-- A path of one edge or more with nothing but empty blocks between its ends. -/
def Through (g : FlowGraph) (i j : BlockIndex) : Prop :=
  ∃ between : List BlockIndex, (i :: (between ++ [j])).IsChain (fun a b => ⟨a, b⟩ ∈ g.edges) ∧
    ∀ k ∈ between, g.Vacant k

/-- Such a path along an outlook. -/
def Leads (g : FlowGraph) (o : Outlook) (i j : BlockIndex) : Prop :=
  ∃ between : List BlockIndex, (i :: (between ++ [j])).IsChain (fun a b => b ∈ o.next a) ∧
    ∀ k ∈ between, g.meeting o k = none

section Paths

variable {g : FlowGraph} {o : Outlook} {i j k : BlockIndex} {n : Neighbor}

theorem leads_iff : g.Leads o i j ↔
    j ∈ o.next i ∨ ∃ k ∈ o.next i, g.meeting o k = none ∧ g.Leads o k j := by
  constructor
  · rintro ⟨between, hchain, hnone⟩
    cases between with
    | nil => exact .inl (List.isChain_cons_cons.1 hchain).1
    | cons k between =>
      obtain ⟨hk, htail⟩ := List.isChain_cons_cons.1 hchain
      obtain ⟨hempty, hrest⟩ := List.forall_mem_cons.1 hnone
      exact .inr ⟨k, hk, hempty, between, htail, hrest⟩
  · rintro (hj | ⟨k, hk, hempty, between, hchain, hnone⟩)
    · exact ⟨[], List.isChain_cons_cons.2 ⟨hj, List.isChain_singleton j⟩,
        fun k hk => absurd hk List.not_mem_nil⟩
    · exact ⟨k :: between, List.isChain_cons_cons.2 ⟨hk, hchain⟩,
        List.forall_mem_cons.2 ⟨hempty, hnone⟩⟩

theorem Sees.of_leads (h : g.Leads o i j) :
    (∀ q, g.meeting o j = some q → Sees g o i (.quad q.id)) ∧
      (g.meeting o j = none → ∀ n ∈ o.ends j, Sees g o i n) := by
  obtain ⟨between, hchain, hnone⟩ := h
  induction between generalizing i with
  | nil =>
    have hj := (List.isChain_cons_cons.1 hchain).1
    exact ⟨fun q hq => .meets hj hq, fun hempty n hn => .through hj hempty (.ends hn)⟩
  | cons k between ih =>
    obtain ⟨hk, htail⟩ := List.isChain_cons_cons.1 hchain
    obtain ⟨hempty, hrest⟩ := List.forall_mem_cons.1 hnone
    obtain ⟨hquad, hends⟩ := ih htail hrest
    exact ⟨fun q hq => .through hk hempty (hquad q hq),
      fun hnone n hn => .through hk hempty (hends hnone n hn)⟩

/-- What is seen from a block stands at the block itself or at the end of a path from it. -/
theorem sees_iff_leads : Sees g o i n ↔ n ∈ o.ends i ∨
    (∃ j q, g.Leads o i j ∧ g.meeting o j = some q ∧ n = .quad q.id) ∨
      ∃ j, g.Leads o i j ∧ g.meeting o j = none ∧ n ∈ o.ends j := by
  constructor
  · intro h
    induction h with
    | ends hn => exact .inl hn
    | @meets i j q hj hq => exact .inr (.inl ⟨j, q, leads_iff.2 (.inl hj), hq, rfl⟩)
    | @through i j n hj hempty _ ih =>
      rcases ih with hn | ⟨k, q, hk, hq, rfl⟩ | ⟨k, hk, hnone, hn⟩
      · exact .inr (.inr ⟨j, leads_iff.2 (.inl hj), hempty, hn⟩)
      · exact .inr (.inl ⟨k, q, leads_iff.2 (.inr ⟨j, hj, hempty, hk⟩), hq, rfl⟩)
      · exact .inr (.inr ⟨k, leads_iff.2 (.inr ⟨j, hj, hempty, hk⟩), hnone, hn⟩)
  · rintro (hn | ⟨j, q, hj, hq, rfl⟩ | ⟨j, hj, hnone, hn⟩)
    · exact .ends hn
    · exact (Sees.of_leads hj).1 q hq
    · exact (Sees.of_leads hj).2 hnone n hn

theorem vacant_iff (hi : ∃ b, g.blocks.get? i = some b) : g.Vacant i ↔ g.quadsAt i = [] := by
  obtain ⟨b, hb⟩ := hi
  rw [quadsAt_eq hb, Vacant]
  simp [hb]

/-- Every block of a chain but its first is the tail of an edge. -/
theorem exists_edge_of_isChain {tail : List BlockIndex}
    (h : (i :: tail).IsChain (fun a b => ⟨a, b⟩ ∈ g.edges)) (hk : k ∈ tail) :
    ∃ a, ⟨a, k⟩ ∈ g.edges := by
  induction tail generalizing i with
  | nil => exact absurd hk List.not_mem_nil
  | cons j tail ih =>
    obtain ⟨hij, htail⟩ := List.isChain_cons_cons.1 h
    rcases List.mem_cons.1 hk with rfl | hk
    · exact ⟨i, hij⟩
    · exact ih htail hk

theorem Coherent.leads_forward (hg : g.Coherent) : g.Leads g.forward i j ↔ g.Through i j := by
  have hnext : (fun a b => b ∈ g.forward.next a) = fun a b => (⟨a, b⟩ : Edge) ∈ g.edges := by
    funext a b
    exact propext mem_after
  unfold Leads Through
  rw [hnext]
  refine exists_congr fun between => and_congr_right fun hchain => forall₂_congr fun k hk => ?_
  obtain ⟨a, ha⟩ := exists_edge_of_isChain hchain (List.mem_append_left [j] hk)
  rw [vacant_iff (hg.edges_known ha).2, meeting_forward, List.head?_eq_none_iff]

/-- Backward, a path is read from its end. -/
theorem Coherent.leads_backward (hg : g.Coherent) : g.Leads g.backward i j ↔ g.Through j i := by
  have hnext : (fun a b => b ∈ g.backward.next a) = fun a b => (⟨b, a⟩ : Edge) ∈ g.edges := by
    funext a b
    exact propext mem_before
  have hturn : ∀ between : List BlockIndex,
      (i :: (between ++ [j])).IsChain (fun a b => ⟨b, a⟩ ∈ g.edges) ↔
        (j :: (between.reverse ++ [i])).IsChain (fun a b => ⟨a, b⟩ ∈ g.edges) := by
    intro between
    have hrev : (i :: (between ++ [j])).reverse = j :: (between.reverse ++ [i]) := by simp
    rw [← hrev, List.isChain_reverse]
  have hvacant : ∀ between : List BlockIndex,
      (j :: (between ++ [i])).IsChain (fun a b => ⟨a, b⟩ ∈ g.edges) →
        ∀ k ∈ between, (g.Vacant k ↔ g.meeting g.backward k = none) := by
    intro between hchain k hk
    obtain ⟨a, ha⟩ := exists_edge_of_isChain hchain (List.mem_append_left [i] hk)
    rw [vacant_iff (hg.edges_known ha).2, meeting_backward, List.getLast?_eq_none_iff]
  unfold Leads Through
  rw [hnext]
  constructor
  · rintro ⟨between, hchain, hnone⟩
    have hback := (hturn between).1 hchain
    exact ⟨between.reverse, hback,
      fun k hk => (hvacant _ hback k hk).2 (hnone k (List.mem_reverse.1 hk))⟩
  · rintro ⟨between, hchain, hnone⟩
    refine ⟨between.reverse, (hturn _).2 (by rw [List.reverse_reverse]; exact hchain), ?_⟩
    intro k hk
    have hm := List.mem_reverse.1 hk
    exact (hvacant _ hchain k hm).1 (hnone k hm)

theorem Through.known (hg : g.Coherent) (h : g.Through i j) :
    (∃ b, g.blocks.get? i = some b) ∧ ∃ b, g.blocks.get? j = some b := by
  obtain ⟨between, hchain, _⟩ := h
  obtain ⟨a, ha⟩ := exists_edge_of_isChain hchain (List.mem_append_right between
    (List.mem_singleton.2 rfl))
  refine ⟨?_, (hg.edges_known ha).2⟩
  cases between with
  | nil => exact (hg.edges_known (List.isChain_cons_cons.1 hchain).1).1
  | cons k between => exact (hg.edges_known (List.isChain_cons_cons.1 hchain).1).1

end Paths

/-- What comes right before the first quad of a block. -/
structure Precedes (g : FlowGraph) (i : BlockIndex) (ns : List Neighbor) : Prop where
  quad (id : QuadId) : .quad id ∈ ns ↔ ∃ j b q, g.blocks.get? j = some b ∧ b.last? = some q ∧
    q.id = id ∧ g.Through j i
  entry : .entry ∈ ns ↔ ∃ e, g.entry = some e ∧ (e = i ∨ g.Vacant e ∧ g.Through e i)
  exit : .exit ∉ ns

/-- What comes right after the last quad of a block. -/
structure Succeeds (g : FlowGraph) (i : BlockIndex) (ns : List Neighbor) : Prop where
  quad (id : QuadId) : .quad id ∈ ns ↔ ∃ j b q, g.blocks.get? j = some b ∧ b.first? = some q ∧
    q.id = id ∧ g.Through i j
  exit : .exit ∈ ns ↔ (∀ j, ⟨i, j⟩ ∉ g.edges) ∨
    ∃ j, g.Through i j ∧ g.Vacant j ∧ ∀ k, ⟨j, k⟩ ∉ g.edges
  entry : .entry ∉ ns

section Ends

variable {g : FlowGraph} {i : BlockIndex}

theorem meeting_eq_some {o : Outlook} {j : BlockIndex} {q : Quad} :
    g.meeting o j = some q ↔ ∃ b, g.blocks.get? j = some b ∧ o.meets b = some q :=
  Option.bind_eq_some_iff

theorem mem_ends_backward {n : Neighbor} :
    n ∈ g.backward.ends i ↔ g.entry = some i ∧ n = .entry := by
  have hends : g.backward.ends i = if g.entry = some i then [.entry] else [] := rfl
  rw [hends]
  split <;> simp_all

theorem mem_ends_forward {n : Neighbor} :
    n ∈ g.forward.ends i ↔ (∀ j, ⟨i, j⟩ ∉ g.edges) ∧ n = .exit := by
  have hends : g.forward.ends i = if (g.after i).isEmpty then [.exit] else [] := rfl
  have hempty : (g.after i).isEmpty = true ↔ ∀ j, ⟨i, j⟩ ∉ g.edges := by
    rw [List.isEmpty_iff, List.eq_nil_iff_forall_not_mem]
    exact forall_congr' fun j => not_congr mem_after
  rw [hends]
  split
  · simp_all
  · simp_all

theorem Coherent.precedes (hg : g.Coherent) : g.Precedes i (g.entryNeighbors i) where
  quad id := by
    rw [mem_entryNeighbors, sees_iff_leads]
    constructor
    · rintro (hn | ⟨j, q, hj, hq, heq⟩ | ⟨j, _, _, hn⟩)
      · cases (mem_ends_backward.1 hn).2
      · obtain ⟨b, hb, hlast⟩ := meeting_eq_some.1 hq
        cases heq
        exact ⟨j, b, q, hb, hlast, rfl, hg.leads_backward.1 hj⟩
      · cases (mem_ends_backward.1 hn).2
    · rintro ⟨j, b, q, hb, hlast, rfl, hj⟩
      exact .inr (.inl ⟨j, q, hg.leads_backward.2 hj, meeting_eq_some.2 ⟨b, hb, hlast⟩, rfl⟩)
  entry := by
    rw [mem_entryNeighbors, sees_iff_leads]
    constructor
    · rintro (hn | ⟨j, q, _, _, heq⟩ | ⟨j, hj, hnone, hn⟩)
      · exact ⟨i, (mem_ends_backward.1 hn).1, .inl rfl⟩
      · cases heq
      · have hpath := hg.leads_backward.1 hj
        rw [meeting_backward, List.getLast?_eq_none_iff] at hnone
        exact ⟨j, (mem_ends_backward.1 hn).1,
          .inr ⟨(vacant_iff (hpath.known hg).1).2 hnone, hpath⟩⟩
    · rintro ⟨e, he, rfl | ⟨hvacant, hpath⟩⟩
      · exact .inl (mem_ends_backward.2 ⟨he, rfl⟩)
      · refine .inr (.inr ⟨e, hg.leads_backward.2 hpath, ?_, mem_ends_backward.2 ⟨he, rfl⟩⟩)
        rw [meeting_backward, List.getLast?_eq_none_iff]
        exact (vacant_iff (hpath.known hg).1).1 hvacant
  exit hn := not_sees_backward_exit (mem_entryNeighbors.1 hn)

theorem Coherent.succeeds (hg : g.Coherent) : g.Succeeds i (g.exitNeighbors i) where
  quad id := by
    rw [mem_exitNeighbors, sees_iff_leads]
    constructor
    · rintro (hn | ⟨j, q, hj, hq, heq⟩ | ⟨j, _, _, hn⟩)
      · cases (mem_ends_forward.1 hn).2
      · obtain ⟨b, hb, hfirst⟩ := meeting_eq_some.1 hq
        cases heq
        exact ⟨j, b, q, hb, hfirst, rfl, hg.leads_forward.1 hj⟩
      · cases (mem_ends_forward.1 hn).2
    · rintro ⟨j, b, q, hb, hfirst, rfl, hj⟩
      exact .inr (.inl ⟨j, q, hg.leads_forward.2 hj, meeting_eq_some.2 ⟨b, hb, hfirst⟩, rfl⟩)
  exit := by
    rw [mem_exitNeighbors, sees_iff_leads]
    constructor
    · rintro (hn | ⟨j, q, _, _, heq⟩ | ⟨j, hj, hnone, hn⟩)
      · exact .inl (mem_ends_forward.1 hn).1
      · cases heq
      · have hpath := hg.leads_forward.1 hj
        rw [meeting_forward, List.head?_eq_none_iff] at hnone
        exact .inr ⟨j, hpath, (vacant_iff (hpath.known hg).2).2 hnone,
          (mem_ends_forward.1 hn).1⟩
    · rintro (hnone | ⟨j, hpath, hvacant, hnone⟩)
      · exact .inl (mem_ends_forward.2 ⟨hnone, rfl⟩)
      · refine .inr (.inr ⟨j, hg.leads_forward.2 hpath, ?_, mem_ends_forward.2 ⟨hnone, rfl⟩⟩)
        rw [meeting_forward, List.head?_eq_none_iff]
        exact (vacant_iff (hpath.known hg).2).1 hvacant
  entry hn := not_sees_forward_entry (mem_exitNeighbors.1 hn)

variable {pre rest : List Quad}

theorem nodup_predecessorsAt : (g.predecessorsAt i pre).Nodup := by
  unfold predecessorsAt
  split
  · exact List.nodup_singleton _
  · exact nodup_entryNeighbors

theorem nodup_successorsAt : (g.successorsAt i rest).Nodup := by
  unfold successorsAt
  split
  · exact List.nodup_singleton _
  · exact nodup_exitNeighbors

end Ends

/-- Of two quads each lists the other, or neither does. -/
theorem Coherent.exists_mutual {g : FlowGraph} (hg : g.Coherent) {p q : Quad} (hp : p ∈ g.quads)
    (hq : q ∈ g.quads) : ∃ before after, g.predecessors q.id = .ok before ∧
      g.successors p.id = .ok after ∧ before.Nodup ∧ after.Nodup ∧
      (.quad p.id ∈ before ↔ .quad q.id ∈ after) := by
  obtain ⟨i, b, hb, hp⟩ := mem_quads.1 hp
  obtain ⟨j, c, hc, hq⟩ := mem_quads.1 hq
  obtain ⟨pre, rest, hpquads⟩ := List.append_of_mem hp
  obtain ⟨init, tail, hqquads⟩ := List.append_of_mem hq
  have hpat : g.Within ⟨i, p :: rest⟩ := ⟨pre, by rw [quadsAt_eq hb, hpquads]⟩
  have hqat : g.quadsAt j = init ++ q :: tail := by rw [quadsAt_eq hc, hqquads]
  refine ⟨_, _, hg.predecessors_at hc hqquads, hg.successors_at hb hpquads, nodup_predecessorsAt,
    nodup_successorsAt, ?_⟩
  rw [quad_mem_predecessorsAt hqat, quad_mem_successorsAt hpat.tail]
  -- both sides say that the flow glides from behind `p` to the front of `q`
  constructor
  · rintro ⟨x, ⟨p', hid, hx⟩, hglide⟩
    obtain ⟨hblock, _, hrest⟩ := hg.point_unique hx hpat hid
    obtain ⟨block, restx⟩ := x
    cases hblock
    cases hrest
    exact ⟨_, ⟨q, tail, rfl, rfl, ⟨init, hqat.symm⟩⟩, hglide⟩
  · rintro ⟨y, ⟨q', tail', hid, hy, hyat⟩, hglide⟩
    obtain ⟨block, resty⟩ := y
    cases hy
    obtain ⟨rfl, rfl, rfl⟩ := hg.point_unique hyat ⟨init, hqat.symm⟩ hid
    exact ⟨⟨i, rest⟩, ⟨p, rfl, hpat⟩, hglide⟩

/-- On every graph that has been built, the neighbors at the ends of a block are told by the
paths through empty blocks, and those inside a block by the quads beside. No neighbor is listed
twice, and quads list each other mutually. On any graph at all, the recursion that looks for
neighbors ends, and with the lists given here only. -/
theorem neighbors_are_paths_through_empty_blocks {g : FlowGraph} (built : g.Built) :
    (∀ i b, g.blocks.get? i = some b →
      (∀ q, b.first? = some q →
        ∃ ns, g.predecessors q.id = .ok ns ∧ ns.Nodup ∧ g.Precedes i ns) ∧
      (∀ q, b.last? = some q →
        ∃ ns, g.successors q.id = .ok ns ∧ ns.Nodup ∧ g.Succeeds i ns) ∧
      ∀ pre p q post, b.quads = pre ++ p :: q :: post →
        g.predecessors q.id = .ok [.quad p.id] ∧ g.successors p.id = .ok [.quad q.id]) ∧
    (∀ p ∈ g.quads, ∀ q ∈ g.quads, ∃ before after, g.predecessors q.id = .ok before ∧
      g.successors p.id = .ok after ∧ before.Nodup ∧ after.Nodup ∧
      (.quad p.id ∈ before ↔ .quad q.id ∈ after)) ∧
    ∀ (k : FlowGraph) (i : BlockIndex) (ns : List Neighbor),
      (k.Looks k.backward i ns ↔ ns = k.entryNeighbors i) ∧
      (k.Looks k.forward i ns ↔ ns = k.exitNeighbors i) := by
  have hg := built.coherent
  refine ⟨fun i b hb => ⟨fun q hq => ?_, fun q hq => ?_, fun pre p q post hquads => ?_⟩,
    fun p hp q hq => hg.exists_mutual hp hq, fun k i ns => ⟨looks_backward, looks_forward⟩⟩
  · obtain ⟨rest, hquads⟩ := List.head?_eq_some_iff.1 hq
    have hat : b.quads = [] ++ q :: rest := hquads
    exact ⟨_, hg.predecessors_at hb hat, nodup_entryNeighbors, hg.precedes⟩
  · obtain ⟨init, hquads⟩ := List.getLast?_eq_some_iff.1 hq
    exact ⟨_, hg.successors_at hb hquads, nodup_exitNeighbors, hg.succeeds⟩
  · have hquads' : b.quads = (pre ++ [p]) ++ q :: post := by rw [hquads]; simp
    have hbefore := hg.predecessors_at hb hquads'
    have hlast : g.predecessorsAt i (pre ++ [p]) = [.quad p.id] := by simp [predecessorsAt]
    rw [hlast] at hbefore
    exact ⟨hbefore, hg.successors_at hb hquads⟩

/-- Two empty blocks on a cycle, one of them with an edge to itself, between two blocks that hold
a quad, and no way out. -/
def ringOutline : Outline where
  entry := some 1
  blocks := [⟨0, [⟨5, .nop⟩]⟩, ⟨1, []⟩, ⟨2, []⟩, ⟨3, [⟨7, .nop⟩]⟩]
  edges := [⟨0, 1⟩, ⟨1, 1⟩, ⟨1, 2⟩, ⟨2, 1⟩, ⟨2, 3⟩, ⟨3, 2⟩]

theorem neighbors_around_ring : ∃ g ns, ofOutline ringOutline = .ok g ∧
    g.predecessors 7 = .ok ns ∧ .quad 5 ∈ ns ∧ .quad 7 ∈ ns ∧ .entry ∈ ns ∧ ns.Nodup := by
  obtain ⟨g, hg, hblocks, hedges, hentry⟩ : ∃ g, ofOutline ringOutline = .ok g ∧
      (g.blocks.get? 0 = some ⟨0, [⟨5, .nop⟩]⟩ ∧ g.blocks.get? 1 = some ⟨1, []⟩ ∧
        g.blocks.get? 2 = some ⟨2, []⟩ ∧ g.blocks.get? 3 = some ⟨3, [⟨7, .nop⟩]⟩) ∧
      g.edges = ringOutline.edges ∧ g.entry = some 1 := ⟨_, rfl, ⟨rfl, rfl, rfl, rfl⟩, rfl, rfl⟩
  obtain ⟨h0, h1, h2, h3⟩ := hblocks
  have hall := neighbors_are_paths_through_empty_blocks (built_ofOutline hg)
  obtain ⟨ns, hns, hnodup, hprecedes⟩ := (hall.1 3 _ h3).1 ⟨7, .nop⟩ rfl
  have hvacant : g.Vacant 1 ∧ g.Vacant 2 := ⟨⟨_, h1, rfl⟩, _, h2, rfl⟩
  refine ⟨g, ns, hg, hns, (hprecedes.quad 5).2 ⟨0, _, ⟨5, .nop⟩, h0, rfl, rfl, [1, 2], ?_, ?_⟩,
    (hprecedes.quad 7).2 ⟨3, _, ⟨7, .nop⟩, h3, rfl, rfl, [2], ?_, ?_⟩,
    hprecedes.entry.2 ⟨1, hentry, .inr ⟨hvacant.1, [2], ?_, ?_⟩⟩, hnodup⟩
  · simp [hedges, ringOutline]
  · simp [hvacant]
  · simp [hedges, ringOutline]
  · simp [hvacant]
  · simp [hedges, ringOutline]
  · simp [hvacant]

end Dataflow.FlowGraph
