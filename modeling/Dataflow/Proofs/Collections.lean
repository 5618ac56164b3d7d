import Dataflow.Collection.OrderedMap
import Dataflow.Collection.OrderedSet
import Mathlib.Data.List.Induction
import Mathlib.Data.List.Perm.Subperm

/-! # Laws of ordered sets and maps

Both are determined by what they hold. Sizes compare as inclusion does, the entries of a map
are its look-ups, and what a fold holds comes from its rounds.
-/
namespace Dataflow

private theorem ne_of_compare_lt {α : Type} [Ord α] [Std.ReflOrd α] {a b : α}
    (h : compare a b = .lt) : a ≠ b := by
  intro heq
  rw [heq, Std.ReflOrd.compare_self] at h
  cases h

/-- A property that some round of a fold may bring about. -/
theorem foldl_or_iff {σ β : Type} {P : σ → Prop} {C : β → Prop} {f : σ → β → σ}
    (h : ∀ s b, P (f s b) ↔ P s ∨ C b) (l : List β) (s : σ) :
    P (l.foldl f s) ↔ P s ∨ ∃ b ∈ l, C b := by
  induction l generalizing s with
  | nil => simp
  | cons b l ih => rw [List.foldl_cons, ih, h, or_assoc, List.exists_mem_cons_iff]

/-- A property that some round of a fold may end. -/
theorem foldl_and_iff {σ β : Type} {P : σ → Prop} {C : β → Prop} {f : σ → β → σ}
    (h : ∀ s b, P (f s b) ↔ P s ∧ C b) (l : List β) (s : σ) :
    P (l.foldl f s) ↔ P s ∧ ∀ b ∈ l, C b := by
  induction l generalizing s with
  | nil => simp
  | cons b l ih => rw [List.foldl_cons, ih, h, and_assoc, List.forall_mem_cons]

theorem eraseDups_of_nodup {α : Type} [BEq α] [LawfulBEq α] {l : List α} (h : l.Nodup) :
    l.eraseDups = l := by
  induction l with
  | nil => rfl
  | cons a l ih =>
    obtain ⟨ha, hl⟩ := List.nodup_cons.1 h
    have hkeep : l.filter (fun b => !b == a) = l := by
      apply List.filter_eq_self.2
      intro b hb
      have hne : b ≠ a := fun heq => ha (heq ▸ hb)
      simpa using hne
    rw [List.eraseDups_cons, hkeep, ih hl]

namespace OrderedSet

section Subset
variable {α : Type} [Ord α]

instance : HasSubset (OrderedSet α) := ⟨fun s t => ∀ a, a ∈ s → a ∈ t⟩

theorem subset_refl (s : OrderedSet α) : s ⊆ s := fun _ h => h

theorem subset_trans {s t u : OrderedSet α} (h : s ⊆ t) (h' : t ⊆ u) : s ⊆ u :=
  fun a ha => h' a (h a ha)

theorem empty_subset (s : OrderedSet α) : ∅ ⊆ s := fun a h => absurd h (not_mem_empty a)

end Subset

variable {α : Type} [Ord α] [Std.TransOrd α]

theorem subset_antisymm {s t : OrderedSet α} (h : s ⊆ t) (h' : t ⊆ s) : s = t :=
  ext fun a => ⟨h a, h' a⟩

theorem toList_nodup (s : OrderedSet α) : s.toList.Nodup := s.ascending.imp ne_of_compare_lt

theorem size_le_of_subset {s t : OrderedSet α} (h : s ⊆ t) : s.size ≤ t.size :=
  (List.subperm_of_subset s.toList_nodup h).length_le

theorem size_lt_of_subset {s t : OrderedSet α} (h : s ⊆ t) (hne : s ≠ t) : s.size < t.size := by
  rcases Nat.lt_or_ge s.size t.size with hlt | hge
  · exact hlt
  · have hp := (List.subperm_of_subset s.toList_nodup h).perm_of_length_le hge
    exact absurd (ext fun a => hp.mem_iff) hne

end OrderedSet

namespace OrderedMap

variable {κ α β : Type} [Ord κ]

private theorem get?_cons (e : κ × α) (l : List (κ × α))
    (h : (e :: l).Pairwise (fun a b => compare a.1 b.1 = .lt)) (k : κ) :
    (⟨e :: l, h⟩ : OrderedMap κ α).get? k =
      if compare k e.1 = .eq then some e.2 else
        (⟨l, (List.pairwise_cons.1 h).2⟩ : OrderedMap κ α).get? k := rfl

variable [Std.LawfulEqOrd κ]

/-- The entries of a map are what it finds. -/
theorem mem_entries_iff [Std.TransOrd κ] {m : OrderedMap κ α} {k : κ} {v : α} :
    (k, v) ∈ m.entries ↔ m.get? k = some v := by
  obtain ⟨l, h⟩ := m
  show (k, v) ∈ l ↔ _
  induction l with
  | nil => exact ⟨fun hm => absurd hm List.not_mem_nil, fun hm => by cases hm⟩
  | cons e l ih =>
    obtain ⟨he, hl⟩ := List.pairwise_cons.1 h
    rw [get?_cons, List.mem_cons]
    by_cases hk : k = e.1
    · have hnot : (k, v) ∉ l := fun hm => ne_of_compare_lt (he _ hm) hk.symm
      rw [if_pos (by simp [hk]), Option.some_inj]
      constructor
      · rintro (heq | hm)
        · rw [← heq]
        · exact absurd hm hnot
      · intro hv
        exact .inl (by rw [hk, ← hv])
    · rw [if_neg (by simp [hk]), ← ih hl]
      constructor
      · rintro (heq | hm)
        · exact absurd (congrArg Prod.fst heq) hk
        · exact hm
      · exact .inr

variable [Std.TransOrd κ]

theorem mem_keys_iff {m : OrderedMap κ α} {k : κ} :
    k ∈ m.keys ↔ ∃ v, m.get? k = some v := by
  constructor
  · intro h
    obtain ⟨⟨j, v⟩, hm, rfl⟩ := List.mem_map.1 h
    exact ⟨v, mem_entries_iff.1 hm⟩
  · rintro ⟨v, hv⟩
    exact List.mem_map.2 ⟨(k, v), mem_entries_iff.2 hv, rfl⟩

theorem mem_values_iff {m : OrderedMap κ α} {v : α} :
    v ∈ m.values ↔ ∃ k, m.get? k = some v := by
  constructor
  · intro h
    obtain ⟨⟨k, w⟩, hm, rfl⟩ := List.mem_map.1 h
    exact ⟨k, mem_entries_iff.1 hm⟩
  · rintro ⟨k, hk⟩
    exact List.mem_map.2 ⟨(k, v), mem_entries_iff.2 hk, rfl⟩

omit [Std.LawfulEqOrd κ] [Std.TransOrd κ] in
theorem keys_pairwise (m : OrderedMap κ α) : m.keys.Pairwise (fun a b => compare a b = .lt) :=
  List.pairwise_map.2 m.ascending

omit [Std.TransOrd κ] in
theorem keys_nodup (m : OrderedMap κ α) : m.keys.Nodup := m.keys_pairwise.imp ne_of_compare_lt

omit [Std.TransOrd κ] in
private theorem entries_nodup (m : OrderedMap κ α) : m.entries.Nodup :=
  m.ascending.imp fun h heq => ne_of_compare_lt h (congrArg Prod.fst heq)

/-- Maps with the same look-ups are equal. -/
theorem ext {m n : OrderedMap κ α} (h : ∀ k, m.get? k = n.get? k) : m = n := by
  have hperm : m.entries.Perm n.entries := by
    apply (List.perm_ext_iff_of_nodup m.entries_nodup n.entries_nodup).2
    rintro ⟨k, v⟩
    rw [mem_entries_iff, mem_entries_iff, h]
  have he : m.entries = n.entries := by
    apply hperm.eq_of_pairwise _ m.ascending n.ascending
    intro a b _ _ hab hba
    exact absurd rfl (ne_of_compare_lt (Std.TransCmp.lt_trans hab hba))
  cases m
  cases n
  cases he
  rfl

theorem get?_foldl_set [DecidableEq κ] (l : List β) (key : β → κ) (value : β → α)
    (m : OrderedMap κ α) (k : κ) {v : α} (hv : ∀ b ∈ l, key b = k → value b = v) :
    (l.foldl (fun m b => m.set (key b) (value b)) m).get? k =
      if k ∈ l.map key then some v else m.get? k := by
  induction l generalizing m with
  | nil => simp
  | cons b l ih =>
    rw [List.foldl_cons, ih _ (fun c hc => hv c (List.mem_cons_of_mem b hc)), get?_set]
    by_cases hb : k = key b
    · simp [hb, hv b List.mem_cons_self hb.symm]
    · simp [hb]

/-- The keys of the list, each with the one value listed for it. -/
theorem get?_ofList [DecidableEq κ] (l : List (κ × α)) (k : κ) {v : α}
    (hv : ∀ e ∈ l, e.1 = k → e.2 = v) :
    (ofList l).get? k = if k ∈ l.map Prod.fst then some v else none := by
  rw [ofList, get?_foldl_set l Prod.fst Prod.snd ∅ k hv, get?_empty]

theorem mem_of_get?_ofList [DecidableEq κ] {l : List (κ × α)} {k : κ} {v : α}
    (h : (ofList l).get? k = some v) : (k, v) ∈ l := by
  induction l using List.reverseRecOn with
  | nil => cases h
  | append_singleton l e ih =>
    rw [ofList, List.foldl_append, List.foldl_cons, List.foldl_nil, get?_set] at h
    split at h
    · rename_i hk
      cases h
      rw [hk]
      exact List.mem_append_right l (List.mem_singleton_self e)
    · exact List.mem_append_left _ (ih h)

theorem isEmpty_iff {m : OrderedMap κ α} : m.isEmpty = true ↔ ∀ k, m.get? k = none := by
  unfold isEmpty
  rw [List.isEmpty_iff]
  constructor
  · intro hempty k
    cases hk : m.get? k with
    | none => rfl
    | some v =>
      have hmem := mem_entries_iff.2 hk
      rw [hempty] at hmem
      exact absurd hmem List.not_mem_nil
  · intro h
    apply List.eq_nil_iff_forall_not_mem.2
    rintro ⟨k, v⟩ hmem
    have hget := mem_entries_iff.1 hmem
    rw [h k] at hget
    cases hget

omit [Std.LawfulEqOrd κ] [Std.TransOrd κ] in
/-- No key lies above the last one. -/
theorem getLast?_keys {m : OrderedMap κ α} {k last : κ} (hk : k ∈ m.keys)
    (hlast : m.keys.getLast? = some last) : k = last ∨ compare k last = .lt := by
  obtain ⟨init, heq⟩ := List.getLast?_eq_some_iff.1 hlast
  have hpair := m.keys_pairwise
  rw [heq] at hk hpair
  rcases List.mem_append.1 hk with hk | hk
  · exact .inr ((List.pairwise_append.1 hpair).2.2 k hk last (List.mem_singleton.2 rfl))
  · exact .inl (List.mem_singleton.1 hk)

end OrderedMap

end Dataflow
