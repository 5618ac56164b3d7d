import Dataflow.Json.Variant
import Dataflow.Proofs.Scalars
import Mathlib.Data.List.Forall2

/-! # Values read back

A reader reads a value back if it takes it from the front of any text that starts with the value,
whatever the style and the depth at which the value was written, and leaves what follows. Readers
of lists, records and variants read back what their parts do.
-/
namespace Dataflow.Json

variable {α β σ τ : Type}

namespace Reader

/-- The reader takes a value from the front of the text and leaves the rest. -/
def Takes (r : Reader α) (fuel : Nat) (text : List Char) (a : α) (rest : List Char) : Prop :=
  r fuel text = .ok (a, rest)

variable {fuel : Nat} {text rest tail : List Char}

theorem Takes.bind {r : Reader α} {f : α → Reader β} {a : α} {b : β}
    (hr : r.Takes fuel text a rest) (hf : (f a).Takes fuel rest b tail) :
    (r >>= f).Takes fuel text b tail := bind_eq_ok.2 ⟨_, hr, hf⟩

theorem takes_pure (a : α) : (pure a : Reader α).Takes fuel text a text := rfl

theorem takes_fuel : Reader.fuel.Takes fuel text fuel text := rfl

theorem takes_advance (c : Char) : advance.Takes fuel (c :: rest) () rest := rfl

/-- The text has nothing but blanks. -/
def Blank (text : List Char) : Prop := ∀ c ∈ text, isBlank c = true

theorem blank_nil : Blank [] := fun _ h => absurd h List.not_mem_nil

theorem blank_gap (style : Style) (depth : Nat) : Blank (style.gap depth) := by
  intro c hc
  cases style with
  | compact => exact absurd hc List.not_mem_nil
  | pretty =>
    rcases List.mem_cons.1 hc with rfl | hc
    · rfl
    · rw [List.eq_of_mem_replicate hc]
      rfl

/-- Before a closing bracket there are blanks at most. -/
theorem blank_closing (first : Bool) (style : Style) (depth : Nat) :
    Blank (if first then [] else style.gap depth) := by
  cases first with
  | true => exact blank_nil
  | false => exact blank_gap style depth

theorem takes_token {blanks : List Char} (hb : Blank blanks) {c : Char} (hc : isBlank c = false) :
    token.Takes fuel (blanks ++ c :: rest) (some c) (c :: rest) := by
  have hdrop : (blanks ++ c :: rest).dropWhile isBlank = c :: rest := by
    rw [List.dropWhile_append_of_pos hb, List.dropWhile_cons, hc]
    rfl
  show Except.ok (((blanks ++ c :: rest).dropWhile isBlank).head?, _) = _
  rw [hdrop]
  rfl

theorem takes_start {blanks : List Char} (hb : Blank blanks) {c : Char} (hc : isBlank c = false) :
    start.Takes fuel (blanks ++ c :: rest) c (c :: rest) :=
  (takes_token hb hc).bind (takes_pure c)

theorem takes_quoted {s : String} (h : (writeText s).length ≤ fuel) :
    quoted.Takes fuel (writeText s ++ rest) s rest := by
  have hbody : (s.toList.flatMap escapeChar).length < fuel := by
    rw [writeText, List.cons_append, List.length_cons, List.length_append] at h
    omega
  have htext : writeText s ++ rest = '"' :: (s.toList.flatMap escapeChar ++ '"' :: rest) := by
    simp [writeText]
  rw [htext]
  refine (takes_advance '"').bind (takes_fuel.bind ?_)
  refine Takes.bind (textBody_escaped hbody rest) ?_
  rw [String.ofList_toList]
  exact takes_pure s

theorem takes_colon (fuel : Nat) (style : Style) (text : List Char) : ∃ blanks, Blank blanks ∧
    colon.Takes fuel (style.colon ++ text) () (blanks ++ text) := by
  cases style with
  | compact => exact ⟨[], blank_nil, (takes_token blank_nil rfl).bind (takes_advance ':')⟩
  | pretty =>
    refine ⟨[' '], fun c hc => ?_, (takes_token blank_nil rfl).bind (takes_advance ':')⟩
    rw [List.mem_singleton.1 hc]
    rfl

end Reader

open Reader

/-- The reader takes the value from any text that starts with it. -/
def Reads (r : Reader α) (j : Json) (a : α) : Prop :=
  ∀ (style : Style) (depth : Nat) {fuel : Nat} {blanks rest : List Char}, Blank blanks →
    Ends rest → (j.write style depth).length ≤ fuel →
      r.Takes fuel (blanks ++ (j.write style depth ++ rest)) a rest

theorem Reads.map {r : Reader α} {j : Json} {a : α} (h : Reads r j a) (f : α → β) :
    Reads (do return f (← r)) j (f a) :=
  fun style depth _ _ _ hb he hf => (h style depth hb he hf).bind (takes_pure _)

/-- Written in full, the value is read from its own text, with blanks or without. -/
theorem Reads.run {r : Reader α} {j : Json} {a : α} (h : Reads r j a) :
    r.run j.compact = .ok a ∧ r.run j.pretty = .ok a := by
  have hstyle : ∀ style, r.run (String.ofList (j.write style 0)) = .ok a := by
    intro style
    have htakes : r.Takes ((j.write style 0).length + 1) ([] ++ (j.write style 0 ++ [])) a [] :=
      h style 0 blank_nil trivial (Nat.le_succ _)
    unfold Reader.run
    rw [String.toList_ofList]
    refine bind_eq_ok.2 ⟨(a, []), ?_, rfl⟩
    rw [← htakes, List.append_nil]
    rfl
  exact ⟨hstyle .compact, hstyle .pretty⟩

section Scalars

theorem reads_text (s : String) : Reads Reader.text (.text s) s := by
  intro style depth fuel blanks rest hb _ hf
  refine (takes_start hb (c := '"') rfl).bind ?_
  exact takes_quoted hf

/-- The first character of a number. -/
def startsNumber (c : Char) : Bool := c = '-' || isDigit c

theorem exists_writeNumber_eq (n : Int) :
    ∃ c cs, writeNumber n = c :: cs ∧ startsNumber c = true := by
  cases n with
  | ofNat n =>
    obtain ⟨c, cs, hcs⟩ := List.exists_cons_of_ne_nil (Nat.toDigits_ne_nil (n := n) (b := 10))
    have hc : isDigit c = true := isDigit_of_mem_toDigits (hcs ▸ List.mem_cons_self)
    exact ⟨c, cs, hcs, by rw [startsNumber, hc, Bool.or_true]⟩
  | negSucc n => exact ⟨'-', _, rfl, rfl⟩

theorem isBlank_of_startsNumber {c : Char} (h : startsNumber c = true) : isBlank c = false := by
  rw [Bool.eq_false_iff]
  intro hblank
  simp only [isBlank, Bool.or_eq_true, decide_eq_true_eq] at hblank
  rcases hblank with ((rfl | rfl) | rfl) | rfl <;> exact absurd h (by decide)

/-- A value starts with a character that is neither blank nor the end of a list, and only `null`
starts as `null` does. -/
theorem exists_write_eq (style : Style) (depth : Nat) (j : Json) :
    ∃ c cs, j.write style depth = c :: cs ∧ isBlank c = false ∧ c ≠ ']' ∧ (c = 'n' → j = null) := by
  cases j with
  | null => exact ⟨'n', _, rfl, rfl, by decide, fun _ => rfl⟩
  | text s => exact ⟨'"', _, rfl, rfl, by decide, fun h => absurd h (by decide)⟩
  | list items => exact ⟨'[', _, rfl, rfl, by decide, fun h => absurd h (by decide)⟩
  | object fields => exact ⟨'{', _, rfl, rfl, by decide, fun h => absurd h (by decide)⟩
  | number n =>
    obtain ⟨c, cs, hcs, hc⟩ := exists_writeNumber_eq n
    refine ⟨c, cs, hcs, isBlank_of_startsNumber hc, ?_, ?_⟩
    · rintro rfl
      exact absurd hc (by decide)
    · rintro rfl
      exact absurd hc (by decide)

theorem takes_number_natural {n fuel : Nat} (hn : n < UInt64.size) {rest : List Char}
    (h : Ends rest) :
    Reader.number.Takes fuel (writeNumber (.ofNat n) ++ rest) (.natural n) rest := by
  have hread := readNumber_natural hn h
  obtain ⟨c, cs, hcs⟩ := List.exists_cons_of_ne_nil (Nat.toDigits_ne_nil (n := n) (b := 10))
  have hdigit : isDigit c = true := isDigit_of_mem_toDigits (hcs ▸ List.mem_cons_self)
  have hwritten : writeNumber (.ofNat n) = c :: cs := hcs
  rw [hcs, List.cons_append] at hread
  rw [hwritten, List.cons_append]
  unfold Takes Reader.number ofRest
  beta_reduce
  split
  · rename_i heq
    rw [(List.cons.inj heq).1] at hdigit
    exact absurd hdigit (by decide)
  · exact hread

theorem takes_number_negative {n fuel : Nat} (hn : n + 1 ≤ signedLimit) {rest : List Char}
    (h : Ends rest) :
    Reader.number.Takes fuel (writeNumber (.negSucc n) ++ rest) (.negative (n + 1)) rest :=
  readNumber_negative (Nat.succ_ne_zero n) hn h

theorem reads_integer {wanted : String} {convert : Number → Option α} {n : Int} {x : Number}
    {a : α} (hconvert : convert x = some a)
    (hx : ∀ {fuel : Nat} {rest : List Char}, Ends rest →
      Reader.number.Takes fuel (writeNumber n ++ rest) x rest) :
    Reads (integer wanted convert) (.number n) a := by
  intro style depth fuel blanks rest hb he _
  obtain ⟨c, cs, hcs, hc⟩ := exists_writeNumber_eq n
  have hstart : start.Takes fuel (blanks ++ (writeNumber n ++ rest)) c (writeNumber n ++ rest) := by
    rw [hcs]
    exact takes_start hb (isBlank_of_startsNumber hc)
  refine hstart.bind ?_
  rw [if_pos (show (decide (c = '-') || isDigit c) = true from hc)]
  refine (hx he).bind ?_
  rw [hconvert]
  cases x <;> exact takes_pure a

theorem reads_unsigned (n : UInt64) : Reads unsigned (.number n.toNat) n := by
  have hsize : n.toNat < UInt64.size := n.toNat_lt
  refine reads_integer (x := .natural n.toNat) ?_ fun he => takes_number_natural hsize he
  show (if n.toNat < UInt64.size then some (UInt64.ofNat n.toNat) else none) = some n
  rw [if_pos hsize, UInt64.ofNat_toNat]

theorem reads_signed (n : Int64) : Reads signed (.number n.toInt) n := by
  have hback := Int64.ofInt_toInt n
  have hlow := n.le_toInt
  have hhigh := n.toInt_lt
  cases hn : n.toInt with
  | ofNat k =>
    rw [hn] at hback hhigh
    have hk : k < signedLimit := Int.ofNat_lt.1 hhigh
    refine reads_integer (x := .natural k) ?_ fun he =>
      takes_number_natural (Nat.lt_trans hk (by decide)) he
    show (if k < signedLimit then some (Int64.ofNat k) else none) = some n
    rw [if_pos hk, ← Int64.ofInt_eq_ofNat]
    exact congrArg some hback
  | negSucc k =>
    rw [hn] at hback hlow
    have hk : k + 1 ≤ signedLimit := by
      unfold signedLimit
      omega
    refine reads_integer (x := .negative (k + 1)) ?_ fun he => takes_number_negative hk he
    show (if k + 1 ≤ signedLimit then some (Int64.ofInt (-(k + 1 : Nat))) else none) = some n
    rw [if_pos hk]
    exact congrArg some hback

end Scalars

/-- An absent value is written as `null`, and no other value is. -/
theorem reads_none (r : Reader α) : Reads (optional r) .null none := by
  intro style depth fuel blanks rest hb _ _
  have hword : (keyword "null").Takes fuel (Json.null.write style depth ++ rest) () rest := rfl
  exact (takes_token hb (c := 'n') rfl).bind (hword.bind (takes_pure none))

theorem Reads.present {r : Reader α} {j : Json} {a : α} (h : Reads r j a) (hj : j ≠ .null) :
    Reads (optional r) j (some a) := by
  intro style depth fuel blanks rest hb he hf
  obtain ⟨c, cs, hcs, hc, _, hnull⟩ := exists_write_eq style depth j
  have htoken : token.Takes fuel (blanks ++ (j.write style depth ++ rest)) (.some c)
      (j.write style depth ++ rest) := by
    rw [hcs]
    exact takes_token hb hc
  refine htoken.bind ?_
  split
  · rename_i heq
    exact absurd (hnull (Option.some.inj heq)) hj
  · exact (h style depth blank_nil he hf).bind (takes_pure _)

section Lists

variable {fuel : Nat} {blanks rest : List Char}

theorem takes_hasItem (first : Bool) (hb : Blank blanks) {c : Char} (hc : isBlank c = false)
    (hne : c ≠ ']') : (hasItem first).Takes fuel
      ((if first then [] else [',']) ++ (blanks ++ c :: rest)) true (c :: rest) := by
  cases first with
  | true =>
    refine (takes_token hb hc).bind ?_
    split
    · rename_i heq
      cases heq
    · rename_i heq
      exact absurd (Option.some.inj heq) hne
    · exact takes_pure true
  | false =>
    refine (takes_token blank_nil (c := ',') rfl).bind ((takes_advance ',').bind
      ((takes_token hb hc).bind ?_))
    split
    · rename_i heq
      cases heq
    · rename_i heq
      exact absurd (Option.some.inj heq) hne
    · exact takes_pure true

theorem takes_hasItem_end (first : Bool) (hb : Blank blanks) :
    (hasItem first).Takes fuel (blanks ++ ']' :: rest) false (']' :: rest) :=
  (takes_token hb rfl).bind (takes_pure false)

theorem takes_endList : endList.Takes fuel (']' :: rest) () rest :=
  (takes_token blank_nil rfl).bind (takes_advance ']')

theorem ends_writeItems (style : Style) (depth : Nat) (js : List Json) (rest : List Char) :
    Ends (writeItems style depth false js ++ rest) := by
  cases js with
  | nil => cases style <;> rfl
  | cons j js => cases style <;> rfl

theorem length_writeItems (style : Style) (depth : Nat) (first : Bool) (js : List Json) :
    js.length < (writeItems style depth first js).length ∧
      ∀ j ∈ js, (j.write style (depth + 1)).length ≤ (writeItems style depth first js).length := by
  induction js generalizing first with
  | nil =>
    rw [writeItems, List.length_append]
    exact ⟨Nat.lt_add_left _ (Nat.succ_pos 0), fun j hj => absurd hj List.not_mem_nil⟩
  | cons j js ih =>
    obtain ⟨hcount, hall⟩ := ih false
    obtain ⟨c, cs, hcs, _⟩ := exists_write_eq style (depth + 1) j
    have hpos : 0 < (j.write style (depth + 1)).length := by rw [hcs]; exact Nat.succ_pos _
    simp only [writeItems, List.length_append, List.length_cons, List.forall_mem_cons]
    refine ⟨by omega, by omega, fun k hk => ?_⟩
    have hle := hall k hk
    omega

theorem takes_items {r : Reader α} {js : List Json} {as : List α}
    (h : List.Forall₂ (Reads r) js as) (style : Style) (depth : Nat)
    (hf : ∀ j ∈ js, (j.write style (depth + 1)).length ≤ fuel) {count : Nat}
    (hcount : js.length < count) (first : Bool) :
    (items r count first).Takes fuel (writeItems style depth first js ++ rest) as
      (']' :: rest) := by
  induction h generalizing count first with
  | nil =>
    obtain ⟨count, rfl⟩ := Nat.exists_eq_succ_of_ne_zero (Nat.ne_of_gt hcount)
    rw [writeItems, List.append_assoc]
    exact (takes_hasItem_end first (blank_closing first style depth)).bind (takes_pure [])
  | @cons j a js as hj _ ih =>
    obtain ⟨count, rfl⟩ := Nat.exists_eq_succ_of_ne_zero (Nat.ne_of_gt (Nat.zero_lt_of_lt hcount))
    obtain ⟨hfirst, hothers⟩ := List.forall_mem_cons.1 hf
    obtain ⟨c, cs, hcs, hc, hne, _⟩ := exists_write_eq style (depth + 1) j
    have hitem : (hasItem first).Takes fuel (writeItems style depth first (j :: js) ++ rest) true
        (j.write style (depth + 1) ++ (writeItems style depth false js ++ rest)) := by
      simp only [writeItems, List.append_assoc]
      rw [hcs]
      exact takes_hasItem first (blank_gap style (depth + 1)) hc hne
    have hread : r.Takes fuel ([] ++ _) a _ :=
      hj style (depth + 1) blank_nil (ends_writeItems style depth js rest) hfirst
    have hrest := ih hothers (Nat.lt_of_succ_lt_succ hcount) false
    exact hitem.bind (hread.bind (hrest.bind (takes_pure (a :: as))))

theorem reads_list {r : Reader α} {js : List Json} {as : List α}
    (h : List.Forall₂ (Reads r) js as) : Reads (Reader.list r) (.list js) as := by
  intro style depth fuel blanks rest hb _ hf
  have hwritten : (Json.list js).write style depth = '[' :: writeItems style depth true js := by
    rw [write]
  rw [hwritten, List.length_cons] at hf
  obtain ⟨hcount, hall⟩ := length_writeItems style depth true js
  have hitems : (items r fuel true).Takes fuel (writeItems style depth true js ++ rest) as
      (']' :: rest) := takes_items h style depth (fun j hj => by have := hall j hj; omega)
        (by omega) true
  rw [hwritten]
  exact (takes_start hb (c := '[') rfl).bind ((takes_advance '[').bind
    (takes_fuel.bind (hitems.bind (takes_endList.bind (takes_pure as)))))

end Lists

section Records

variable {fuel : Nat} {blanks rest : List Char}

theorem takes_hasKey (first : Bool) (hb : Blank blanks) : (hasKey first).Takes fuel
    ((if first then [] else [',']) ++ (blanks ++ '"' :: rest)) true ('"' :: rest) := by
  cases first with
  | true => exact (takes_token hb (c := '"') rfl).bind (takes_pure true)
  | false =>
    exact (takes_token blank_nil (c := ',') rfl).bind ((takes_advance ',').bind
      ((takes_token hb (c := '"') rfl).bind (takes_pure true)))

theorem takes_hasKey_end (first : Bool) (hb : Blank blanks) :
    (hasKey first).Takes fuel (blanks ++ '}' :: rest) false ('}' :: rest) :=
  (takes_token hb rfl).bind (takes_pure false)

theorem takes_endObject : endObject.Takes fuel ('}' :: rest) () rest :=
  (takes_token blank_nil rfl).bind (takes_advance '}')

theorem ends_writeFields (style : Style) (depth : Nat) (fields : List (String × Json))
    (rest : List Char) : Ends (writeFields style depth false fields ++ rest) := by
  cases fields with
  | nil => cases style <;> rfl
  | cons field fields => cases style <;> rfl

theorem length_writeFields (style : Style) (depth : Nat) (first : Bool)
    (fields : List (String × Json)) :
    fields.length < (writeFields style depth first fields).length ∧ ∀ field ∈ fields,
      (writeText field.1).length ≤ (writeFields style depth first fields).length ∧
      (field.2.write style (depth + 1)).length ≤ (writeFields style depth first fields).length := by
  induction fields generalizing first with
  | nil =>
    rw [writeFields, List.length_append]
    exact ⟨Nat.lt_add_left _ (Nat.succ_pos 0), fun field h => absurd h List.not_mem_nil⟩
  | cons field fields ih =>
    obtain ⟨hcount, hall⟩ := ih false
    have hpos : 0 < (writeText field.1).length := Nat.succ_pos _
    simp only [writeFields, List.length_append, List.length_cons, List.forall_mem_cons]
    refine ⟨by omega, ⟨by omega, by omega⟩, fun other hother => ?_⟩
    obtain ⟨hkey, hvalue⟩ := hall other hother
    exact ⟨by omega, by omega⟩

/-- The reader takes the value from any text in which it stands behind a colon. -/
def ReadsField (r : Reader α) (j : Json) (a : α) : Prop :=
  ∀ (style : Style) (depth : Nat) {fuel : Nat} {rest : List Char}, Ends rest →
    (j.write style depth).length ≤ fuel →
      r.Takes fuel (style.colon ++ (j.write style depth ++ rest)) a rest

namespace Field

@[simp] theorem required_name (name : String) (r : Reader α) : (required name r).name = name := rfl

@[simp] theorem nullable_name (name : String) (r : Reader α) : (nullable name r).name = name := rfl

@[simp] theorem withDefault_name (name : String) (r : Reader α) (a : α) :
    (withDefault name r a).name = name := rfl

end Field

namespace Bundle

@[simp] theorem take?_ofField_eq_none {f : Field α} {key : String} :
    (ofField f).take? key = none ↔ key ≠ f.name := by
  simp [ofField]

@[simp] theorem take?_and_eq_none {a : Bundle σ α} {b : Bundle τ β} {key : String} :
    (a.and b).take? key = none ↔ a.take? key = none ∧ b.take? key = none := by
  cases h : a.take? key with
  | none => simp [Bundle.and, h]
  | some take => simp [Bundle.and, h]

/-- The fields, taken in one after the other, lead from a draft to another. -/
inductive Fills (b : Bundle σ α) : List (String × Json) → σ → σ → Prop
  | nil (s : σ) : Fills b [] s s
  | cons {key : String} {j : Json} {fields : List (String × Json)} {take : σ → Reader σ}
      {s t u : σ} : b.take? key = some take → ReadsField (take s) j t → Fills b fields t u →
      Fills b ((key, j) :: fields) s u

theorem Fills.takes {b : Bundle σ α} {fields : List (String × Json)} {s t : σ}
    (h : b.Fills fields s t) (style : Style) (depth : Nat)
    (hf : ∀ field ∈ fields, (writeText field.1).length ≤ fuel ∧
      (field.2.write style (depth + 1)).length ≤ fuel)
    {count : Nat} (hcount : fields.length < count) (first : Bool) :
    (b.fields count first s).Takes fuel (writeFields style depth first fields ++ rest) t
      ('}' :: rest) := by
  induction h generalizing count first with
  | nil s =>
    obtain ⟨count, rfl⟩ := Nat.exists_eq_succ_of_ne_zero (Nat.ne_of_gt hcount)
    rw [writeFields, List.append_assoc]
    exact (takes_hasKey_end first (blank_closing first style depth)).bind (takes_pure s)
  | @cons key j fields take s t u htake hread _ ih =>
    obtain ⟨count, rfl⟩ := Nat.exists_eq_succ_of_ne_zero (Nat.ne_of_gt (Nat.zero_lt_of_lt hcount))
    obtain ⟨⟨hkey, hvalue⟩, hothers⟩ := List.forall_mem_cons.1 hf
    have hhas : (hasKey first).Takes fuel
        (writeFields style depth first ((key, j) :: fields) ++ rest) true
        (writeText key ++ (style.colon ++ (j.write style (depth + 1) ++
          (writeFields style depth false fields ++ rest)))) := by
      simp only [writeFields, List.append_assoc]
      exact takes_hasKey first (blank_gap style (depth + 1))
    have htaken := hread style (depth + 1) (ends_writeFields style depth fields rest) hvalue
    have hrest := ih hothers (Nat.lt_of_succ_lt_succ hcount) false
    refine hhas.bind ((takes_quoted hkey).bind ?_)
    rw [htake]
    exact htaken.bind hrest

theorem Fills.append {b : Bundle σ α} {fields others : List (String × Json)} {s t u : σ}
    (h : b.Fills fields s t) (h' : b.Fills others t u) : b.Fills (fields ++ others) s u := by
  induction h with
  | nil => exact h'
  | cons htake hread _ ih => exact .cons htake hread (ih h')

theorem take?_and_left {a : Bundle σ α} {key : String} {take : σ → Reader σ}
    (h : a.take? key = some take) (b : Bundle τ β) :
    (a.and b).take? key = some fun draft => do return (← take draft.1, draft.2) := by
  simp only [Bundle.and, h]

theorem take?_and_right {a : Bundle σ α} {b : Bundle τ β} {key : String} {take : τ → Reader τ}
    (h : a.take? key = none) (h' : b.take? key = some take) :
    (a.and b).take? key = some fun draft => do return (draft.1, ← take draft.2) := by
  simp only [Bundle.and, h, h', Option.map_some]

theorem Fills.left {a : Bundle σ α} {fields : List (String × Json)} {s t : σ}
    (h : a.Fills fields s t) (b : Bundle τ β) (u : τ) : (a.and b).Fills fields (s, u) (t, u) := by
  induction h with
  | nil s => exact .nil _
  | cons htake hread _ ih =>
    exact .cons (take?_and_left htake b)
      (fun style depth _ _ he hf => (hread style depth he hf).bind (takes_pure _)) ih

theorem Fills.right {b : Bundle τ β} {fields : List (String × Json)} {s t : τ}
    (h : b.Fills fields s t) {a : Bundle σ α} (hnew : ∀ field ∈ fields, a.take? field.1 = none)
    (u : σ) : (a.and b).Fills fields (u, s) (u, t) := by
  induction h with
  | nil s => exact .nil _
  | cons htake hread _ ih =>
    obtain ⟨hfirst, hothers⟩ := List.forall_mem_cons.1 hnew
    exact .cons (take?_and_right hfirst htake)
      (fun style depth _ _ he hf => (hread style depth he hf).bind (takes_pure _)) (ih hothers)

theorem Fills.map {a : Bundle σ α} {fields : List (String × Json)} {s t : σ}
    (h : a.Fills fields s t) (f : α → β) : (a.map f).Fills fields s t := by
  induction h with
  | nil s => exact .nil s
  | cons htake hread _ ih => exact .cons htake hread ih

/-- The fields make up the value. -/
def Holds (b : Bundle σ α) (fields : List (String × Json)) (a : α) : Prop :=
  ∃ s, b.Fills fields b.blank s ∧ b.finish s = .ok a

theorem holds_ofField (f : Field α) {j : Json} {a : α} (h : Reads f.read j a) :
    (ofField f).Holds [(f.name, j)] a := by
  refine ⟨some a, .cons (if_pos rfl) (fun style depth fuel rest he hf => ?_) (.nil _), rfl⟩
  obtain ⟨blanks, hb, hcolon⟩ := takes_colon fuel style (j.write style depth ++ rest)
  exact hcolon.bind ((h style depth hb he hf).bind (takes_pure (some a)))

theorem Holds.and {a : Bundle σ α} {b : Bundle τ β} {fields others : List (String × Json)} {x : α}
    {y : β} (ha : a.Holds fields x) (hb : b.Holds others y)
    (hnew : ∀ field ∈ others, a.take? field.1 = none) :
    (a.and b).Holds (fields ++ others) (x, y) := by
  obtain ⟨s, hs, hx⟩ := ha
  obtain ⟨t, ht, hy⟩ := hb
  exact ⟨(s, t), (hs.left b b.blank).append (ht.right hnew s),
    bind_eq_ok.2 ⟨x, hx, bind_eq_ok.2 ⟨y, hy, rfl⟩⟩⟩

theorem Holds.map {a : Bundle σ α} {fields : List (String × Json)} {x : α} (h : a.Holds fields x)
    (f : α → β) : (a.map f).Holds fields (f x) := by
  obtain ⟨s, hs, hx⟩ := h
  exact ⟨s, hs.map f, bind_eq_ok.2 ⟨x, hx, rfl⟩⟩

/-- An object is read back if its fields make up a value. -/
theorem Holds.reads {b : Bundle σ α} {fields : List (String × Json)} {a : α}
    (h : b.Holds fields a) (label : String) : Reads (b.read label) (.object fields) a := by
  intro style depth fuel blanks rest hb _ hf
  obtain ⟨s, hs, hfinish⟩ := h
  have hwritten : (Json.object fields).write style depth =
      '{' :: writeFields style depth true fields := by
    rw [write]
  rw [hwritten, List.length_cons] at hf
  obtain ⟨hcount, hall⟩ := length_writeFields style depth true fields
  have hfields : (b.fields fuel true b.blank).Takes fuel
      (writeFields style depth true fields ++ rest) s ('}' :: rest) := by
    refine hs.takes style depth (fun field hfield => ?_) (by omega) true
    obtain ⟨hkey, hvalue⟩ := hall field hfield
    exact ⟨by omega, by omega⟩
  rw [hwritten]
  refine (takes_start hb (c := '{') rfl).bind ((takes_advance '{').bind
    (takes_fuel.bind (hfields.bind ?_)))
  rw [hfinish]
  exact takes_endObject.bind (takes_pure a)

end Bundle

end Records

namespace Variant

variable {variants : List (Variant α)} {name : String}

theorem reads_bare {value : α}
    (h : variants.find? (fun v => v.name == name) = some ⟨name, .bare value⟩) :
    Reads (Variant.read variants) (.text name) value := by
  intro style depth fuel blanks rest hb _ hf
  have hnamed : (named variants name).Takes fuel rest (.bare value) rest := by
    unfold named
    rw [h]
    exact takes_pure _
  exact (takes_start hb (c := '"') rfl).bind ((takes_quoted hf).bind
    (hnamed.bind (takes_pure value)))

theorem reads_content {content : Content α} {j : Json} {a : α}
    (h : variants.find? (fun v => v.name == name) = some ⟨name, content⟩)
    (hread : Reads (inside content) j a) :
    Reads (Variant.read variants) (.object [(name, j)]) a := by
  intro style depth fuel blanks rest hb _ hf
  have hwritten : (Json.object [(name, j)]).write style depth ++ rest =
      '{' :: (style.gap (depth + 1) ++ (writeText name ++ (style.colon ++
        (j.write style (depth + 1) ++ (style.gap depth ++ '}' :: rest))))) := by
    simp [write, writeFields]
  have hlength : (writeText name).length ≤ fuel ∧ (j.write style (depth + 1)).length ≤ fuel := by
    rw [write, List.length_cons] at hf
    obtain ⟨_, hall⟩ := length_writeFields style depth true [(name, j)]
    obtain ⟨hname, hvalue⟩ := hall _ List.mem_cons_self
    exact ⟨Nat.le_trans hname (Nat.le_of_succ_le hf), Nat.le_trans hvalue (Nat.le_of_succ_le hf)⟩
  have hnamed : ∀ {text}, (named variants name).Takes fuel text content text := by
    intro text
    unfold named
    rw [h]
    exact takes_pure content
  have hends : Ends (style.gap depth ++ '}' :: rest) := by cases style <;> rfl
  obtain ⟨between, hbetween, hcolon⟩ := takes_colon fuel style
    (j.write style (depth + 1) ++ (style.gap depth ++ '}' :: rest))
  rw [hwritten]
  refine (takes_start hb (c := '{') rfl).bind ((takes_advance '{').bind ?_)
  refine (takes_start (blank_gap style (depth + 1)) (c := '"') rfl).bind ?_
  exact (takes_quoted hlength.1).bind (hnamed.bind (hcolon.bind
    ((hread style (depth + 1) hbetween hends hlength.2).bind ((takes_token (blank_gap style depth)
      (c := '}') rfl).bind ((takes_advance '}').bind (takes_pure a))))))

end Variant

end Dataflow.Json
