import Dataflow.Json.Scalar
import Dataflow.Proofs.Runs

/-! # Texts and numbers read back

Between its quotes every text can be read again, whatever characters it has, and so can every
number that fits 64 bits, as long as what follows is not taken for a part of it.
-/
namespace Dataflow.Json

section Texts

theorem hexValue?_hexDigit (n : Nat) : hexValue? (hexDigit n) = some (n % 16) := by
  have hall : ∀ k < 16, hexValue? (Nat.digitChar k) = some k := by decide
  exact hall _ (Nat.mod_lt n (by decide))

theorem hexQuad_hexDigit (a b c d : Nat) (rest : List Char) :
    hexQuad (hexDigit a :: hexDigit b :: hexDigit c :: hexDigit d :: rest) =
      .ok (((a % 16 * 16 + b % 16) * 16 + c % 16) * 16 + d % 16, rest) := by
  have hsize : ∀ x : Char, 1 ≤ x.utf8Size := Char.utf8Size_pos
  have hlong : ¬ byteCount [hexDigit a, hexDigit b, hexDigit c, hexDigit d] < 4 := by
    have ha := hsize (hexDigit a)
    have hb := hsize (hexDigit b)
    have hc := hsize (hexDigit c)
    have hd := hsize (hexDigit d)
    simp only [byteCount, List.foldl_cons, List.foldl_nil]
    omega
  unfold hexQuad
  simp only [List.take_succ_cons, List.take_zero, if_neg hlong, hexValue?_hexDigit]

/-- A control is read back from its number. -/
theorem escaped_control {c : Char} (hc : c.toNat < 0x20) (rest : List Char) :
    escaped ('u' :: '0' :: '0' :: hexDigit (c.toNat / 16) :: hexDigit c.toNat :: rest) =
      .ok (c, rest) := by
  have hquad := hexQuad_hexDigit 0 0 (c.toNat / 16) c.toNat rest
  have hvalue : ((0 % 16 * 16 + 0 % 16) * 16 + c.toNat / 16 % 16) * 16 + c.toNat % 16 =
      c.toNat := by
    omega
  rw [hvalue] at hquad
  have htrailing : isTrailing c.toNat = false := by
    simp only [isTrailing, Bool.and_eq_false_iff, decide_eq_false_iff_not]
    omega
  have hleading : isLeading c.toNat = false := by
    simp only [isLeading, Bool.and_eq_false_iff, decide_eq_false_iff_not]
    omega
  show numbered ('0' :: '0' :: _) = _
  refine (congrArg (· >>= _) hquad).trans ?_
  show (if isTrailing c.toNat = true then _ else if isLeading c.toNat = true then _ else _) = _
  rw [htrailing, hleading]
  show Except.ok (Char.ofNat c.toNat, rest) = _
  rw [Char.ofNat_toNat]

/-- A character is written as an escape that gives it back, or as itself if nothing but itself
can be read there. -/
theorem escapeChar_cases (c : Char) :
    (∃ e, escapeChar c = '\\' :: e ∧ ∀ rest, escaped (e ++ rest) = .ok (c, rest)) ∨
      (escapeChar c = [c] ∧ c ≠ '"' ∧ c ≠ '\\' ∧ ¬ c.toNat < 0x20) := by
  unfold escapeChar
  by_cases hquote : c = '"'
  · exact .inl ⟨['"'], if_pos hquote, fun rest => by rw [hquote]; rfl⟩
  by_cases hslash : c = '\\'
  · rw [if_neg hquote, if_pos hslash]
    exact .inl ⟨['\\'], rfl, fun rest => by rw [hslash]; rfl⟩
  rw [if_neg hquote, if_neg hslash]
  split
  · rename_i h
    exact .inl ⟨['b'], rfl, fun rest => by rw [h]; rfl⟩
  split
  · rename_i h
    exact .inl ⟨['f'], rfl, fun rest => by rw [h]; rfl⟩
  split
  · rename_i h
    exact .inl ⟨['n'], rfl, fun rest => by rw [h]; rfl⟩
  split
  · rename_i h
    exact .inl ⟨['r'], rfl, fun rest => by rw [h]; rfl⟩
  split
  · rename_i h
    exact .inl ⟨['t'], rfl, fun rest => by rw [h]; rfl⟩
  split
  · rename_i h
    exact .inl ⟨_, rfl, escaped_control h⟩
  · rename_i h
    exact .inr ⟨rfl, hquote, hslash, h⟩

theorem textBody_escapeChar {fuel : Nat} {rest cs tail : List Char} (c : Char)
    (h : textBody fuel rest = .ok (cs, tail)) :
    textBody (fuel + 1) (escapeChar c ++ rest) = .ok (c :: cs, tail) := by
  rcases escapeChar_cases c with ⟨e, he, hback⟩ | ⟨hplain, hquote, hslash, hcontrol⟩
  · rw [he, List.cons_append, textBody, if_neg (by decide), if_pos rfl]
    exact bind_eq_ok.2 ⟨_, hback rest, bind_eq_ok.2 ⟨_, h, rfl⟩⟩
  · rw [hplain, List.singleton_append, textBody, if_neg hquote, if_neg hslash, if_neg hcontrol]
    exact bind_eq_ok.2 ⟨_, h, rfl⟩

theorem textBody_escaped {fuel : Nat} {cs : List Char}
    (h : (cs.flatMap escapeChar).length < fuel) (rest : List Char) :
    textBody fuel (cs.flatMap escapeChar ++ '"' :: rest) = .ok (cs, rest) := by
  induction cs generalizing fuel with
  | nil =>
    obtain ⟨fuel, rfl⟩ := Nat.exists_eq_add_of_lt h
    rfl
  | cons c cs ih =>
    have hpos : 0 < (escapeChar c).length := by
      rcases escapeChar_cases c with ⟨e, he, _⟩ | ⟨hplain, _⟩
      · rw [he]
        exact Nat.succ_pos _
      · rw [hplain]
        exact Nat.succ_pos _
    rw [List.flatMap_cons, List.length_append] at h
    obtain ⟨fuel, rfl⟩ : ∃ k, fuel = k + 1 := ⟨fuel - 1, by omega⟩
    rw [List.flatMap_cons, List.append_assoc]
    exact textBody_escapeChar c (ih (by omega))

end Texts

section Numbers

/-- No number goes on into this text. -/
def Ends : List Char → Prop
  | [] => True
  | c :: _ => (isDigit c || c = '.' || isExponentMark c) = false

theorem Ends.isDigit_eq {c : Char} {rest : List Char} (h : Ends (c :: rest)) :
    isDigit c = false := (Bool.or_eq_false_iff.1 (Bool.or_eq_false_iff.1 h).1).1

theorem Ends.startsFloat_eq {rest : List Char} (h : Ends rest) : startsFloat rest = false := by
  cases rest with
  | nil => rfl
  | cons c rest =>
    obtain ⟨hleft, hmark⟩ := Bool.or_eq_false_iff.1 h
    exact Bool.or_eq_false_iff.2 ⟨(Bool.or_eq_false_iff.1 hleft).2, hmark⟩

/-- Digits are parted from what follows. -/
theorem Ends.span_digits {rest : List Char} (h : Ends rest) (digits : List Char)
    (hdigits : ∀ c ∈ digits, isDigit c = true) :
    (digits ++ rest).takeWhile isDigit = digits ∧ (digits ++ rest).dropWhile isDigit = rest := by
  have hrest : rest.takeWhile isDigit = [] ∧ rest.dropWhile isDigit = rest := by
    cases rest with
    | nil => exact ⟨rfl, rfl⟩
    | cons c rest =>
      rw [List.takeWhile_cons, List.dropWhile_cons, h.isDigit_eq]
      exact ⟨rfl, rfl⟩
  rw [List.takeWhile_append_of_pos hdigits, List.dropWhile_append_of_pos hdigits, hrest.1, hrest.2,
    List.append_nil]
  exact ⟨rfl, rfl⟩

theorem isDigit_of_mem_toDigits {n : Nat} {c : Char} (h : c ∈ Nat.toDigits 10 n) :
    isDigit c = true := by
  have hdigit := Nat.isDigit_of_mem_toDigits (by decide) (by decide) h
  simpa [isDigit, Char.isDigit, Char.le_def] using hdigit

theorem digitValue_digitChar {n : Nat} (h : n < 10) : digitValue (Nat.digitChar n) = n :=
  Nat.toNat_digitChar_sub_48_of_lt_ten h

/-- No digit of a number that fits 64 bits is left out. -/
theorem gather_toDigits {n : Nat} (h : n < UInt64.size) :
    ∃ taken, gather 0 (Nat.toDigits 10 n) = ⟨n, taken, 0⟩ := by
  induction n using Nat.strongRecOn with
  | ind n ih =>
    by_cases hsmall : n < 10
    · refine ⟨1, ?_⟩
      rw [Nat.toDigits_of_lt_base hsmall]
      show Digits.push ⟨0, 0, 0⟩ (Nat.digitChar n) = _
      unfold Digits.push
      simp [digitValue_digitChar hsmall, h]
    · obtain ⟨taken, htaken⟩ := ih (n / 10) (by omega) (by omega)
      refine ⟨taken + 1, ?_⟩
      have hnext : n / 10 * 10 + n % 10 = n := Nat.div_add_mod' n 10
      rw [Nat.toDigits_of_base_le (by decide) (by omega), gather, List.foldl_append]
      show Digits.push (gather 0 (Nat.toDigits 10 (n / 10))) _ = _
      rw [htaken]
      unfold Digits.push
      simp [digitValue_digitChar (Nat.mod_lt n (by decide)), hnext, h]

/-- Only zero is written with a zero in front. -/
theorem exists_toDigits_eq {n : Nat} (h : n ≠ 0) :
    ∃ c cs, Nat.toDigits 10 n = c :: cs ∧ c ≠ '0' := by
  induction n using Nat.strongRecOn with
  | ind n ih =>
    by_cases hsmall : n < 10
    · exact ⟨_, [], Nat.toDigits_of_lt_base hsmall, fun hzero => h (Nat.digitChar_eq_zero.1 hzero)⟩
    · obtain ⟨c, cs, hcs, hc⟩ := ih (n / 10) (by omega) (by omega)
      exact ⟨c, cs ++ [Nat.digitChar (n % 10)], by
        rw [Nat.toDigits_of_base_le (by decide) (by omega), hcs, List.cons_append], hc⟩

theorem readWhole_toDigits {n : Nat} (hn : n < UInt64.size) {rest : List Char} (h : Ends rest) :
    ∃ taken, readWhole (Nat.toDigits 10 n ++ rest) = .ok (⟨n, taken, 0⟩, rest) := by
  by_cases hzero : n = 0
  · subst hzero
    refine ⟨1, ?_⟩
    rw [Nat.toDigits_zero, List.singleton_append, readWhole]
    have hnone : rest.takeWhile isDigit = [] := (h.span_digits [] (by simp)).1
    rw [hnone]
    rfl
  · obtain ⟨taken, htaken⟩ := gather_toDigits hn
    refine ⟨taken, ?_⟩
    obtain ⟨c, cs, hcs, hc⟩ := exists_toDigits_eq hzero
    obtain ⟨htake, hdrop⟩ := h.span_digits (Nat.toDigits 10 n)
      fun c => isDigit_of_mem_toDigits
    have hdigit : isDigit c = true := isDigit_of_mem_toDigits (hcs ▸ List.mem_cons_self)
    rw [hcs, List.cons_append] at htake hdrop ⊢
    rw [hcs] at htaken
    unfold readWhole
    split
    · rename_i hnil
      cases hnil
    · rename_i heq
      exact absurd (List.cons.inj heq).1 hc
    · rename_i heq
      cases heq
      rw [if_pos hdigit, htake, hdrop, htaken]

theorem readNumber_natural {n : Nat} (hn : n < UInt64.size) {rest : List Char} (h : Ends rest) :
    readNumber false (Nat.toDigits 10 n ++ rest) = .ok (.natural n, rest) := by
  obtain ⟨taken, hwhole⟩ := readWhole_toDigits hn h
  refine bind_eq_ok.2 ⟨_, hwhole, ?_⟩
  simp [h.startsFloat_eq]
  rfl

theorem readNumber_negative {n : Nat} (hzero : n ≠ 0) (hn : n ≤ signedLimit) {rest : List Char}
    (h : Ends rest) : readNumber true (Nat.toDigits 10 n ++ rest) = .ok (.negative n, rest) := by
  have hfits : n < UInt64.size := Nat.lt_of_le_of_lt hn (by decide)
  obtain ⟨taken, hwhole⟩ := readWhole_toDigits hfits h
  refine bind_eq_ok.2 ⟨_, hwhole, ?_⟩
  simp [h.startsFloat_eq, hzero, Nat.not_lt.2 hn]
  rfl

end Numbers

end Dataflow.Json
