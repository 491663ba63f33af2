/- GID: HasherPriv/Foundations/Denotation
   layer: library
   source: none
   digest: The numbers that strings denote, and what strtoul and strtol make of them. -/

import HasherPriv.Foundations.Numerals
import Mathlib.Data.Nat.Digits.Defs

set_option autoImplicit false
set_option relaxedAutoImplicit false

namespace HasherPriv.Foundations.Denotation

open ByteString
open Numerals

def isDigitOf (base : ℕ) (c : UInt8) : Bool := 48 ≤ c ∧ c.toNat < 48 + base

/-- The most significant digit comes first. -/
def digitsValue (base : ℕ) (digits : Bytes) : ℕ :=
  Nat.ofDigits base (digits.reverse.map fun d => d.toNat - 48)

/-- Blanks, a sign or none, and digits. -/
inductive Denotes (base : ℕ) : Bytes → ℤ → Prop
  | positive {blanks sign digits : Bytes} (hblanks : ∀ b ∈ blanks, isSpace b = true)
      (hsign : sign = [] ∨ sign = [43]) (hne : digits ≠ [])
      (hdigits : ∀ d ∈ digits, isDigitOf base d = true) :
      Denotes base (blanks ++ sign ++ digits) (digitsValue base digits)
  | negative {blanks digits : Bytes} (hblanks : ∀ b ∈ blanks, isSpace b = true)
      (hne : digits ≠ []) (hdigits : ∀ d ∈ digits, isDigitOf base d = true) :
      Denotes base (blanks ++ [45] ++ digits) (-digitsValue base digits)

/-- The number with its sign. -/
def signed (negative : Bool) (n : ℕ) : ℤ := if negative then -n else n

/-- A number ends in a digit. -/
theorem Denotes.last {base : ℕ} {s : Bytes} {z : ℤ} (h : Denotes base s z) :
    ∃ d, s.getLast? = some d ∧ isDigitOf base d = true := by
  have hdigit : ∀ {front digits : Bytes} (hne : digits ≠ []),
      (∀ d ∈ digits, isDigitOf base d = true) →
      ∃ d, (front ++ digits).getLast? = some d ∧ isDigitOf base d = true := by
    intro front digits hne hdigits
    refine ⟨digits.getLast hne, ?_, hdigits _ (List.getLast_mem hne)⟩
    rw [List.getLast?_append, List.getLast?_eq_some_getLast hne, Option.some_or]
  cases h with
  | positive hblanks hsign hne hdigits => exact hdigit hne hdigits
  | negative hblanks hne hdigits => exact hdigit hne hdigits

theorem Denotes.ne_nil {base : ℕ} {s : Bytes} {z : ℤ} (h : Denotes base s z) : s ≠ [] := by
  obtain ⟨d, hlast, -⟩ := h.last
  rintro rfl
  cases hlast

/-! The scanner. -/

theorem foldl_digits (base : ℕ) (digits : Bytes) :
    digits.foldl (fun n d => n * base + (d.toNat - 48)) 0 = digitsValue base digits := by
  induction digits using List.reverseRecOn with
  | nil => rfl
  | append_singleton digits d ih =>
      rw [List.foldl_append, List.foldl_cons, List.foldl_nil, ih, digitsValue, digitsValue,
        List.reverse_append, List.reverse_singleton, List.singleton_append, List.map_cons,
        Nat.ofDigits_cons, Nat.mul_comm]
      exact Nat.add_comm _ _

theorem isDigitOf_ne {base : ℕ} {c : UInt8} (h : isDigitOf base c = true) :
    isSpace c = false ∧ c ≠ 45 ∧ c ≠ 43 := by
  obtain ⟨hlo, -⟩ := of_decide_eq_true h
  rw [UInt8.le_iff_toNat_le] at hlo
  have hlo' : 48 ≤ c.toNat := hlo
  refine ⟨?_, ?_, ?_⟩
  · apply decide_eq_false
    rintro (rfl | ⟨-, hhi⟩)
    · exact absurd hlo' (by decide)
    · rw [UInt8.le_iff_toNat_le] at hhi
      have hhi' : c.toNat ≤ 13 := hhi
      omega
  · rintro rfl
    exact absurd hlo' (by decide)
  · rintro rfl
    exact absurd hlo' (by decide)

/-- What is behind the blanks is scanned as it is. -/
theorem scanNumeral_blanks {base : ℕ} {blanks s : Bytes}
    (h : ∀ b ∈ blanks, isSpace b = true) : scanNumeral base (blanks ++ s) = scanNumeral base s := by
  unfold scanNumeral
  rw [List.dropWhile_append_of_pos h]

theorem scanNumeral_digits {base : ℕ} {digits : Bytes} (hne : digits ≠ [])
    (h : ∀ d ∈ digits, isDigitOf base d = true) :
    scanNumeral base digits = some (false, digitsValue base digits, []) ∧
      scanNumeral base (43 :: digits) = some (false, digitsValue base digits, []) ∧
      scanNumeral base (45 :: digits) = some (true, digitsValue base digits, []) := by
  have htake : digits.takeWhile (fun c => decide (48 ≤ c ∧ c.toNat < 48 + base)) = digits :=
    List.takeWhile_eq_self_iff.mpr h
  have hdrop : digits.dropWhile (fun c => decide (48 ≤ c ∧ c.toNat < 48 + base)) = [] :=
    List.dropWhile_eq_nil_iff.mpr h
  obtain ⟨d, ds, hds⟩ := List.exists_cons_of_ne_nil hne
  obtain ⟨hspace, hminus, hplus⟩ := isDigitOf_ne (h d (hds ▸ List.mem_cons_self))
  have hskip : digits.dropWhile isSpace = digits := by
    rw [hds]
    exact List.dropWhile_cons_of_neg (by rw [hspace]; decide)
  have hhead : digits.head? = some d := by rw [hds, List.head?_cons]
  have hnone : ¬ (some d = some (45 : UInt8) ∨ some d = some 43) := by
    rw [Option.some.injEq, Option.some.injEq, not_or]
    exact ⟨hminus, hplus⟩
  have hfalse : decide (some d = some (45 : UInt8)) = false := by
    apply decide_eq_false
    rw [Option.some.injEq]
    exact hminus
  refine ⟨?_, ?_, ?_⟩
  · simp only [scanNumeral, hskip, hhead, if_neg hnone, htake, hdrop, if_neg hne, foldl_digits,
      hfalse]
  · have hsign : (43 :: digits).dropWhile isSpace = 43 :: digits :=
      List.dropWhile_cons_of_neg (by decide)
    simp only [scanNumeral, hsign, List.head?_cons, List.tail_cons, or_true, if_true, htake, hdrop,
      if_neg hne, foldl_digits]
    rfl
  · have hsign : (45 :: digits).dropWhile isSpace = 45 :: digits :=
      List.dropWhile_cons_of_neg (by decide)
    simp only [scanNumeral, hsign, List.head?_cons, List.tail_cons, true_or, if_true, htake, hdrop,
      if_neg hne, foldl_digits]
    rfl

theorem Denotes.scanNumeral {base : ℕ} {s : Bytes} {z : ℤ} (h : Denotes base s z) :
    ∃ negative n, Numerals.scanNumeral base s = some (negative, n, []) ∧ z = signed negative n := by
  cases h with
  | @positive blanks sign digits hblanks hsign hne hdigits =>
      obtain ⟨hbare, hplus, -⟩ := scanNumeral_digits hne hdigits
      refine ⟨false, _, ?_, rfl⟩
      rw [List.append_assoc, scanNumeral_blanks hblanks]
      rcases hsign with rfl | rfl
      · exact hbare
      · exact hplus
  | @negative blanks digits hblanks hne hdigits =>
      obtain ⟨-, -, hminus⟩ := scanNumeral_digits hne hdigits
      refine ⟨true, _, ?_, rfl⟩
      rw [List.append_assoc, scanNumeral_blanks hblanks]
      exact hminus

/-- The digits behind the sign make up the rest of the string. -/
private theorem digits_of_scan {base n : ℕ} {u : Bytes} {negative negative' : Bool}
    (h : (if u.takeWhile (fun c => decide (48 ≤ c ∧ c.toNat < 48 + base)) = [] then none
      else some (negative, (u.takeWhile (fun c => decide (48 ≤ c ∧ c.toNat < 48 + base))).foldl
        (fun n d => n * base + (d.toNat - 48)) 0,
        u.dropWhile (fun c => decide (48 ≤ c ∧ c.toNat < 48 + base)))) =
      some (negative', n, [])) :
    u ≠ [] ∧ (∀ d ∈ u, isDigitOf base d = true) ∧ negative' = negative ∧ n = digitsValue base u := by
  split_ifs at h with hnone
  obtain ⟨hsign, hrest⟩ := Prod.mk.inj (Option.some.inj h)
  obtain ⟨hvalue, hend⟩ := Prod.mk.inj hrest
  have hall : ∀ d ∈ u, isDigitOf base d = true := List.dropWhile_eq_nil_iff.mp hend
  have htake : u.takeWhile (fun c => decide (48 ≤ c ∧ c.toNat < 48 + base)) = u :=
    List.takeWhile_eq_self_iff.mpr hall
  rw [htake] at hnone hvalue
  rw [foldl_digits] at hvalue
  exact ⟨hnone, hall, hsign.symm, hvalue.symm⟩

theorem denotes_of_scanNumeral {base n : ℕ} {s : Bytes} {negative : Bool}
    (h : scanNumeral base s = some (negative, n, [])) : Denotes base s (signed negative n) := by
  have hblanks : ∀ b ∈ s.takeWhile isSpace, isSpace b = true := fun b hb =>
    List.mem_takeWhile_imp hb
  have hparts : s.takeWhile isSpace ++ s.dropWhile isSpace = s := List.takeWhile_append_dropWhile
  unfold scanNumeral at h
  generalize s.dropWhile isSpace = t at h hparts
  dsimp only at h
  rw [← hparts]
  by_cases hminus : t.head? = some 45
  · obtain ⟨u, rfl⟩ := List.head?_eq_some_iff.mp hminus
    rw [if_pos (Or.inl hminus), List.tail_cons] at h
    obtain ⟨hne, hall, hsign, rfl⟩ := digits_of_scan h
    rw [hsign, hminus]
    have hnum := Denotes.negative hblanks hne hall
    rw [List.append_assoc] at hnum
    exact hnum
  · by_cases hplus : t.head? = some 43
    · obtain ⟨u, rfl⟩ := List.head?_eq_some_iff.mp hplus
      rw [if_pos (Or.inr hplus), List.tail_cons] at h
      obtain ⟨hne, hall, hsign, rfl⟩ := digits_of_scan h
      rw [hsign, hplus]
      have hnum := Denotes.positive hblanks (Or.inr rfl) hne hall
      rw [List.append_assoc] at hnum
      exact hnum
    · rw [if_neg (not_or.mpr ⟨hminus, hplus⟩)] at h
      obtain ⟨hne, hall, hsign, rfl⟩ := digits_of_scan h
      rw [hsign, decide_eq_false hminus]
      have hnum := Denotes.positive hblanks (Or.inl rfl) hne hall
      rw [List.append_nil] at hnum
      exact hnum

/-- A string denotes one number at most. -/
theorem Denotes.unique {base : ℕ} {s : Bytes} {z z' : ℤ} (h : Denotes base s z)
    (h' : Denotes base s z') : z = z' := by
  obtain ⟨negative, n, hscan, rfl⟩ := h.scanNumeral
  obtain ⟨negative', n', hscan', rfl⟩ := h'.scanNumeral
  rw [hscan] at hscan'
  obtain ⟨rfl, hrest⟩ := Prod.mk.inj (Option.some.inj hscan')
  rw [(Prod.mk.inj hrest).1]

/-! The scanners of the C library, on strings that have to be numbers to the end. -/

/-- What `strtoul` makes of a number. -/
def wrapped (z : ℤ) : ℕ := if ulongMax < z.natAbs then ulongMax else (z % 2 ^ 64).toNat

/-- What `strtol` makes of a number. -/
def clamped (z : ℤ) : ℤ := max (-2 ^ 63) (min z (2 ^ 63 - 1))

theorem wrapped_of_nonneg {z : ℤ} (h : 0 ≤ z) (hle : z ≤ ulongMax) : (wrapped z : ℤ) = z := by
  unfold wrapped ulongMax at *
  rw [if_neg (by omega)]
  omega

theorem wrapped_of_neg {z : ℤ} (h : z < 0) (hle : z.natAbs ≤ ulongMax) :
    (wrapped z : ℤ) = 2 ^ 64 + z := by
  unfold wrapped ulongMax at *
  rw [if_neg (by omega)]
  omega

theorem strtoul_rest {base : ℕ} {s : Bytes} (hs : s ≠ []) (h : (strtoul base s).rest = []) :
    ∃ z, Denotes base s z := by
  unfold strtoul at h
  cases hscan : scanNumeral base s with
  | none =>
      rw [hscan] at h
      exact absurd h hs
  | some r =>
      obtain ⟨negative, n, rest⟩ := r
      have hend : rest = [] := by
        rw [hscan] at h
        dsimp only at h
        split_ifs at h <;> exact h
      rw [hend] at hscan
      exact ⟨_, denotes_of_scanNumeral hscan⟩

theorem strtoul_of_denotes {base : ℕ} {s : Bytes} {z : ℤ} (h : Denotes base s z) :
    strtoul base s = ⟨wrapped z, [], decide (ulongMax < z.natAbs)⟩ := by
  obtain ⟨negative, n, hscan, rfl⟩ := h.scanNumeral
  have habs : (signed negative n).natAbs = n := by
    cases negative with
    | false => rfl
    | true => exact Int.natAbs_neg _
  rw [strtoul, hscan]
  dsimp only
  rw [wrapped, habs]
  by_cases hlarge : ulongMax < n
  · rw [if_pos hlarge, if_pos hlarge, decide_eq_true hlarge]
  · rw [if_neg hlarge, if_neg hlarge, decide_eq_false hlarge]
    congr 1
    unfold ulongMax at hlarge
    cases negative with
    | false =>
        show n = ((n : ℤ) % 2 ^ 64).toNat
        omega
    | true =>
        show (2 ^ 64 - n) % 2 ^ 64 = (-(n : ℤ) % 2 ^ 64).toNat
        omega

theorem strtol_rest {base : ℕ} {s : Bytes} (hs : s ≠ []) (h : (strtol base s).rest = []) :
    ∃ z, Denotes base s z := by
  unfold strtol at h
  cases hscan : scanNumeral base s with
  | none =>
      rw [hscan] at h
      exact absurd h hs
  | some r =>
      obtain ⟨negative, n, rest⟩ := r
      have hend : rest = [] := by
        rw [hscan] at h
        dsimp only at h
        split_ifs at h <;> exact h
      rw [hend] at hscan
      exact ⟨_, denotes_of_scanNumeral hscan⟩

theorem strtol_of_denotes {base : ℕ} {s : Bytes} {z : ℤ} (h : Denotes base s z) :
    (strtol base s).value = clamped z ∧ (strtol base s).rest = [] := by
  obtain ⟨negative, n, hscan, rfl⟩ := h.scanNumeral
  have hscanned : strtol base s =
      if signed negative n < -2 ^ 63 then ⟨-2 ^ 63, [], true⟩
      else if 2 ^ 63 - 1 < signed negative n then ⟨2 ^ 63 - 1, [], true⟩
      else ⟨signed negative n, [], false⟩ := by
    rw [strtol, hscan]
    rfl
  have hclamped : clamped (signed negative n) =
      if signed negative n < -2 ^ 63 then -2 ^ 63
      else if 2 ^ 63 - 1 < signed negative n then 2 ^ 63 - 1 else signed negative n := by
    unfold clamped
    split_ifs <;> omega
  rw [hscanned, hclamped]
  by_cases hlow : signed negative n < -2 ^ 63
  · rw [if_pos hlow, if_pos hlow]
    exact ⟨rfl, rfl⟩
  · rw [if_neg hlow, if_neg hlow]
    by_cases hhigh : 2 ^ 63 - 1 < signed negative n
    · rw [if_pos hhigh, if_pos hhigh]
      exact ⟨rfl, rfl⟩
    · rw [if_neg hhigh, if_neg hhigh]
      exact ⟨rfl, rfl⟩

end HasherPriv.Foundations.Denotation
