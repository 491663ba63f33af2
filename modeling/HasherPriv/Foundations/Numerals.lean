/- GID: HasherPriv/Foundations/Numerals
   layer: library
   source: none
   digest: Character classes and the number scanners of the C library. -/

import HasherPriv.Foundations.ByteString

set_option autoImplicit false
set_option relaxedAutoImplicit false

namespace HasherPriv.Foundations.Numerals

open ByteString

/-! `<ctype.h>` and `<strings.h>` in the C locale. -/

def isSpace (c : UInt8) : Bool := c = 32 ∨ (9 ≤ c ∧ c ≤ 13)

def isDigit (c : UInt8) : Bool := 48 ≤ c ∧ c ≤ 57

def toLower (c : UInt8) : UInt8 := if 65 ≤ c ∧ c ≤ 90 then c + 32 else c

/-- `strcasecmp (a, b) == 0`. -/
def strcaseEq (a b : Bytes) : Bool := a.map toLower = b.map toLower

/-- `strncasecmp (pre, s, strlen (pre)) == 0`. -/
def hasCasePrefix (pre s : Bytes) : Bool := strcaseEq pre (s.take pre.length)

/-! `strtoul` and `strtol`. -/

/-- A sign, the number behind it and what follows; `none` where there are no digits. The base
is at most ten. -/
def scanNumeral (base : ℕ) (s : Bytes) : Option (Bool × ℕ × Bytes) :=
  let s := s.dropWhile isSpace
  let negative := s.head? = some 45
  let s := if s.head? = some 45 ∨ s.head? = some 43 then s.tail else s
  let isDigitOf (c : UInt8) : Bool := 48 ≤ c ∧ c.toNat < 48 + base
  let digits := s.takeWhile isDigitOf
  if digits = [] then none
  else
    some (negative, digits.foldl (fun n d => n * base + (d.toNat - 48)) 0, s.dropWhile isDigitOf)

/-- A decimal is read back, up to the first byte that is not a digit. -/
theorem scanNumeral_decimal (n : ℕ) {b : UInt8} (hb : ¬ (48 ≤ b ∧ b.toNat < 58)) (rest : Bytes) :
    scanNumeral 10 (decimal n ++ b :: rest) = some (false, n, b :: rest) := by
  have hdigits : ∀ d ∈ decimal n, (decide (48 ≤ d ∧ d.toNat < 48 + 10)) = true := by
    intro d hd
    obtain ⟨hlo, hhi⟩ := mem_decimal hd
    exact decide_eq_true ⟨by rwa [UInt8.le_iff_toNat_le], by omega⟩
  obtain ⟨d, ds, hds⟩ := List.exists_cons_of_ne_nil (decimal_ne_nil n)
  obtain ⟨hlo, hhi⟩ := mem_decimal (show d ∈ decimal n by rw [hds]; exact List.mem_cons_self)
  have hspace : isSpace d = false := by
    simp only [isSpace, UInt8.le_iff_toNat_le, ← UInt8.toNat_inj, decide_eq_false_iff_not]
    simp
    omega
  have hminus : d ≠ 45 := by
    rintro rfl
    exact absurd hlo (by decide)
  have hplus : d ≠ 43 := by
    rintro rfl
    exact absurd hlo (by decide)
  have hskip : (decimal n ++ b :: rest).dropWhile isSpace = decimal n ++ b :: rest := by
    rw [hds, List.cons_append, List.dropWhile_cons_of_neg (by simp [hspace])]
  have hhead : (decimal n ++ b :: rest).head? = some d := by rw [hds]; rfl
  have htake : (decimal n ++ b :: rest).takeWhile (fun c => decide (48 ≤ c ∧ c.toNat < 48 + 10)) =
      decimal n := by
    rw [List.takeWhile_append_of_pos hdigits, List.takeWhile_cons_of_neg (by simpa using hb),
      List.append_nil]
  have hdrop : (decimal n ++ b :: rest).dropWhile (fun c => decide (48 ≤ c ∧ c.toNat < 48 + 10)) =
      b :: rest := by
    rw [List.dropWhile_append_of_pos hdigits, List.dropWhile_cons_of_neg (by simpa using hb)]
  have hsign : ¬ (some d = some 45 ∨ some d = some 43) := by simp [hminus, hplus]
  simp only [scanNumeral, hskip, hhead, if_neg hsign, htake, hdrop, if_neg (decimal_ne_nil n),
    decimal_value]
  simp [hminus]

/-- What a scanner leaves behind: the value, the rest of the string, and `ERANGE`. -/
structure Scanned (α : Type) where
  value : α
  rest : Bytes
  erange : Bool
  deriving DecidableEq

def ulongMax : ℕ := 2 ^ 64 - 1

/-- `strtoul`, and `strtoull` where the types agree; a negative number is wrapped around. -/
def strtoul (base : ℕ) (s : Bytes) : Scanned ℕ :=
  match scanNumeral base s with
  | none => ⟨0, s, false⟩
  | some (negative, n, rest) =>
      if ulongMax < n then ⟨ulongMax, rest, true⟩
      else ⟨if negative then (2 ^ 64 - n) % 2 ^ 64 else n, rest, false⟩

/-- `strtol`, and `strtoll` where the types agree. -/
def strtol (base : ℕ) (s : Bytes) : Scanned ℤ :=
  match scanNumeral base s with
  | none => ⟨0, s, false⟩
  | some (negative, n, rest) =>
      let z : ℤ := if negative then -n else n
      if z < -2 ^ 63 then ⟨-2 ^ 63, rest, true⟩
      else if 2 ^ 63 - 1 < z then ⟨2 ^ 63 - 1, rest, true⟩
      else ⟨z, rest, false⟩

end HasherPriv.Foundations.Numerals
