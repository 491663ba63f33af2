/- GID: HasherPriv/Foundations/Scanning
   layer: library
   source: none
   digest: The hexadecimal conversion of `sscanf`, by what the standard says and by a program. -/

import HasherPriv.Foundations.Numerals

set_option autoImplicit false
set_option relaxedAutoImplicit false

namespace HasherPriv.Foundations.Scanning

open ByteString
open Numerals

/-! Digits. -/

def hexValue (c : UInt8) : Option ℕ :=
  if 48 ≤ c ∧ c ≤ 57 then some (c.toNat - 48)
  else if 97 ≤ c ∧ c ≤ 102 then some (c.toNat - 87)
  else if 65 ≤ c ∧ c ≤ 70 then some (c.toNat - 55)
  else none

def isHex (c : UInt8) : Bool := (hexValue c).isSome

def isX (c : UInt8) : Bool := c = 120 ∨ c = 88

def isSign (c : UInt8) : Bool := c = 43 ∨ c = 45

/-! What `strtoul` takes for a number with base 16. -/

def digitsValue (ds : Bytes) : Option ℕ :=
  if ds ≠ [] ∧ ds.all isHex then some (ds.foldl (fun n d => 16 * n + (hexValue d).getD 0) 0)
  else none

/-- What stands behind a `0x`, if there is one. -/
def afterRadix : Bytes → Bytes
  | z :: x :: ds => if z = 48 ∧ isX x then ds else z :: x :: ds
  | s => s

def unsignedValue (s : Bytes) : Option ℕ := digitsValue (afterRadix s)

/-- They may have a sign. -/
def numberValue : Bytes → Option ℤ
  | [] => none
  | c :: s =>
      if c = 43 then (unsignedValue s).map fun n : ℕ => (n : ℤ)
      else if c = 45 then (unsignedValue s).map fun n : ℕ => -(n : ℤ)
      else (unsignedValue (c :: s)).map fun n : ℕ => (n : ℤ)

/-! The input item. -/

/-- Something can follow that makes a number of it. -/
def Begins (p : Bytes) : Prop := ∃ t, (numberValue (p ++ t)).isSome

/-- The longest part at the front that begins a number and has at most `width` bytes. -/
structure InputItem (width : ℕ) (s item : Bytes) : Prop where
  front : item <+: s
  short : item.length ≤ width
  begins : Begins item
  longest : ∀ p, p <+: s → p.length ≤ width → Begins p → p.length ≤ item.length

/-- `sscanf` with a width and `x` stores this value; the blanks in front are skipped. -/
def Stores (width : ℕ) (s : Bytes) (v : ℤ) : Prop :=
  ∃ item, InputItem width (s.dropWhile isSpace) item ∧ numberValue item = some v

theorem InputItem.unique {width : ℕ} {s item item' : Bytes} (h : InputItem width s item)
    (h' : InputItem width s item') : item' = item := by
  have hle := h.longest item' h'.front h'.short h'.begins
  have hge := h'.longest item h.front h.short h.begins
  rw [List.prefix_iff_eq_take.mp h.front, List.prefix_iff_eq_take.mp h'.front]
  congr 1
  omega

/-! The same as a program. -/

def beginsUnsigned (s : Bytes) : Bool := (afterRadix s).all isHex

def begins : Bytes → Bool
  | [] => true
  | c :: s => if isSign c then beginsUnsigned s else beginsUnsigned (c :: s)

def inputItem : ℕ → Bytes → Bytes
  | 0, _ => []
  | n + 1, s => if n + 1 ≤ s.length ∧ begins (s.take (n + 1)) then s.take (n + 1) else inputItem n s

def scanHex (width : ℕ) (s : Bytes) : Option ℤ :=
  numberValue (inputItem width (s.dropWhile isSpace))

/-! They agree. -/

theorem isX_not_hex {x : UInt8} (h : isX x = true) : isHex x = false := by
  have hx : x = 120 ∨ x = 88 := of_decide_eq_true h
  rcases hx with rfl | rfl
  · rfl
  · rfl

theorem digitsValue_isSome {ds : Bytes} :
    (digitsValue ds).isSome ↔ ds ≠ [] ∧ ∀ d ∈ ds, isHex d = true := by
  unfold digitsValue
  by_cases h : ds ≠ [] ∧ ds.all isHex = true
  · rw [if_pos h]
    exact iff_of_true rfl ⟨h.1, List.all_eq_true.mp h.2⟩
  · rw [if_neg h]
    apply iff_of_false
    · exact Bool.false_ne_true
    · intro hall
      exact h ⟨hall.1, List.all_eq_true.mpr hall.2⟩

theorem afterRadix_append {s t : Bytes} (h : 2 ≤ s.length) :
    afterRadix (s ++ t) = afterRadix s ++ t := by
  match s with
  | [] => cases h
  | [z] => exact absurd h (Nat.not_succ_le_self 1)
  | z :: x :: ds =>
      show (if z = 48 ∧ isX x = true then ds ++ t else z :: x :: (ds ++ t)) = _ ++ t
      rw [afterRadix]
      by_cases hx : z = 48 ∧ isX x = true
      · rw [if_pos hx, if_pos hx]
      · rw [if_neg hx, if_neg hx]
        rfl

theorem afterRadix_append_zero (s : Bytes) : afterRadix (s ++ [48]) = afterRadix s ++ [48] := by
  match s with
  | [] => rfl
  | [z] =>
      show (if z = 48 ∧ isX 48 = true then [] else [z, 48]) = [z, 48]
      apply if_neg
      rintro ⟨-, h⟩
      cases h
  | z :: x :: ds => exact afterRadix_append (Nat.le_add_left 2 ds.length)

/-- A digit can be added to what begins a number. -/
theorem unsignedValue_begins {s : Bytes} :
    (∃ t, (unsignedValue (s ++ t)).isSome) ↔ beginsUnsigned s = true := by
  unfold unsignedValue beginsUnsigned
  rw [List.all_eq_true]
  constructor
  · rintro ⟨t, ht⟩
    obtain ⟨-, hall⟩ := digitsValue_isSome.mp ht
    match s with
    | [] =>
        intro d hd
        cases hd
    | [z] =>
        intro d hd
        obtain rfl := List.mem_singleton.mp hd
        cases t with
        | nil => exact hall d hd
        | cons x ds =>
            by_cases hx : d = 48 ∧ isX x = true
            · rw [hx.1]
              rfl
            · have hsame : afterRadix ([d] ++ x :: ds) = d :: x :: ds := if_neg hx
              rw [hsame] at hall
              exact hall d List.mem_cons_self
    | z :: x :: ds =>
        have htwo : 2 ≤ (z :: x :: ds).length := Nat.le_add_left 2 ds.length
        rw [afterRadix_append htwo] at hall
        intro d hd
        exact hall d (List.mem_append_left _ hd)
  · intro hall
    refine ⟨[48], digitsValue_isSome.mpr ?_⟩
    rw [afterRadix_append_zero]
    constructor
    · exact List.append_ne_nil_of_right_ne_nil _ (List.cons_ne_nil _ _)
    · intro d hd
      rcases List.mem_append.mp hd with hd | hd
      · exact hall d hd
      · rw [List.mem_singleton.mp hd]
        rfl

theorem numberValue_isSome {c : UInt8} {s : Bytes} :
    (numberValue (c :: s)).isSome ↔
      (unsignedValue (if isSign c then s else c :: s)).isSome := by
  rw [numberValue, isSign]
  by_cases hplus : c = 43
  · rw [if_pos hplus, Option.isSome_map, if_pos (by simp [hplus])]
  · rw [if_neg hplus]
    by_cases hminus : c = 45
    · rw [if_pos hminus, Option.isSome_map, if_pos (by simp [hminus])]
    · rw [if_neg hminus, Option.isSome_map, if_neg (by simp [hplus, hminus])]

theorem begins_iff {p : Bytes} : Begins p ↔ begins p = true := by
  cases p with
  | nil => exact iff_of_true ⟨[48], rfl⟩ rfl
  | cons c s =>
      show (∃ t, (numberValue (c :: (s ++ t))).isSome) ↔ _
      simp only [numberValue_isSome, begins]
      by_cases hsign : isSign c = true
      · simp only [if_pos hsign]
        exact unsignedValue_begins
      · simp only [if_neg hsign]
        exact unsignedValue_begins (s := c :: s)

theorem inputItem_spec (width : ℕ) (s : Bytes) : InputItem width s (inputItem width s) := by
  induction width with
  | zero =>
      constructor
      · exact List.nil_prefix
      · exact le_rfl
      · exact begins_iff.mpr rfl
      · intro p _ hp _
        exact hp
  | succ n ih =>
      rw [inputItem]
      by_cases h : n + 1 ≤ s.length ∧ begins (s.take (n + 1)) = true
      · rw [if_pos h]
        have hlength : (s.take (n + 1)).length = n + 1 := List.length_take_of_le h.1
        constructor
        · exact List.take_prefix _ _
        · exact le_of_eq hlength
        · exact begins_iff.mpr h.2
        · intro p _ hp _
          rw [hlength]
          exact hp
      · rw [if_neg h]
        constructor
        · exact ih.front
        · exact ih.short.trans (Nat.le_succ n)
        · exact ih.begins
        · intro p hfront hshort hp
          apply ih.longest p hfront _ hp
          by_contra hlong
          have hfull : p.length = n + 1 := by omega
          apply h
          have hp' : p = s.take (n + 1) := by
            rw [← hfull]
            exact List.prefix_iff_eq_take.mp hfront
          rw [← hp']
          exact ⟨hfull ▸ hfront.length_le, begins_iff.mp hp⟩

/-- The program is what the standard says. -/
theorem scanHex_iff {width : ℕ} {s : Bytes} {v : ℤ} :
    scanHex width s = some v ↔ Stores width s v := by
  constructor
  · intro h
    exact ⟨_, inputItem_spec width _, h⟩
  · rintro ⟨item, hitem, hvalue⟩
    rw [scanHex, hitem.unique (inputItem_spec width _)]
    exact hvalue

/-! Two bytes at most. -/

/-- There is a digit behind the blanks, which is not the beginning of a `0x`, or a sign with a digit
behind it. -/
def scansTwo (s : Bytes) : Bool :=
  match s.dropWhile isSpace with
  | [] => false
  | [c] => isHex c
  | c :: d :: _ => if isSign c then isHex d else isHex c && !(c = 48 && isX d)

theorem isSign_not_hex {c : UInt8} (h : isSign c = true) : isHex c = false := by
  have hc : c = 43 ∨ c = 45 := of_decide_eq_true h
  rcases hc with rfl | rfl
  · rfl
  · rfl

theorem not_isSign_of_hex {c : UInt8} (h : isHex c = true) : ¬ isSign c = true := by
  intro hsign
  rw [isSign_not_hex hsign] at h
  cases h

theorem not_isX_of_hex {c : UInt8} (h : isHex c = true) : ¬ isX c = true := by
  intro hx
  rw [isX_not_hex hx] at h
  cases h

/-- The three ranges. -/
theorem hexValue_cases {c : UInt8} {n : ℕ} (h : hexValue c = some n) :
    (48 ≤ c.toNat ∧ c.toNat ≤ 57 ∧ n = c.toNat - 48) ∨
      (97 ≤ c.toNat ∧ c.toNat ≤ 102 ∧ n = c.toNat - 87) ∨
        (65 ≤ c.toNat ∧ c.toNat ≤ 70 ∧ n = c.toNat - 55) := by
  unfold hexValue at h
  simp only [UInt8.le_iff_toNat_le] at h
  split_ifs at h with hdigit hlower hupper
  · exact Or.inl ⟨hdigit.1, hdigit.2, (Option.some.inj h).symm⟩
  · exact Or.inr (Or.inl ⟨hlower.1, hlower.2, (Option.some.inj h).symm⟩)
  · exact Or.inr (Or.inr ⟨hupper.1, hupper.2, (Option.some.inj h).symm⟩)

theorem isSpace_of_hex {c : UInt8} (h : isHex c = true) : isSpace c = false := by
  obtain ⟨n, hn⟩ := Option.isSome_iff_exists.mp h
  have hcases := hexValue_cases hn
  simp only [isSpace, decide_eq_false_iff_not, UInt8.le_iff_toNat_le, ← UInt8.toNat_inj,
    UInt8.reduceToNat]
  omega

theorem begins_single (c : UInt8) : begins [c] = (isSign c || isHex c) := by
  rw [begins]
  by_cases hsign : isSign c = true
  · rw [if_pos hsign, hsign]
    rfl
  · rw [if_neg hsign, Bool.eq_false_iff.mpr hsign]
    exact Bool.and_true _

theorem begins_pair (c d : UInt8) : begins [c, d] =
    if isSign c then isHex d else if c = 48 ∧ isX d then true else isHex c && isHex d := by
  rw [begins]
  by_cases hsign : isSign c = true
  · rw [if_pos hsign, if_pos hsign]
    exact Bool.and_true _
  · rw [if_neg hsign, if_neg hsign, beginsUnsigned, afterRadix]
    by_cases hx : c = 48 ∧ isX d = true
    · rw [if_pos hx, if_pos hx]
      rfl
    · rw [if_neg hx, if_neg hx]
      simp only [List.all_cons, List.all_nil, Bool.and_true]

theorem inputItem_one (c : UInt8) (t : Bytes) :
    inputItem 1 (c :: t) = if begins [c] then [c] else [] := by
  rw [inputItem, List.length_cons]
  by_cases h : begins [c] = true
  · rw [if_pos h, if_pos ⟨Nat.le_add_left 1 t.length, h⟩]
    rfl
  · rw [if_neg h, if_neg fun hboth => h hboth.2]
    rfl

theorem inputItem_two (c d : UInt8) (t : Bytes) : inputItem 2 (c :: d :: t) =
    if begins [c, d] then [c, d] else if begins [c] then [c] else [] := by
  rw [inputItem, inputItem_one]
  by_cases h : begins [c, d] = true
  · rw [if_pos h, if_pos ⟨Nat.le_add_left 2 t.length, h⟩]
    rfl
  · rw [if_neg h, if_neg fun hboth => h hboth.2]

theorem numberValue_single (c : UInt8) : (numberValue [c]).isSome = isHex c := by
  rw [Bool.eq_iff_iff, numberValue_isSome]
  by_cases hsign : isSign c = true
  · rw [if_pos hsign, isSign_not_hex hsign]
    exact Iff.rfl
  · rw [if_neg hsign]
    show (digitsValue [c]).isSome = true ↔ _
    rw [digitsValue_isSome]
    simp

theorem numberValue_pair (c d : UInt8) : (numberValue [c, d]).isSome =
    if isSign c then isHex d else if c = 48 ∧ isX d then false else isHex c && isHex d := by
  rw [Bool.eq_iff_iff, numberValue_isSome]
  by_cases hsign : isSign c = true
  · rw [if_pos hsign, if_pos hsign]
    show (digitsValue [d]).isSome = true ↔ _
    rw [digitsValue_isSome]
    simp
  · rw [if_neg hsign, if_neg hsign, unsignedValue, afterRadix]
    by_cases hx : c = 48 ∧ isX d = true
    · rw [if_pos hx, if_pos hx]
      exact Iff.rfl
    · rw [if_neg hx, if_neg hx, digitsValue_isSome]
      simp

theorem numberValue_one (c : UInt8) (t : Bytes) :
    (numberValue (inputItem 1 (c :: t))).isSome = isHex c := by
  rw [inputItem_one, begins_single]
  by_cases hbegins : (isSign c || isHex c) = true
  · rw [if_pos hbegins]
    exact numberValue_single c
  · rw [if_neg hbegins]
    rw [Bool.or_eq_true, not_or] at hbegins
    exact (Bool.eq_false_iff.mpr hbegins.2).symm

/-- What is accepted with a width of two. -/
theorem scanHex_two_isSome (s : Bytes) : (scanHex 2 s).isSome = scansTwo s := by
  unfold scanHex scansTwo
  match s.dropWhile isSpace with
  | [] => rfl
  | [c] => exact numberValue_one c []
  | c :: d :: t =>
      have hone : (numberValue (if begins [c] then [c] else [])).isSome = isHex c := by
        rw [← inputItem_one c (d :: t)]
        exact numberValue_one c (d :: t)
      show (numberValue (inputItem 2 (c :: d :: t))).isSome =
        if isSign c then isHex d else isHex c && !(decide (c = 48) && isX d)
      rw [inputItem_two, begins_pair]
      by_cases hsign : isSign c = true
      · rw [if_pos hsign, if_pos hsign]
        by_cases hd : isHex d = true
        · rw [if_pos hd, numberValue_pair, if_pos hsign]
        · rw [if_neg hd, hone, isSign_not_hex hsign, Bool.eq_false_iff.mpr hd]
      · rw [if_neg hsign, if_neg hsign]
        by_cases hx : c = 48 ∧ isX d = true
        · rw [if_pos hx, if_pos rfl, numberValue_pair, if_neg hsign, if_pos hx, hx.1, hx.2]
          rfl
        · have hnot : (!(decide (c = 48) && isX d)) = true := by
            rw [Bool.not_eq_true', Bool.and_eq_false_iff, decide_eq_false_iff_not,
              ← Bool.not_eq_true]
            exact not_and_or.mp hx
          rw [if_neg hx, hnot, Bool.and_true]
          by_cases hboth : (isHex c && isHex d) = true
          · rw [if_pos hboth, numberValue_pair, if_neg hsign, if_neg hx, hboth]
            exact (Bool.and_eq_true_iff.mp hboth).1.symm
          · rw [if_neg hboth]
            exact hone

/-- Two digits are read as what they say. -/
theorem scanHex_digits {a b : UInt8} {m n : ℕ} (ha : hexValue a = some m) (hb : hexValue b = some n)
    (rest : Bytes) : scanHex 2 (a :: b :: rest) = some ((16 * m + n : ℕ) : ℤ) := by
  have hhexa : isHex a = true := by
    rw [isHex, ha]
    rfl
  have hhexb : isHex b = true := by
    rw [isHex, hb]
    rfl
  have hspace : isSpace a = false := isSpace_of_hex hhexa
  have hboth : begins [a, b] = true := by
    rw [begins_pair, if_neg (not_isSign_of_hex hhexa), if_neg, hhexa, hhexb]
    · rfl
    · rintro ⟨-, hx⟩
      exact not_isX_of_hex hhexb hx
  have hitem : inputItem 2 (a :: b :: rest) = [a, b] := by
    rw [inputItem_two, if_pos hboth]
  have hsame : afterRadix [a, b] = [a, b] := by
    apply if_neg
    rintro ⟨-, hx⟩
    exact not_isX_of_hex hhexb hx
  have hall : [a, b] ≠ [] ∧ [a, b].all isHex = true := by
    refine ⟨List.cons_ne_nil _ _, ?_⟩
    rw [List.all_cons, List.all_cons, hhexa, hhexb]
    rfl
  have hdigits : digitsValue [a, b] = some (16 * m + n) := by
    rw [digitsValue, if_pos hall]
    simp only [List.foldl_cons, List.foldl_nil, ha, hb, Option.getD_some, Nat.mul_zero,
      Nat.zero_add]
  have hplus : a ≠ 43 := fun h => not_isSign_of_hex hhexa (by rw [h]; rfl)
  have hminus : a ≠ 45 := fun h => not_isSign_of_hex hhexa (by rw [h]; rfl)
  rw [scanHex, List.dropWhile_cons_of_neg (Bool.eq_false_iff.mp hspace), hitem, numberValue,
    if_neg hplus, if_neg hminus, unsignedValue, hsame, hdigits]
  rfl

/-! Two digits for a byte. -/

def lowerDigit (n : ℕ) : UInt8 := if n < 10 then UInt8.ofNat (48 + n) else UInt8.ofNat (87 + n)

/-- `%02x`. -/
def twoDigits (b : UInt8) : Bytes := [lowerDigit (b.toNat / 16), lowerDigit (b.toNat % 16)]

/-- A digit is the digit of its value, but for its case. -/
theorem lowerDigit_hexValue {c : UInt8} {n : ℕ} (h : hexValue c = some n) :
    n < 16 ∧ lowerDigit n = toLower c := by
  have hcases := hexValue_cases h
  unfold lowerDigit toLower
  simp only [UInt8.le_iff_toNat_le, UInt8.reduceToNat]
  rcases hcases with ⟨hlo, hhi, rfl⟩ | ⟨hlo, hhi, rfl⟩ | ⟨hlo, hhi, rfl⟩
  · refine ⟨by omega, ?_⟩
    rw [if_pos (by omega), if_neg (by omega), ← UInt8.toNat_inj, UInt8.toNat_ofNat']
    omega
  · refine ⟨by omega, ?_⟩
    rw [if_neg (by omega), if_neg (by omega), ← UInt8.toNat_inj, UInt8.toNat_ofNat']
    omega
  · refine ⟨by omega, ?_⟩
    have hcase : (32 : UInt8).toNat = 32 := rfl
    rw [if_neg (by omega), if_pos (by omega), ← UInt8.toNat_inj, UInt8.toNat_ofNat',
      UInt8.toNat_add, hcase]
    omega

/-- The digits of what two digits say are these digits. -/
theorem twoDigits_pair {a b : UInt8} {m n : ℕ} (ha : hexValue a = some m)
    (hb : hexValue b = some n) : twoDigits (UInt8.ofNat (16 * m + n)) = [toLower a, toLower b] := by
  obtain ⟨hm, hlowerA⟩ := lowerDigit_hexValue ha
  obtain ⟨hn, hlowerB⟩ := lowerDigit_hexValue hb
  have hvalue : (UInt8.ofNat (16 * m + n)).toNat = 16 * m + n := by
    rw [UInt8.toNat_ofNat']
    omega
  have hhigh : (16 * m + n) / 16 = m := by omega
  have hlow : (16 * m + n) % 16 = n := by omega
  rw [twoDigits, hvalue, hhigh, hlow, hlowerA, hlowerB]

end HasherPriv.Foundations.Scanning
