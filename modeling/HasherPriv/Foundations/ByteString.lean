/- GID: HasherPriv/Foundations/ByteString
   layer: library
   source: none
   digest: Byte strings, their order, strtok tokens, slash-separated components and decimals. -/

import Mathlib.Data.List.Basic
import Mathlib.Data.List.Infix
import Mathlib.Data.List.TakeWhile
import Mathlib.Data.List.Lex
import Mathlib.Data.List.Sort
import Mathlib.Tactic

set_option autoImplicit false
set_option relaxedAutoImplicit false

namespace HasherPriv.Foundations.ByteString

/-- The bytes of a C string, without its terminator. -/
abbrev Bytes := List UInt8

/-- The bytes of an ASCII literal. -/
def str (s : String) : Bytes := s.toList.map Char.toUInt8

/-- The characters of a byte string, for the text of a message. -/
def text (b : Bytes) : String := String.ofList (b.map fun c => Char.ofNat c.toNat)

/-- A byte string that a NUL-terminated buffer can hold. -/
@[ext] structure CString where
  bytes : Bytes
  nulFree : 0 ∉ bytes
  deriving DecidableEq

/-- The C string that starts a byte sequence: everything before the first NUL. -/
def CString.ofPrefix (b : Bytes) : CString where
  bytes := b.takeWhile (· ≠ 0)
  nulFree h := by simpa using List.mem_takeWhile_imp h

/-! Order. `strcmp` compares unsigned bytes, a proper prefix being smaller. -/

private theorem toNat_map_injective : Function.Injective (List.map UInt8.toNat) :=
  List.map_injective_iff.mpr fun _ _ h => UInt8.toNat_inj.mp h

/-- `strcmp (a, b) <= 0`. -/
def strLe (a b : Bytes) : Prop := a.map UInt8.toNat ≤ b.map UInt8.toNat

/-- `strcmp (a, b) < 0`. -/
def strLt (a b : Bytes) : Prop := a.map UInt8.toNat < b.map UInt8.toNat

instance : DecidableRel strLe := fun _ _ => inferInstanceAs (Decidable (_ ≤ _))
instance : DecidableRel strLt := fun _ _ => inferInstanceAs (Decidable (_ < _))

instance : Std.Total strLe := ⟨fun _ _ => le_total _ _⟩
instance : IsTrans Bytes strLe := ⟨fun _ _ _ => le_trans⟩

theorem strLe_antisymm {a b : Bytes} (hab : strLe a b) (hba : strLe b a) : a = b :=
  toNat_map_injective (le_antisymm hab hba)

theorem strLt_of_strLe_of_ne {a b : Bytes} (h : strLe a b) (hne : a ≠ b) : strLt a b :=
  lt_of_le_of_ne h fun he => hne (toNat_map_injective he)

theorem strLt_irrefl (a : Bytes) : ¬ strLt a a := lt_irrefl _

theorem strLt_asymm {a b : Bytes} (hab : strLt a b) : ¬ strLt b a := lt_asymm hab

/-- A proper prefix comes first. -/
theorem strLt_append (a : Bytes) {b : Bytes} (hb : b ≠ []) : strLt a (a ++ b) := by
  obtain ⟨x, b, rfl⟩ := List.exists_cons_of_ne_nil hb
  unfold strLt
  rw [List.map_append, List.map_cons]
  simpa using (List.Lex.nil (r := (· < ·)) (a := x.toNat)
    (l := b.map UInt8.toNat)).append_left (· < ·) (a.map UInt8.toNat)

/-! Tokens of a list cut at the elements `p` marks as delimiters. -/

section Tokens

variable {α : Type} (p : α → Bool)

/-- `strtok_r`: skip delimiters, cut one token off, keep what follows its delimiter. -/
def strtokR (s : List α) : Option (List α) × List α :=
  match s.dropWhile p with
  | [] => (none, [])
  | c :: cs => (some ((c :: cs).takeWhile (!p ·)), ((c :: cs).dropWhile (!p ·)).drop 1)

/-- All tokens: the non-empty pieces between delimiters. -/
def tokens [DecidableEq α] (s : List α) : List (List α) :=
  (s.splitOnP p).filter (· ≠ [])

theorem head_of_dropWhile {s rest : List α} {c : α} (h : s.dropWhile p = c :: rest) :
    p c = false := by
  have hne : s.dropWhile p ≠ [] := by simp [h]
  have hc := List.head_dropWhile_not p hne
  simpa only [h, List.head_cons] using hc

theorem strtokR_length {s t rest : List α} (h : strtokR p s = (some t, rest)) :
    rest.length < s.length := by
  unfold strtokR at h
  have hle := List.length_dropWhile_le p s
  cases hd : s.dropWhile p with
  | nil => simp [hd] at h
  | cons c cs =>
      rw [hd] at h hle
      obtain ⟨-, rfl⟩ := Prod.mk.inj h
      have hc : (!p c) = true := by simp [head_of_dropWhile p hd]
      rw [List.dropWhile_cons_of_pos (p := (!p ·)) hc]
      have := List.length_dropWhile_le (!p ·) cs
      simp only [List.length_drop, List.length_cons] at *
      omega

theorem strtokR_none {s rest : List α} (h : strtokR p s = (none, rest)) : rest = [] := by
  unfold strtokR at h
  split at h
  · exact (Prod.mk.inj h).2.symm
  · simp at h

private theorem delim_free_of_mem_splitOnP {s t : List α} (ht : t ∈ s.splitOnP p) :
    ∀ x ∈ t, p x = false := by
  induction s generalizing t with
  | nil =>
      obtain rfl : t = [] := by simpa using ht
      simp
  | cons c s ih =>
      rw [List.splitOnP_cons_eq_if_modifyHead] at ht
      split at ht
      · rcases List.mem_cons.mp ht with rfl | ht
        · simp
        · exact ih ht
      · rename_i hc
        obtain ⟨u, us, hu⟩ := List.exists_cons_of_ne_nil (List.splitOnP_ne_nil p s)
        rw [hu, List.modifyHead_cons, List.mem_cons] at ht
        rcases ht with rfl | ht
        · intro x hx
          rcases List.mem_cons.mp hx with rfl | hx
          · simpa using hc
          · exact ih (by simp [hu]) x hx
        · exact ih (by simp [hu, ht])

private theorem sublist_of_mem_splitOnP {s t : List α} (ht : t ∈ s.splitOnP p) : t.Sublist s := by
  induction s generalizing t with
  | nil =>
      obtain rfl : t = [] := by simpa using ht
      exact List.Sublist.refl []
  | cons c s ih =>
      rw [List.splitOnP_cons_eq_if_modifyHead] at ht
      split at ht
      · rcases List.mem_cons.mp ht with rfl | ht
        · exact List.nil_sublist _
        · exact (ih ht).cons c
      · obtain ⟨u, us, hu⟩ := List.exists_cons_of_ne_nil (List.splitOnP_ne_nil p s)
        rw [hu, List.modifyHead_cons, List.mem_cons] at ht
        rcases ht with rfl | ht
        · exact (ih (hu ▸ List.mem_cons_self)).cons_cons c
        · exact (ih (hu ▸ List.mem_cons_of_mem u ht)).cons c

variable [DecidableEq α]

@[simp] theorem tokens_nil : tokens p ([] : List α) = [] := by simp [tokens]

theorem tokens_cons_delim {c : α} (h : p c = true) (s : List α) :
    tokens p (c :: s) = tokens p s := by
  simp [tokens, List.splitOnP_cons_eq_if_modifyHead, h]

theorem tokens_dropWhile (s : List α) : tokens p (s.dropWhile p) = tokens p s := by
  induction s with
  | nil => rfl
  | cons c s ih =>
      by_cases h : p c = true
      · rw [List.dropWhile_cons_of_pos h, ih, tokens_cons_delim p h]
      · rw [List.dropWhile_cons_of_neg h]

/-- A token free of delimiters followed by a delimiter or by the end is cut off whole. -/
theorem tokens_append {t : List α} (ht : ∀ x ∈ t, p x = false) (hne : t ≠ [])
    {rest : List α} (hrest : rest = [] ∨ ∃ c r, rest = c :: r ∧ p c = true) :
    tokens p (t ++ rest) = t :: tokens p (rest.drop 1) := by
  rcases hrest with rfl | ⟨c, r, rfl, hc⟩
  · simp [tokens, List.splitOnP_eq_singleton ht, hne]
  · simp [tokens, List.splitOnP_append_cons_of_forall_mem ht c hc, hne]

/-- One `strtok` call takes the first token and leaves the others. -/
theorem tokens_strtokR (s : List α) :
    tokens p s =
      match strtokR p s with
      | (none, _) => []
      | (some t, rest) => t :: tokens p rest := by
  rw [← tokens_dropWhile, strtokR]
  cases hd : s.dropWhile p with
  | nil => simp
  | cons c cs =>
      have hc := head_of_dropWhile p hd
      have hsplit : (c :: cs).takeWhile (!p ·) ++ (c :: cs).dropWhile (!p ·) = c :: cs :=
        List.takeWhile_append_dropWhile
      conv_lhs => rw [← hsplit]
      apply tokens_append
      · intro x hx
        simpa using List.mem_takeWhile_imp hx
      · simp [hc]
      · cases he : (c :: cs).dropWhile (!p ·) with
        | nil => exact .inl rfl
        | cons d r => exact .inr ⟨d, r, rfl, by simpa using head_of_dropWhile (!p ·) he⟩

/-- The loop `for (t = strtok_r (s, d, &c); t; t = strtok_r (0, d, &c))`. -/
def strtokLoop {α : Type} (p : α → Bool) : ℕ → List α → List (List α)
  | 0, _ => []
  | fuel + 1, s =>
      match strtokR p s with
      | (none, _) => []
      | (some t, rest) => t :: strtokLoop p fuel rest

/-- The loop ends by itself and goes through the tokens. -/
theorem strtokLoop_eq_tokens {fuel : ℕ} {s : List α} (h : s.length < fuel) :
    strtokLoop p fuel s = tokens p s := by
  induction fuel generalizing s with
  | zero => omega
  | succ fuel ih =>
      rw [tokens_strtokR, strtokLoop]
      rcases hs : strtokR p s with ⟨_ | t, rest⟩
      · rfl
      · have hlt := strtokR_length p hs
        exact congrArg (t :: ·) (ih (by omega))

theorem delim_free_of_mem_tokens {s t : List α} (ht : t ∈ tokens p s) : ∀ x ∈ t, p x = false :=
  delim_free_of_mem_splitOnP p (List.mem_filter.mp ht).1

theorem sublist_of_mem_tokens {s t : List α} (ht : t ∈ tokens p s) : t.Sublist s :=
  sublist_of_mem_splitOnP p (List.mem_filter.mp ht).1

end Tokens

/-! Decimal numbers. -/

section Decimal

/-- `%u`. -/
def decimal (n : ℕ) : Bytes := (Nat.toDigits 10 n).map Char.toUInt8

/-- `%d`. -/
def signedDecimal (z : ℤ) : Bytes := if z < 0 then 45 :: decimal z.natAbs else decimal z.natAbs

private theorem digit_bounds {c : Char} {n : ℕ} (h : c ∈ Nat.toDigits 10 n) :
    48 ≤ c.toNat ∧ c.toNat ≤ 57 := by
  have hd := Nat.isDigit_of_mem_toDigits (by decide) (by decide) h
  simp only [Char.isDigit, Bool.and_eq_true, decide_eq_true_eq] at hd
  exact ⟨hd.1, hd.2⟩

private theorem toUInt8_toNat {c : Char} (h : c.toNat ≤ 57) : c.toUInt8.toNat = c.toNat := by
  have : c.toUInt8.toNat = c.toNat % 256 := rfl
  omega

/-- Only digits occur. -/
theorem mem_decimal {b : UInt8} {n : ℕ} (h : b ∈ decimal n) : 48 ≤ b.toNat ∧ b.toNat ≤ 57 := by
  obtain ⟨c, hc, rfl⟩ := List.mem_map.mp h
  have hb := digit_bounds hc
  rw [toUInt8_toNat hb.2]
  exact hb

theorem decimal_ne_nil (n : ℕ) : decimal n ≠ [] := by
  simp [decimal, Nat.toDigits_ne_nil]

/-- The number that the digits denote. -/
theorem decimal_value (n : ℕ) :
    (decimal n).foldl (fun m d => m * 10 + (d.toNat - 48)) 0 = n := by
  have hfold : ∀ (cs : List Char) (m : ℕ), (∀ c ∈ cs, c.toNat ≤ 57) →
      (cs.map Char.toUInt8).foldl (fun m d => m * 10 + (d.toNat - 48)) m =
        Nat.ofDigitChars 10 cs m := by
    intro cs
    induction cs with
    | nil => intro m _; rfl
    | cons c cs ih =>
        intro m hcs
        obtain ⟨hc, hcs⟩ := List.forall_mem_cons.mp hcs
        rw [List.map_cons, List.foldl_cons, ih _ hcs, Nat.ofDigitChars_cons, toUInt8_toNat hc,
          Nat.mul_comm]
        rfl
  rw [decimal, hfold _ _ fun c hc => (digit_bounds hc).2, Nat.ofDigitChars_ten_toDigits]

theorem decimal_injective : Function.Injective decimal := by
  have hinv (n : ℕ) : (decimal n).map (fun b => Char.ofNat b.toNat) = Nat.toDigits 10 n := by
    unfold decimal
    rw [List.map_map]
    refine (List.map_congr_left fun c hc => ?_).trans (List.map_id _)
    rw [Function.comp_apply, toUInt8_toNat (digit_bounds hc).2, Char.ofNat_toNat]
    rfl
  intro a b h
  have hdigits : Nat.toDigits 10 a = Nat.toDigits 10 b := by
    rw [← hinv, h, hinv]
  have hval := congrArg (Nat.ofDigitChars 10 · 0) hdigits
  simpa only [Nat.ofDigitChars_ten_toDigits] using hval

theorem mem_signedDecimal {b : UInt8} {z : ℤ} (h : b ∈ signedDecimal z) :
    b = 45 ∨ 48 ≤ b.toNat ∧ b.toNat ≤ 57 := by
  unfold signedDecimal at h
  split_ifs at h
  · exact (List.mem_cons.mp h).imp_right mem_decimal
  · exact .inr (mem_decimal h)

private theorem minus_notMem_decimal (n : ℕ) : (45 : UInt8) ∉ decimal n := by
  intro h
  exact absurd (mem_decimal h).1 (by decide)

theorem signedDecimal_injective : Function.Injective signedDecimal := by
  intro a b h
  unfold signedDecimal at h
  split_ifs at h with ha hb hb
  · have := decimal_injective (List.cons.inj h).2
    omega
  · exact (minus_notMem_decimal _ (h ▸ List.mem_cons_self)).elim
  · exact (minus_notMem_decimal _ (h ▸ List.mem_cons_self)).elim
  · have := decimal_injective h
    omega

end Decimal

/-! Path names. -/

section Path

/-- `'/'`. -/
def slash : UInt8 := 47

/-- The components of a path name, empty ones left out. -/
def components (path : Bytes) : List Bytes := tokens (· = slash) path

/-- A path component as the kernel prints it: not empty, with no slash and no NUL. -/
structure Component where
  bytes : Bytes
  ne_nil : bytes ≠ []
  slashFree : slash ∉ bytes
  nulFree : 0 ∉ bytes

/-- Every component behind a slash. -/
def joined (cs : List Bytes) : Bytes := cs.flatMap (slash :: ·)

/-- The absolute path name made of these components. -/
def absolute (cs : List Component) : Bytes :=
  if cs.isEmpty then [slash] else joined (cs.map Component.bytes)

@[simp] theorem joined_nil : joined [] = [] := rfl
@[simp] theorem joined_cons (c : Bytes) (cs : List Bytes) :
    joined (c :: cs) = slash :: (c ++ joined cs) := by simp [joined]

/-- The components of a path made of proper components are those. -/
theorem components_joined {cs : List Bytes} (h : ∀ c ∈ cs, c ≠ [] ∧ slash ∉ c) :
    components (joined cs) = cs := by
  induction cs with
  | nil => simp [components]
  | cons c cs ih =>
      obtain ⟨⟨hne, hfree⟩, hcs⟩ := List.forall_mem_cons.mp h
      have hrest : joined cs = [] ∨ ∃ d r, joined cs = d :: r ∧ decide (d = slash) = true := by
        cases cs with
        | nil => exact .inl rfl
        | cons d ds => exact .inr ⟨slash, d ++ joined ds, joined_cons d ds, by simp⟩
      have hdelim : ∀ x ∈ c, decide (x = slash) = false := by
        intro x hx
        simpa using fun he : x = slash => hfree (he ▸ hx)
      have htail : components ((joined cs).drop 1) = cs := by
        have hdrop : components ((joined cs).drop 1) = components (joined cs) := by
          rcases hrest with he | ⟨d, r, he, hd⟩
          · rw [he]
            rfl
          · rw [he]
            exact (tokens_cons_delim (· = slash) hd r).symm
        rw [hdrop, ih hcs]
      unfold components at htail ⊢
      rw [joined_cons, tokens_cons_delim _ (by simp), tokens_append _ hdelim hne hrest, htail]

private theorem joined_splitOnP (s : Bytes) : joined (s.splitOnP (· = slash)) = slash :: s := by
  induction s with
  | nil => simp
  | cons c s ih =>
      rw [List.splitOnP_cons_eq_if_modifyHead]
      split
      · rename_i hc
        obtain rfl : c = slash := by simpa using hc
        rw [joined_cons, ih]
        rfl
      · obtain ⟨u, us, hu⟩ := List.exists_cons_of_ne_nil (List.splitOnP_ne_nil (· = slash) s)
        rw [hu, joined_cons] at ih
        rw [hu, List.modifyHead_cons, joined_cons, List.cons_append, List.tail_eq_of_cons_eq ih]

/-- A path name whose pieces behind the leading slash are all non-empty is the one made of
its components. -/
theorem joined_components {rest : Bytes} (h : [] ∉ rest.splitOnP (· = slash)) :
    joined (components (slash :: rest)) = slash :: rest := by
  have hall : components (slash :: rest) = rest.splitOnP (· = slash) := by
    unfold components
    rw [tokens_cons_delim _ (by simp)]
    refine List.filter_eq_self.mpr fun t ht => ?_
    simpa using fun he : t = [] => h (he ▸ ht)
  rw [hall, joined_splitOnP]

end Path

end HasherPriv.Foundations.ByteString
