/- GID: HasherPriv/Config/Xmalloc
   layer: configuration
   source: xmalloc.c, xmalloc.h
   digest: Reallocation of arrays: the size is the exact product, and growth leaves room. -/

import HasherPriv.Foundations.Program
import Mathlib.Tactic

set_option autoImplicit false
set_option relaxedAutoImplicit false

namespace HasherPriv.Config.Xmalloc

open Foundations.Program

/-- `HALF_SIZE_T`. -/
def halfSizeT : UInt64 := (1 : UInt64) <<< (8 * 4)

/-- `DEFAULT_ALLOC_SIZE`. -/
def defaultAllocSize : UInt64 := 64 * 8 / 4

section Functions

variable {Op : Type} {Res : Op → Type} {π : Type}
variable (realloc : Option π → UInt64 → Prog Op Res (Option π))

/-- `realloc`, and the end of the process where it fails. -/
def reallocOrDie (ptr : Option π) (bytes : UInt64) : Prog Op Res π := do
  match ← realloc ptr bytes with
  | some p => return p
  | none => .die "Out of memory"

/-- `xreallocarray`. -/
def xreallocarray (ptr : Option π) (nmemb size : UInt64) : Prog Op Res π :=
  let bytes := nmemb * size
  if halfSizeT ≤ nmemb ||| size ∧ size ≠ 0 ∧ bytes / size ≠ nmemb then .die "Out of memory"
  else reallocOrDie realloc ptr bytes

/-- `grow_memb`. -/
def growMemb (ptr : Option π) (nmemb membSize : UInt64) : UInt64 :=
  match ptr with
  | none => if nmemb ≠ 0 then 0 else (defaultAllocSize + membSize - 1) / membSize
  | some _ => (nmemb >>> 1) + 1

/-- `xgrowarray`: the pointer, and the count that it stores. -/
def xgrowarray (ptr : Option π) (nmemb membSize : UInt64) : Prog Op Res (π × UInt64) :=
  let grown := nmemb + growMemb ptr nmemb membSize
  if grown < nmemb then .die "Out of memory"
  else do
    let p ← xreallocarray realloc ptr grown membSize
    return (p, grown)

/-! Sizes. -/

/-- The test with the division is exact, and it is only left out where nothing can wrap. -/
theorem overflow_iff (nmemb size : UInt64) :
    (halfSizeT ≤ nmemb ||| size ∧ size ≠ 0 ∧ nmemb * size / size ≠ nmemb) ↔
      2 ^ 64 ≤ nmemb.toNat * size.toNat := by
  have hbytes : (nmemb * size).toNat = nmemb.toNat * size.toNat % 2 ^ 64 := UInt64.toNat_mul _ _
  have hdiv : nmemb * size / size = nmemb ↔
      nmemb.toNat * size.toNat % 2 ^ 64 / size.toNat = nmemb.toNat := by
    rw [← UInt64.toNat_inj, UInt64.toNat_div, hbytes]
  have hhalf : halfSizeT.toNat = 2 ^ 32 := rfl
  constructor
  · rintro ⟨-, hsize, hne⟩
    by_contra hlt
    have hpos : 0 < size.toNat := by
      apply Nat.pos_of_ne_zero
      intro hzero
      exact hsize (UInt64.toNat_inj.mp hzero)
    apply hne
    rw [hdiv, Nat.mod_eq_of_lt (Nat.not_le.mp hlt), Nat.mul_div_cancel _ hpos]
  · intro hwrap
    refine ⟨?_, ?_, ?_⟩
    · by_contra hsmall
      have hor : (nmemb ||| size).toNat < 2 ^ 32 := by
        rw [← hhalf]
        exact UInt64.lt_iff_toNat_lt.mp (UInt64.not_le.mp hsmall)
      rw [UInt64.toNat_or] at hor
      have hleft : nmemb.toNat < 2 ^ 32 := Nat.lt_of_le_of_lt Nat.left_le_or hor
      have hright : size.toNat < 2 ^ 32 := Nat.lt_of_le_of_lt Nat.right_le_or hor
      have hproduct : nmemb.toNat * size.toNat < 2 ^ 32 * 2 ^ 32 :=
        Nat.mul_lt_mul'' hleft hright
      omega
    · rintro rfl
      rw [UInt64.toNat_zero, Nat.mul_zero] at hwrap
      omega
    · intro heq
      have hle := Nat.div_mul_le_self (nmemb.toNat * size.toNat % 2 ^ 64) size.toNat
      rw [hdiv.mp heq] at hle
      have hmod := Nat.mod_lt (nmemb.toNat * size.toNat) (Nat.two_pow_pos 64)
      omega

theorem xreallocarray_dies {ptr : Option π} {nmemb size : UInt64}
    (h : 2 ^ 64 ≤ nmemb.toNat * size.toNat) :
    xreallocarray realloc ptr nmemb size = .die "Out of memory" :=
  if_pos ((overflow_iff nmemb size).mpr h)

theorem xreallocarray_reallocates (ptr : Option π) {nmemb size : UInt64}
    (h : nmemb.toNat * size.toNat < 2 ^ 64) :
    ∃ bytes, bytes.toNat = nmemb.toNat * size.toNat ∧
      xreallocarray realloc ptr nmemb size = reallocOrDie realloc ptr bytes := by
  refine ⟨nmemb * size, ?_, if_neg fun hwrap => ?_⟩
  · rw [UInt64.toNat_mul, Nat.mod_eq_of_lt h]
  · have := (overflow_iff nmemb size).mp hwrap
    omega

/-- Members are added to an array that is there, and to a null pointer with no members. -/
theorem growMemb_pos {ptr : Option π} {nmemb membSize : UInt64} (hsize : 1 ≤ membSize.toNat)
    (hsize' : membSize.toNat ≤ 2 ^ 63) (h : ptr.isSome ∨ nmemb = 0) :
    0 < (growMemb ptr nmemb membSize).toNat := by
  cases ptr with
  | some p =>
      have hlt : nmemb.toNat < 2 ^ 64 := nmemb.toNat_lt
      have hgrow : (growMemb (some p) nmemb membSize).toNat = (nmemb.toNat / 2 + 1) % 2 ^ 64 := by
        rw [growMemb, UInt64.toNat_add, UInt64.toNat_shiftRight]
        rfl
      omega
  | none =>
      obtain rfl : nmemb = 0 := h.resolve_left Bool.false_ne_true
      have hgrow : (growMemb (none : Option π) 0 membSize).toNat =
          (128 + membSize.toNat - 1) / membSize.toNat := by
        have hsum : (defaultAllocSize + membSize - 1).toNat = 128 + membSize.toNat - 1 := by
          have hadd : (defaultAllocSize + membSize).toNat = 128 + membSize.toNat := by
            rw [UInt64.toNat_add]
            exact Nat.mod_eq_of_lt (by have : defaultAllocSize.toNat = 128 := rfl; omega)
          have hone : (1 : UInt64) ≤ defaultAllocSize + membSize := by
            rw [UInt64.le_iff_toNat_le, hadd, UInt64.toNat_one]
            omega
          rw [UInt64.toNat_sub_of_le _ _ hone, hadd, UInt64.toNat_one]
        rw [growMemb, if_neg (not_not.mpr rfl), UInt64.toNat_div, hsum]
      rw [hgrow]
      exact Nat.div_pos (by omega) hsize

/-- How an array grows. -/
structure Grown (ptr : Option π) (nmemb membSize grown bytes : UInt64) : Prop where
  count : nmemb.toNat ≤ grown.toNat
  larger : ptr.isSome ∨ nmemb = 0 → nmemb.toNat < grown.toNat
  exact : bytes.toNat = grown.toNat * membSize.toNat

theorem xgrowarray_cases (ptr : Option π) (nmemb : UInt64) {membSize : UInt64}
    (hsize : 1 ≤ membSize.toNat) (hsize' : membSize.toNat ≤ 2 ^ 63) :
    xgrowarray realloc ptr nmemb membSize = .die "Out of memory" ∨
      ∃ grown bytes, Grown ptr nmemb membSize grown bytes ∧
        xgrowarray realloc ptr nmemb membSize =
          (reallocOrDie realloc ptr bytes).bind fun p => .ret (p, grown) := by
  unfold xgrowarray
  generalize hgrown : nmemb + growMemb ptr nmemb membSize = grown
  by_cases hwrap : grown < nmemb
  · exact Or.inl (if_pos hwrap)
  · rw [if_neg hwrap]
    by_cases hproduct : grown.toNat * membSize.toNat < 2 ^ 64
    · obtain ⟨bytes, hbytes, hcall⟩ := xreallocarray_reallocates realloc ptr hproduct
      have hcount : nmemb.toNat ≤ grown.toNat :=
        UInt64.le_iff_toNat_le.mp (UInt64.not_lt.mp hwrap)
      refine Or.inr ⟨grown, bytes, ⟨hcount, ?_, hbytes⟩, ?_⟩
      · intro h
        have hpos := growMemb_pos hsize hsize' h
        have hlt := (growMemb ptr nmemb membSize).toNat_lt
        have hsum : grown.toNat = (nmemb.toNat + (growMemb ptr nmemb membSize).toNat) % 2 ^ 64 := by
          rw [← hgrown, UInt64.toNat_add]
        omega
      · rw [hcall]
        rfl
    · rw [xreallocarray_dies realloc (Nat.not_lt.mp hproduct)]
      exact Or.inl rfl

end Functions

/-! The theorem. -/

/-- A call of `realloc`. -/
structure Realloc (π : Type) where
  ptr : Option π
  bytes : UInt64
  deriving DecidableEq

abbrev ReallocProg (π α : Type) := Prog (Realloc π) (fun _ => Option π) α

def realloc {π : Type} (ptr : Option π) (bytes : UInt64) : ReallocProg π (Option π) :=
  .op ⟨ptr, bytes⟩

private theorem reallocOrDie_arrives {π : Type} {ptr : Option π} {bytes : UInt64} {o : Realloc π}
    {tr : List (Event fun _ : Realloc π => Option π)}
    (h : Arrives o (reallocOrDie realloc ptr bytes) tr) : tr = [] ∧ o = ⟨ptr, bytes⟩ := by
  rcases arrives_call.mp h with hhere | ⟨r, rest, -, hrest⟩
  · exact hhere
  · cases r with
    | none => cases hrest
    | some p => cases hrest

private theorem reallocOrDie_returned {π : Type} {ptr : Option π} {bytes : UInt64} {p : π}
    {count grown : UInt64} {tr : List (Event fun _ : Realloc π => Option π)}
    (h : Runs ((reallocOrDie realloc ptr bytes).bind fun p => .ret (p, count)) tr
      (.returned (p, grown))) : tr = [⟨⟨ptr, bytes⟩, some p⟩] ∧ grown = count := by
  obtain ⟨r, rest, rfl, hrest⟩ := returns_call.mp h
  cases r with
  | none => exact (returns_die hrest).elim
  | some q =>
      obtain ⟨rfl, hpair⟩ := returns_ret.mp hrest
      obtain ⟨rfl, rfl⟩ := Prod.mk.inj hpair
      exact ⟨rfl, rfl⟩

/-- For all sizes and every pointer: `realloc` is called where the product is in range, with
exactly the product, and otherwise the process dies; an array that grows has as many bytes as its
new count needs, and room behind its old members. -/
theorem array_growth_exact {π : Type} (ptr : Option π) (nmemb : UInt64) :
    (∀ size : UInt64,
      ((∃ o tr, Arrives o (xreallocarray realloc ptr nmemb size) tr) ↔
        nmemb.toNat * size.toNat < 2 ^ 64) ∧
      (∀ o tr, Arrives o (xreallocarray realloc ptr nmemb size) tr →
        tr = [] ∧ o.ptr = ptr ∧ o.bytes.toNat = nmemb.toNat * size.toNat) ∧
      (2 ^ 64 ≤ nmemb.toNat * size.toNat →
        (xreallocarray realloc ptr nmemb size : ReallocProg π π) = .die "Out of memory")) ∧
    ∀ membSize : UInt64, 1 ≤ membSize.toNat → membSize.toNat ≤ 2 ^ 63 →
      ∀ tr p grown, Runs (xgrowarray realloc ptr nmemb membSize) tr (.returned (p, grown)) →
        nmemb.toNat ≤ grown.toNat ∧
        (ptr.isSome ∨ nmemb = 0 → nmemb.toNat < grown.toNat) ∧
        ∃ bytes, tr = [⟨⟨ptr, bytes⟩, some p⟩] ∧
          bytes.toNat = grown.toNat * membSize.toNat ∧
          (ptr.isSome ∨ nmemb = 0 → (nmemb.toNat + 1) * membSize.toNat ≤ bytes.toNat) := by
  constructor
  · intro size
    by_cases hproduct : nmemb.toNat * size.toNat < 2 ^ 64
    · obtain ⟨bytes, hbytes, hcall⟩ := xreallocarray_reallocates (realloc (π := π)) ptr hproduct
      rw [hcall]
      refine ⟨⟨fun _ => hproduct, fun _ => ⟨⟨ptr, bytes⟩, [], .here _⟩⟩, ?_, ?_⟩
      · intro o tr h
        obtain ⟨rfl, rfl⟩ := reallocOrDie_arrives h
        exact ⟨rfl, rfl, hbytes⟩
      · intro hwrap
        omega
    · rw [xreallocarray_dies _ (Nat.not_lt.mp hproduct)]
      refine ⟨⟨?_, fun h => (hproduct h).elim⟩, ?_, fun _ => rfl⟩
      · rintro ⟨o, tr, h⟩
        cases h
      · intro o tr h
        cases h
  · intro membSize hsize hsize' tr p grown h
    rcases xgrowarray_cases (realloc (π := π)) ptr nmemb hsize hsize' with
      hdies | ⟨grown', bytes, ⟨hcount, hlarger, hexact⟩, hcall⟩
    · rw [hdies] at h
      exact (returns_die h).elim
    · rw [hcall] at h
      obtain ⟨rfl, rfl⟩ := reallocOrDie_returned h
      refine ⟨hcount, hlarger, bytes, rfl, hexact, fun hroom => ?_⟩
      rw [hexact]
      exact Nat.mul_le_mul_right _ (hlarger hroom)

/-! Sixteen members of eight bytes from nothing, nine more behind them, and a size out of range. -/

private def growth (ptr : Option ℕ) (bytes : UInt64) :
    List (Event fun _ : Realloc ℕ => Option ℕ) := [⟨⟨ptr, bytes⟩, some 1⟩]

private def hugeCount : UInt64 := 0x2000000000000000

theorem array_growth_exact_sample :
    (∃ bytes : UInt64, growth none 128 = [⟨⟨none, bytes⟩, some 1⟩] ∧ bytes.toNat = 16 * 8) ∧
    (∃ bytes : UInt64, growth (some 1) 200 = [⟨⟨some 1, bytes⟩, some 1⟩] ∧
      (16 + 1) * 8 ≤ bytes.toNat) ∧
    (xreallocarray realloc (some 1) hugeCount 8 : ReallocProg ℕ ℕ) = .die "Out of memory" := by
  have hfirst : Runs (xgrowarray realloc none 0 8) (growth none 128) (.returned (1, 16)) :=
    Prog.runs_of_replay rfl
  have hnext : Runs (xgrowarray realloc (some 1) 16 8) (growth (some 1) 200) (.returned (1, 25)) :=
    Prog.runs_of_replay rfl
  refine ⟨?_, ?_, ?_⟩
  · obtain ⟨-, -, bytes, hcall, hexact, -⟩ :=
      (array_growth_exact none 0).2 8 (by decide) (by decide) _ _ _ hfirst
    exact ⟨bytes, hcall, hexact⟩
  · obtain ⟨-, -, bytes, hcall, -, hroom⟩ :=
      (array_growth_exact (some 1) 16).2 8 (by decide) (by decide) _ _ _ hnext
    exact ⟨bytes, hcall, hroom (Or.inl rfl)⟩
  · exact ((array_growth_exact (some 1) hugeCount).1 8).2.2 (by decide)

end HasherPriv.Config.Xmalloc
