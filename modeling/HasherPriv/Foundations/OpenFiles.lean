/- GID: HasherPriv/Foundations/OpenFiles
   layer: library
   source: none
   digest: The descriptors of a process: the lowest free one, copies, and what execve leaves. -/

import Mathlib.Data.Nat.Notation
import Mathlib.Logic.Function.Basic

set_option autoImplicit false
set_option relaxedAutoImplicit false

namespace HasherPriv.Foundations.OpenFiles

/-- What each descriptor of a process refers to. -/
abbrev FdTable (φ : Type) := ℕ → Option φ

variable {φ : Type}

namespace FdTable

def put (t : FdTable φ) (fd : ℕ) (file : φ) : FdTable φ := Function.update t fd (some file)

def close (t : FdTable φ) (fd : ℕ) : FdTable φ := Function.update t fd none

/-- The open descriptors are the first ones. -/
def Packed (t : FdTable φ) (k : ℕ) : Prop := ∀ n, (t n).isSome = true ↔ n < k

/-- The descriptor that the next open file gets. -/
def Lowest (t : FdTable φ) (fd : ℕ) : Prop := t fd = none ∧ ∀ n < fd, (t n).isSome = true

section

variable {t : FdTable φ} {fd k n : ℕ} {file : φ}

@[simp] theorem put_self : t.put fd file fd = some file := Function.update_self _ _ _

theorem put_of_ne (h : n ≠ fd) : t.put fd file n = t n := Function.update_of_ne h _ _

@[simp] theorem close_self : t.close fd fd = none := Function.update_self _ _ _

theorem close_of_ne (h : n ≠ fd) : t.close fd n = t n := Function.update_of_ne h _ _

/-- What has just been opened and is closed again has left no trace. -/
theorem close_put (h : t fd = none) : (t.put fd file).close fd = t := by
  rw [put, close, Function.update_idem, ← h, Function.update_eq_self]

theorem Lowest.le (h : t.Lowest fd) (hn : t n = none) : fd ≤ n := by
  by_contra hlt
  have hsome := h.2 n (by omega)
  rw [hn] at hsome
  cases hsome

/-- A descriptor that is new is above those that stay open. -/
theorem Lowest.ge {start : ℕ} (h : t.Lowest fd) (hopen : ∀ n < start, (t n).isSome = true) :
    start ≤ fd := by
  by_contra hlt
  have hsome := hopen fd (by omega)
  rw [h.1] at hsome
  cases hsome

/-! Tables without a gap. -/

theorem Packed.lowest (h : t.Packed k) (hfd : t.Lowest fd) : fd = k := by
  have hfree : ¬ fd < k := by
    intro hlt
    have hsome := (h fd).mpr hlt
    rw [hfd.1] at hsome
    cases hsome
  have hbelow : ¬ k < fd := by
    intro hlt
    have hlt' := (h k).mp (hfd.2 k hlt)
    omega
  omega

theorem Packed.put (h : t.Packed k) : (t.put k file).Packed (k + 1) := by
  intro n
  by_cases hn : n = k
  · subst hn
    rw [put_self]
    simp
  · rw [put_of_ne hn, h n]
    omega

theorem Packed.close (h : t.Packed (k + 1)) : (t.close k).Packed k := by
  intro n
  by_cases hn : n = k
  · subst hn
    rw [close_self]
    simp
  · rw [close_of_ne hn, h n]
    omega

end

end FdTable

/-! Descriptors with the flag that closes them on `execve`. -/

structure Entry (φ : Type) where
  file : φ
  cloexec : Bool := false
  deriving DecidableEq

/-- The open descriptors of a process. -/
abbrev Files (φ : Type) := FdTable (Entry φ)

namespace Files

def insert (t : Files φ) (fd : ℕ) (file : φ) : Files φ := t.put fd ⟨file, false⟩

def close (t : Files φ) (fd : ℕ) : Files φ := FdTable.close t fd

/-- A copy has no flag; a copy onto itself is none. -/
def dup2 (t : Files φ) (oldfd newfd : ℕ) : Files φ :=
  if oldfd = newfd then t
  else
    match t oldfd with
    | none => t
    | some e => t.insert newfd e.file

def setCloexec (t : Files φ) (fd : ℕ) (flag : Bool) : Files φ :=
  Function.update t fd ((t fd).map fun e => { e with cloexec := flag })

/-- All descriptors from `start` on are closed on `execve`. -/
def closeOnExec (t : Files φ) (start : ℕ) : Files φ :=
  fun n => if n < start then t n else (t n).map fun e => { e with cloexec := true }

/-- What a program that is executed now finds open. -/
def inherited (t : Files φ) (n : ℕ) : Option φ :=
  (t n).bind fun e => if e.cloexec then none else some e.file

/-- Nothing from `start` on is inherited. -/
def Sealed (t : Files φ) (start : ℕ) : Prop := ∀ n, start ≤ n → t.inherited n = none

section

variable {t : Files φ} {fd n start : ℕ} {file : φ}

@[simp] theorem insert_self : t.insert fd file fd = some ⟨file, false⟩ := FdTable.put_self

theorem insert_of_ne (h : n ≠ fd) : t.insert fd file n = t n := FdTable.put_of_ne h

@[simp] theorem close_self : t.close fd fd = none := FdTable.close_self

theorem close_of_ne (h : n ≠ fd) : t.close fd n = t n := FdTable.close_of_ne h

theorem setCloexec_of_ne {flag : Bool} (h : n ≠ fd) : t.setCloexec fd flag n = t n :=
  Function.update_of_ne h _ _

theorem inherited_congr {u : Files φ} (h : t n = u n) : t.inherited n = u.inherited n := by
  rw [inherited, inherited, h]

theorem inherited_of_none (h : t n = none) : t.inherited n = none := by
  rw [inherited, h]
  rfl

theorem inherited_of_some (h : t n = some ⟨file, false⟩) : t.inherited n = some file := by
  rw [inherited, h]
  rfl

theorem inherited_close (h : n ≠ fd) : (t.close fd).inherited n = t.inherited n :=
  inherited_congr (close_of_ne h)

theorem inherited_insert (h : n ≠ fd) : (t.insert fd file).inherited n = t.inherited n :=
  inherited_congr (insert_of_ne h)

theorem Sealed.close (h : t.Sealed start) : (t.close fd).Sealed start := by
  intro n hn
  by_cases hfd : n = fd
  · subst hfd
    exact inherited_of_none close_self
  · rw [inherited_close hfd]
    exact h n hn

/-- An open file below the start says nothing about the rest. -/
theorem Sealed.insert (h : t.Sealed start) (hfd : fd < start) : (t.insert fd file).Sealed start := by
  intro n hn
  rw [inherited_insert (by omega)]
  exact h n hn

theorem sealed_closeOnExec (t : Files φ) (start : ℕ) : (t.closeOnExec start).Sealed start := by
  intro n hn
  rw [inherited, closeOnExec, if_neg (by omega)]
  cases t n with
  | none => rfl
  | some e => rfl

theorem closeOnExec_below (h : n < start) : t.closeOnExec start n = t n := if_pos h

theorem dup2_of_some {oldfd newfd : ℕ} {e : Entry φ} (h : t oldfd = some e)
    (hne : oldfd ≠ newfd) : t.dup2 oldfd newfd = t.insert newfd e.file := by
  rw [dup2, if_neg hne, h]

/-- What has just been opened and is closed again has left no trace. -/
theorem close_insert (h : t fd = none) : (t.insert fd file).close fd = t := FdTable.close_put h

theorem closeOnExec_isSome (t : Files φ) (start n : ℕ) :
    (t.closeOnExec start n).isSome = (t n).isSome := by
  by_cases hn : n < start
  · rw [closeOnExec_below hn]
  · rw [closeOnExec, if_neg hn, Option.isSome_map]

end

end Files

theorem FdTable.Packed.insert {t : Files φ} {k : ℕ} {file : φ} (h : t.Packed k) :
    (t.insert k file).Packed (k + 1) := h.put

end HasherPriv.Foundations.OpenFiles
