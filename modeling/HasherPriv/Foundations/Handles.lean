/- GID: HasherPriv/Foundations/Handles
   layer: library
   source: none
   digest: Tables of numbered handles, who owns which of them, and what may happen to the others. -/

import HasherPriv.Foundations.OpenFiles
import Mathlib.Data.List.Nodup
import Mathlib.Order.Nat

set_option autoImplicit false
set_option relaxedAutoImplicit false

namespace HasherPriv.Foundations.Handles

open Foundations.OpenFiles (FdTable)

/-- What each handle refers to. Files are numbered in the order in which they are opened, and a
number of a file is never used again. -/
structure Table where
  files : FdTable ℕ
  next : ℕ
  fresh : ∀ n f, files n = some f → f < next

def Table.close (t : Table) (n : ℕ) : Table where
  files := t.files.close n
  next := t.next
  fresh := by
    intro m f hm
    by_cases hmn : m = n
    · rw [hmn, FdTable.close_self] at hm
      cases hm
    · rw [FdTable.close_of_ne hmn] at hm
      exact t.fresh m f hm

def Table.opened (t : Table) (n : ℕ) : Table where
  files := t.files.put n t.next
  next := t.next + 1
  fresh := by
    intro m f hm
    by_cases hmn : m = n
    · rw [hmn, FdTable.put_self] at hm
      obtain rfl := Option.some.inj hm
      exact Nat.lt_succ_self _
    · rw [FdTable.put_of_ne hmn] at hm
      exact (t.fresh m f hm).trans (Nat.lt_succ_self _)

/-- The table without all other handles. -/
def Table.only (t : Table) (a : List ℕ) : Table where
  files := fun n => if n ∈ a then t.files n else none
  next := t.next
  fresh := by
    intro n f h
    split_ifs at h
    exact t.fresh n f h

section Updates

variable {t : Table} {n m : ℕ}

@[simp] theorem Table.close_self : (t.close n).files n = none := FdTable.close_self

theorem Table.close_of_ne (h : m ≠ n) : (t.close n).files m = t.files m :=
  FdTable.close_of_ne h

@[simp] theorem Table.opened_self : (t.opened n).files n = some t.next :=
  FdTable.put_self

theorem Table.opened_of_ne (h : m ≠ n) : (t.opened n).files m = t.files m :=
  FdTable.put_of_ne h

end Updates

/-! Time. A handle that once has lost its file does not get it back. -/

/-- A later table: what is in it was there before, or is a new file. -/
def Later (t t' : Table) : Prop :=
  t.next ≤ t'.next ∧ ∀ n f, t'.files n = some f → t.files n = some f ∨ t.next ≤ f

theorem Later.refl (t : Table) : Later t t := ⟨le_rfl, fun _ _ h => .inl h⟩

theorem Later.trans {t u v : Table} (h : Later t u) (h' : Later u v) : Later t v := by
  refine ⟨h.1.trans h'.1, fun n f hn => ?_⟩
  rcases h'.2 n f hn with hu | hnew
  · exact h.2 n f hu
  · exact .inr (h.1.trans hnew)

theorem later_close (t : Table) (n : ℕ) : Later t (t.close n) := by
  refine ⟨le_rfl, fun m f hm => ?_⟩
  by_cases hmn : m = n
  · rw [hmn, Table.close_self] at hm
    cases hm
  · rw [Table.close_of_ne hmn] at hm
    exact .inl hm

theorem later_opened (t : Table) (n : ℕ) : Later t (t.opened n) := by
  refine ⟨Nat.le_succ _, fun m f hm => ?_⟩
  by_cases hmn : m = n
  · rw [hmn, Table.opened_self] at hm
    exact .inr (Option.some.inj hm).le
  · rw [Table.opened_of_ne hmn] at hm
    exact .inl hm

/-- A handle with the same file at two moments had it all the time in between. -/
theorem Later.between {t u v : Table} (h : Later t u) (h' : Later u v) {n f : ℕ}
    (ht : t.files n = some f) (hv : v.files n = some f) : u.files n = some f := by
  rcases h'.2 n f hv with hu | hnew
  · exact hu
  · have hold := t.fresh n f ht
    have hnext := h.1
    omega

/-- New files behind handles that were free; the others stay. -/
structure Grows (t t' : Table) : Prop where
  next : t.next ≤ t'.next
  keeps : ∀ n f, t.files n = some f → t'.files n = some f
  fresh : ∀ n f, t.files n = none → t'.files n = some f → t.next ≤ f

theorem Grows.later {t t' : Table} (h : Grows t t') : Later t t' := by
  refine ⟨h.next, fun n f hn => ?_⟩
  cases ht : t.files n with
  | none => exact .inr (h.fresh n f ht hn)
  | some f' => exact .inl ((h.keeps n f' ht).symm.trans hn)

theorem grows_opened {t : Table} {n : ℕ} (h : t.files n = none) : Grows t (t.opened n) where
  next := Nat.le_succ _
  keeps := fun m f hm => by
    have hmn : m ≠ n := by
      rintro rfl
      rw [h] at hm
      cases hm
    rw [Table.opened_of_ne hmn]
    exact hm
  fresh := fun m f hm hm' => by
    by_cases hmn : m = n
    · rw [hmn, Table.opened_self] at hm'
      exact (Option.some.inj hm').le
    · rw [Table.opened_of_ne hmn, hm] at hm'
      cases hm'

/-! Ownership. -/

/-- Handles that are open, each owned once. -/
def Owns (t : Table) (a : List ℕ) : Prop := a.Nodup ∧ ∀ n ∈ a, (t.files n).isSome

section Owns

variable {t : Table} {a b : List ℕ}

theorem Owns.perm (h : Owns t a) (hp : a.Perm b) : Owns t b :=
  ⟨hp.nodup_iff.mp h.1, fun n hn => h.2 n (hp.mem_iff.mpr hn)⟩

theorem Owns.sublist (h : Owns t a) (hs : b.Sublist a) : Owns t b :=
  ⟨h.1.sublist hs, fun n hn => h.2 n (hs.subset hn)⟩

theorem Owns.left (h : Owns t (a ++ b)) : Owns t a := h.sublist (List.sublist_append_left a b)

theorem Owns.right (h : Owns t (a ++ b)) : Owns t b := h.sublist (List.sublist_append_right a b)

theorem Owns.notMem_left (h : Owns t (a ++ b)) {n : ℕ} (hn : n ∈ b) : n ∉ a := fun ha =>
  (List.disjoint_of_nodup_append h.1) ha hn

end Owns

/-- A part that owns the handles `a` owns the handles `a'` afterwards: it may have closed its own
and opened free ones, and nobody else can tell. -/
structure Moves (t t' : Table) (a a' : List ℕ) : Prop where
  others : ∀ n ∉ a, (t.files n).isSome → t'.files n = t.files n
  free : ∀ n ∈ a', n ∈ a ∨ t.files n = none
  owns : Owns t a → Owns t' a'

section Moves

variable {t t' t'' : Table} {a a' a'' b b' f : List ℕ}

theorem Moves.refl (t : Table) (a : List ℕ) : Moves t t a a :=
  ⟨fun _ _ _ => rfl, fun _ hn => .inl hn, fun h => h⟩

/-- To forget handles is to leave them open. -/
theorem moves_sublist (t : Table) (hs : a'.Sublist a) : Moves t t a a' :=
  ⟨fun _ _ _ => rfl, fun _ hn => .inl (hs.subset hn), fun h => h.sublist hs⟩

/-- Of what is not its own, a part takes only what is free. -/
theorem Moves.spares (h : Moves t t' a a') {n : ℕ} (hn : n ∉ a) (hopen : (t.files n).isSome) :
    n ∉ a' := by
  intro hn'
  rcases h.free n hn' with ha | hfree
  · exact hn ha
  · rw [hfree] at hopen
    cases hopen

theorem Moves.trans (h : Moves t t' a a') (h' : Moves t' t'' a' a'') : Moves t t'' a a'' where
  others := fun n hn hopen => by
    have hsame := h.others n hn hopen
    have hspared := h.spares hn hopen
    rw [h'.others n hspared (by rw [hsame]; exact hopen), hsame]
  free := fun n hn => by
    by_cases ha : n ∈ a
    · exact .inl ha
    · refine .inr (Option.not_isSome_iff_eq_none.mp fun hopen => ?_)
      have hsame := h.others n ha hopen
      have hspared := h.spares ha hopen
      exact h'.spares hspared (by rw [hsame]; exact hopen) hn
  owns := fun ha => h'.owns (h.owns ha)

/-- The frame rule. -/
theorem Moves.frame (h : Moves t t' a a') (f : List ℕ) : Moves t t' (a ++ f) (a' ++ f) where
  others := fun n hn hopen => h.others n (fun ha => hn (List.mem_append_left f ha)) hopen
  free := fun n hn => by
    rcases List.mem_append.mp hn with ha' | hf
    · exact (h.free n ha').imp_left (List.mem_append_left f)
    · exact .inl (List.mem_append_right a hf)
  owns := fun howns => by
    have hother : ∀ n ∈ f, n ∉ a ∧ (t.files n).isSome := fun n hn =>
      ⟨howns.notMem_left hn, howns.right.2 n hn⟩
    have howns' := h.owns howns.left
    refine ⟨List.nodup_append.mpr ⟨howns'.1, howns.right.1, ?_⟩, fun n hn => ?_⟩
    · rintro n hn _ hf rfl
      obtain ⟨ha, hopen⟩ := hother n hf
      exact h.spares ha hopen hn
    · rcases List.mem_append.mp hn with ha' | hf
      · exact howns'.2 n ha'
      · obtain ⟨ha, hopen⟩ := hother n hf
        rw [h.others n ha hopen]
        exact hopen

theorem Moves.perm (h : Moves t t' a a') (hp : a.Perm b) (hp' : a'.Perm b') :
    Moves t t' b b' where
  others := fun n hn hopen => h.others n (fun ha => hn (hp.mem_iff.mp ha)) hopen
  free := fun n hn => (h.free n (hp'.mem_iff.mpr hn)).imp_left hp.mem_iff.mp
  owns := fun hb => (h.owns (hb.perm hp.symm)).perm hp'

theorem Moves.frame_left (h : Moves t t' a a') (f : List ℕ) : Moves t t' (f ++ a) (f ++ a') :=
  (h.frame f).perm List.perm_append_comm List.perm_append_comm

theorem moves_close (t : Table) (n : ℕ) : Moves t (t.close n) [n] [] where
  others := fun _ hm _ => Table.close_of_ne fun hmn => hm (List.mem_singleton.mpr hmn)
  free := fun _ hm => (List.not_mem_nil hm).elim
  owns := fun _ => ⟨List.nodup_nil, fun _ hm => (List.not_mem_nil hm).elim⟩

theorem Grows.moves (h : Grows t t') {n : ℕ} (hfree : t.files n = none)
    (hopen : (t'.files n).isSome) : Moves t t' [] [n] where
  others := fun m _ hm => by
    obtain ⟨f, hf⟩ := Option.isSome_iff_exists.mp hm
    rw [hf, h.keeps m f hf]
  free := fun m hm => by
    rw [List.mem_singleton.mp hm]
    exact .inr hfree
  owns := fun _ => by
    refine ⟨List.nodup_singleton n, fun m hm => ?_⟩
    rw [List.mem_singleton.mp hm]
    exact hopen

theorem Grows.moves_nil (h : Grows t t') : Moves t t' [] [] where
  others := fun m _ hm => by
    obtain ⟨f, hf⟩ := Option.isSome_iff_exists.mp hm
    rw [hf, h.keeps m f hf]
  free := fun _ hm => (List.not_mem_nil hm).elim
  owns := fun _ => ⟨List.nodup_nil, fun _ hm => (List.not_mem_nil hm).elim⟩

theorem moves_opened {n : ℕ} (h : t.files n = none) : Moves t (t.opened n) [] [n] :=
  (grows_opened h).moves h (by rw [Table.opened_self]; rfl)

end Moves

/-! Handles that have kept their files since an earlier moment. -/

/-- These handles are open with the files that they had in `t₀`. -/
def Held (t₀ t : Table) (a : List ℕ) : Prop :=
  ∀ n ∈ a, ∃ f, t₀.files n = some f ∧ t.files n = some f

section Held

variable {t₀ t t' : Table} {a a' b : List ℕ}

theorem Owns.held (h : Owns t a) : Held t t a := fun n hn => by
  obtain ⟨f, hf⟩ := Option.isSome_iff_exists.mp (h.2 n hn)
  exact ⟨f, hf, hf⟩

theorem Owns.held_only (h : Owns t a) : Held (t.only a) t a := by
  intro n hn
  obtain ⟨f, hf⟩ := Option.isSome_iff_exists.mp (h.2 n hn)
  exact ⟨f, (if_pos hn).trans hf, hf⟩

theorem mem_of_only {n f : ℕ} (h : (t.only a).files n = some f) : n ∈ a := by
  by_contra hn
  have hnone : (t.only a).files n = none := if_neg hn
  rw [hnone] at h
  cases h

theorem Held.subset (h : Held t₀ t a) (hs : b ⊆ a) : Held t₀ t b := fun n hn => h n (hs hn)

/-- What one part does, another part does not notice. -/
theorem Held.moves (h : Held t₀ t b) (hm : Moves t t' a a') (hdisjoint : ∀ n ∈ b, n ∉ a) :
    Held t₀ t' b := by
  intro n hn
  obtain ⟨f, h₀, hf⟩ := h n hn
  refine ⟨f, h₀, ?_⟩
  rw [hm.others n (hdisjoint n hn) (by rw [hf]; rfl)]
  exact hf

end Held

end HasherPriv.Foundations.Handles
