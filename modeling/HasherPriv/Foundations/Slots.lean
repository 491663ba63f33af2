/- GID: HasherPriv/Foundations/Slots
   layer: library
   source: none
   digest: Tables with slots that are reused: the first free one is filled, a used one is emptied. -/

import Mathlib.Data.List.Perm.Basic
import Mathlib.Tactic

set_option autoImplicit false
set_option relaxedAutoImplicit false

namespace HasherPriv.Foundations.Slots

variable {α : Type} (free : α → Bool)

/-- What is in the slots that are not free. -/
def used (l : List α) : List α := l.filter fun b => !free b

/-- A linear search for a free slot; without one the table is extended. -/
def fillFirst (a : α) : List α → List α
  | [] => [a]
  | b :: l => if free b then a :: l else b :: fillFirst a l

/-- A table that has become longer had no free slot. -/
def Extended (l l' : List α) : Prop := l.length < l'.length → ∀ b ∈ l, free b = false

theorem extended_of_length {l l' : List α} (h : l'.length = l.length) : Extended free l l' := by
  intro hlt
  rw [h] at hlt
  exact absurd hlt (Nat.lt_irrefl _)

section Used

variable {free} {a b e : α} {l : List α} {i : ℕ}

theorem used_cons_free (h : free b = true) : used free (b :: l) = used free l := by
  apply List.filter_cons_of_neg
  rw [h]
  exact Bool.false_ne_true

theorem used_cons (h : free b = false) : used free (b :: l) = b :: used free l := by
  apply List.filter_cons_of_pos
  rw [h]
  rfl

theorem mem_used : a ∈ used free l ↔ a ∈ l ∧ free a = false := by
  rw [used, List.mem_filter, Bool.not_eq_true']

theorem used_length_le : (used free l).length ≤ l.length := List.length_filter_le _ l

/-! Filling. -/

theorem used_fillFirst (ha : free a = false) :
    (used free (fillFirst free a l)).Perm (a :: used free l) := by
  induction l with
  | nil =>
      rw [fillFirst, used_cons ha]
  | cons b l ih =>
      rw [fillFirst]
      by_cases hb : free b = true
      · rw [if_pos hb, used_cons ha, used_cons_free hb]
      · have hb' : free b = false := Bool.eq_false_iff.mpr hb
        rw [if_neg hb, used_cons hb', used_cons hb']
        exact (ih.cons b).trans (List.Perm.swap a b _)

theorem mem_fillFirst (h : b ∈ fillFirst free a l) : b = a ∨ b ∈ l := by
  induction l with
  | nil => exact Or.inl (List.mem_singleton.mp h)
  | cons c l ih =>
      rw [fillFirst] at h
      by_cases hc : free c = true
      · rw [if_pos hc] at h
        exact (List.mem_cons.mp h).imp_right (List.mem_cons_of_mem c)
      · rw [if_neg hc] at h
        rcases List.mem_cons.mp h with rfl | h
        · exact Or.inr List.mem_cons_self
        · exact (ih h).imp_right (List.mem_cons_of_mem c)

/-- There is just room for the largest number of used slots. -/
theorem fillFirst_length :
    (fillFirst free a l).length = max l.length ((used free l).length + 1) := by
  induction l with
  | nil => rfl
  | cons b l ih =>
      have hle : (used free l).length ≤ l.length := used_length_le
      rw [fillFirst]
      by_cases hb : free b = true
      · rw [if_pos hb, used_cons_free hb, List.length_cons, List.length_cons]
        omega
      · rw [if_neg hb, used_cons (Bool.eq_false_iff.mpr hb), List.length_cons, ih,
          List.length_cons, List.length_cons]
        omega

theorem fillFirst_extends : Extended free l (fillFirst free a l) := by
  intro h
  have hall : used free l = l := by
    apply List.filter_eq_self.mpr
    have hlength : (used free l).length = l.length := by
      have hle : (used free l).length ≤ l.length := used_length_le
      rw [fillFirst_length] at h
      omega
    intro b hb
    exact List.length_filter_eq_length_iff.mp hlength b hb
  intro b hb
  rw [← hall] at hb
  exact (mem_used.mp hb).2

/-! Emptying. -/

theorem mem_replace [DecidableEq α] (h : b ∈ l.replace a e) : b = e ∨ b ∈ l := by
  induction l with
  | nil => cases h
  | cons c l ih =>
      rw [List.replace_cons] at h
      split at h
      · exact (List.mem_cons.mp h).imp_right (List.mem_cons_of_mem c)
      · rcases List.mem_cons.mp h with rfl | h
        · exact Or.inr List.mem_cons_self
        · exact (ih h).imp_right (List.mem_cons_of_mem c)

/-- The first slot with a value is emptied. -/
theorem used_replace [DecidableEq α] (ha : free a = false) (he : free e = true) (h : a ∈ l) :
    used free (l.replace a e) = (used free l).erase a := by
  induction l with
  | nil => cases h
  | cons b l ih =>
      by_cases hab : a = b
      · subst hab
        rw [List.replace_cons_self, used_cons_free he, used_cons ha, List.erase_cons_head]
      · have hmem : a ∈ l := (List.mem_cons.mp h).resolve_left hab
        have hkept : (b :: l).replace a e = b :: l.replace a e := by
          rw [List.replace_cons, beq_false_of_ne hab]
        have hne : (b == a) = false := beq_false_of_ne (Ne.symm hab)
        rw [hkept]
        by_cases hb : free b = true
        · rw [used_cons_free hb, used_cons_free hb, ih hmem]
        · have hb' : free b = false := Bool.eq_false_iff.mpr hb
          rw [used_cons hb', used_cons hb', ih hmem, List.erase_cons_tail]
          rw [hne]
          exact Bool.false_ne_true

theorem used_set (he : free e = true) (hi : l[i]? = some a) (ha : free a = false) :
    (used free l).Perm (a :: used free (l.set i e)) := by
  induction l generalizing i with
  | nil => cases hi
  | cons b l ih =>
      cases i with
      | zero =>
          obtain rfl : b = a := Option.some.inj hi
          rw [List.set_cons_zero, used_cons ha, used_cons_free he]
      | succ i =>
          have hrest := ih hi
          rw [List.set_cons_succ]
          by_cases hb : free b = true
          · rw [used_cons_free hb, used_cons_free hb]
            exact hrest
          · have hb' : free b = false := Bool.eq_false_iff.mpr hb
            rw [used_cons hb', used_cons hb']
            exact (hrest.cons b).trans (List.Perm.swap a b _)

/-! Keys of what is in the slots. -/

/-- Where all keys are different, each stands in one slot. -/
theorem exactly_one {κ : Type} {key : α → κ} {k : κ} (hnodup : ((used free l).map key).Nodup)
    (hk : k ∈ (used free l).map key) : ∃! i : ℕ, ∃ a, l[i]? = some a ∧ free a = false ∧ key a = k := by
  induction l with
  | nil => cases hk
  | cons b l ih =>
      by_cases hb : free b = true
      · rw [used_cons_free hb] at hnodup hk
        obtain ⟨i, ⟨a, hi, ha, hkey⟩, hunique⟩ := ih hnodup hk
        refine ⟨i + 1, ⟨a, hi, ha, hkey⟩, ?_⟩
        rintro j ⟨a', hj, ha', hkey'⟩
        cases j with
        | zero =>
            obtain rfl : b = a' := Option.some.inj hj
            rw [hb] at ha'
            cases ha'
        | succ j => rw [hunique j ⟨a', hj, ha', hkey'⟩]
      · have hb' : free b = false := Bool.eq_false_iff.mpr hb
        rw [used_cons hb', List.map_cons] at hnodup hk
        obtain ⟨hnot, hnodup'⟩ := List.nodup_cons.mp hnodup
        have hfound : ∀ (j : ℕ) (a' : α), l[j]? = some a' → free a' = false →
            key a' ∈ (used free l).map key := by
          intro j a' hj ha'
          exact List.mem_map_of_mem (mem_used.mpr ⟨List.mem_of_getElem? hj, ha'⟩)
        rcases List.mem_cons.mp hk with rfl | hk'
        · refine ⟨0, ⟨b, rfl, hb', rfl⟩, ?_⟩
          rintro j ⟨a', hj, ha', hkey'⟩
          cases j with
          | zero => rfl
          | succ j =>
              apply absurd (hfound j a' hj ha')
              rw [hkey']
              exact hnot
        · obtain ⟨i, ⟨a, hi, ha, hkey⟩, hunique⟩ := ih hnodup' hk'
          refine ⟨i + 1, ⟨a, hi, ha, hkey⟩, ?_⟩
          rintro j ⟨a', hj, ha', hkey'⟩
          cases j with
          | zero =>
              obtain rfl : b = a' := Option.some.inj hj
              rw [hkey'] at hnot
              exact absurd hk' hnot
          | succ j => rw [hunique j ⟨a', hj, ha', hkey'⟩]

end Used

end HasherPriv.Foundations.Slots
