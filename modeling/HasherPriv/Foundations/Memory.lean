/- GID: HasherPriv/Foundations/Memory
   layer: library
   source: none
   digest: Checked accesses to a block of memory, and loops that move a position over it. -/

import Mathlib.Data.List.Basic
import Mathlib.Tactic

set_option autoImplicit false
set_option relaxedAutoImplicit false

namespace HasherPriv.Foundations.Memory

variable {α : Type}

/-! Accesses. `none` is an access outside the block; `m[i]?` reads one element. -/

/-- `n` elements from `i` on. -/
def slice (m : List α) (i n : ℕ) : Option (List α) :=
  if i + n ≤ m.length then some ((m.drop i).take n) else none

/-- Overwrite from `i` on. -/
def store (m : List α) (i : ℕ) (d : List α) : Option (List α) :=
  if i + d.length ≤ m.length then some (m.take i ++ d ++ m.drop (i + d.length)) else none

theorem slice_eq {m : List α} {i n : ℕ} (h : i + n ≤ m.length) :
    slice m i n = some ((m.drop i).take n) := if_pos h

theorem store_eq {m : List α} {i : ℕ} {d : List α} (h : i + d.length ≤ m.length) :
    store m i d = some (m.take i ++ d ++ m.drop (i + d.length)) := if_pos h

theorem store_length {m m' : List α} {i : ℕ} {d : List α} (h : store m i d = some m') :
    m'.length = m.length := by
  unfold store at h
  split_ifs at h with hle
  obtain rfl := Option.some.inj h
  simp only [List.length_append, List.length_take, List.length_drop]
  omega

/-- Up to the end of what is written. -/
theorem store_take {m m' : List α} {i : ℕ} {d : List α} (h : store m i d = some m') :
    m'.take (i + d.length) = m.take i ++ d := by
  unfold store at h
  split_ifs at h with hle
  obtain rfl := Option.some.inj h
  apply List.take_left'
  rw [List.length_append, List.length_take]
  omega

/-- What is behind it stays. -/
theorem store_drop {m m' : List α} {i j : ℕ} {d : List α} (h : store m i d = some m')
    (hj : i + d.length ≤ j) : m'.drop j = m.drop j := by
  unfold store at h
  split_ifs at h with hle
  obtain rfl := Option.some.inj h
  obtain ⟨k, rfl⟩ := Nat.exists_eq_add_of_le hj
  have hfront : (m.take i ++ d).length = i + d.length := by
    rw [List.length_append, List.length_take]
    omega
  rw [← List.drop_drop, List.drop_left' hfront, List.drop_drop]

/-- The first position from `i` on where `p` holds, looking at one element after the other. -/
def seek (p : α → Bool) (m : List α) (i : ℕ) : Option ℕ := ((m.drop i).findIdx? p).map (i + ·)

/-- The search ends inside the block where there is something to find. -/
theorem seek_eq {p : α → Bool} {m : List α} {i : ℕ} (h : ∃ x ∈ m.drop i, p x = true) :
    seek p m i = some (i + (m.drop i).findIdx p) := by
  rw [seek, List.findIdx?_eq_some_of_exists h, Option.map_some]

/-- What a reallocation makes of a block: what is behind the old part is arbitrary. -/
def Reallocated (old : List α) (size : ℕ) (new : List α) : Prop :=
  new.length = size ∧ new.take (min old.length size) = old.take (min old.length size)

/-- A block that grows keeps its content. -/
theorem Reallocated.take_eq {old new : List α} {size : ℕ} (h : Reallocated old size new)
    (hle : old.length ≤ size) : new.take old.length = old := by
  have htake := h.2
  rw [Nat.min_eq_left hle, List.take_length] at htake
  exact htake

/-! Loops. -/

section Loops

variable (p : α → Bool)

/-- `while (p (m[i])) ++i;` -/
def advance (m : List α) : ℕ → ℕ → Option ℕ
  | 0, _ => none
  | fuel + 1, i => do if p (← m[i]?) then advance m fuel (i + 1) else some i

/-- `while (i < hi && p (m[i])) ++i;` -/
def advanceTo (m : List α) (hi : ℕ) : ℕ → ℕ → Option ℕ
  | 0, _ => none
  | fuel + 1, i =>
      if i < hi then do if p (← m[i]?) then advanceTo m hi fuel (i + 1) else some i
      else some i

/-- `while (i > lo && p (m[i - 1])) --i;` -/
def retreat (m : List α) (lo : ℕ) : ℕ → Option ℕ
  | 0 => some 0
  | i + 1 =>
      if lo < i + 1 then do if p (← m[i]?) then retreat m lo i else some (i + 1)
      else some (i + 1)

end Loops

/-! A block in parts. -/

section Parts

variable {p : α → Bool} {front rest : List α} {x : α} (pre : List α)

theorem getElem?_middle (pre rest : List α) (x : α) : (pre ++ x :: rest)[pre.length]? = some x := by
  rw [List.getElem?_append_right (Nat.le_refl _), Nat.sub_self]
  rfl

theorem store_middle {mid d : List α} (h : d.length = mid.length) :
    store (pre ++ mid ++ rest) pre.length d = some (pre ++ d ++ rest) := by
  have hfits : pre.length + d.length ≤ (pre ++ mid ++ rest).length := by
    simp only [List.length_append]
    omega
  have hback : (pre ++ mid).length = pre.length + d.length := by
    rw [List.length_append, h]
  have htake : (pre ++ mid ++ rest).take pre.length = pre := by
    rw [List.append_assoc, List.take_left]
  rw [store_eq hfits, htake, List.drop_left' hback]

theorem seek_middle (hfront : ∀ y ∈ front, p y = false) (hx : p x = true) :
    seek p (pre ++ front ++ x :: rest) pre.length = some (pre.length + front.length) := by
  have hdrop : (pre ++ front ++ x :: rest).drop pre.length = front ++ x :: rest := by
    rw [List.append_assoc, List.drop_left]
  have hmem : ∃ y ∈ (pre ++ front ++ x :: rest).drop pre.length, p y = true := by
    rw [hdrop]
    exact ⟨x, List.mem_append_right _ List.mem_cons_self, hx⟩
  have hnone : front.findIdx p = front.length := List.findIdx_eq_length.mpr hfront
  rw [seek_eq hmem, hdrop, List.findIdx_append, hnone, if_neg (Nat.lt_irrefl _),
    List.findIdx_cons, hx, cond_true, Nat.zero_add]

theorem advance_middle {fuel : ℕ} (hfront : ∀ y ∈ front, p y = true) (hx : p x = false)
    (hfuel : front.length < fuel) :
    advance p (pre ++ front ++ x :: rest) fuel pre.length = some (pre.length + front.length) := by
  induction front generalizing pre fuel with
  | nil =>
      obtain ⟨fuel, rfl⟩ := Nat.exists_eq_succ_of_ne_zero (Nat.ne_of_gt hfuel)
      rw [List.append_nil, advance, getElem?_middle]
      simp [hx]
  | cons y front ih =>
      obtain ⟨fuel, rfl⟩ := Nat.exists_eq_succ_of_ne_zero (Nat.ne_of_gt (Nat.zero_lt_of_lt hfuel))
      obtain ⟨hy, hfront⟩ := List.forall_mem_cons.mp hfront
      have hat : (pre ++ y :: front ++ x :: rest)[pre.length]? = some y := by
        rw [List.append_assoc, List.cons_append, getElem?_middle]
      have hrest := ih (pre ++ [y]) hfront (Nat.lt_of_succ_lt_succ hfuel)
      rw [List.length_append, List.length_singleton, List.append_assoc pre, List.singleton_append,
        Nat.add_right_comm] at hrest
      rw [advance, hat]
      simp only [Option.bind_eq_bind, Option.bind_some, hy, if_true]
      exact hrest

theorem advanceTo_middle {hi fuel : ℕ} (hfront : ∀ y ∈ front, p y = true)
    (hstop : hi = pre.length + front.length ∨
      pre.length + front.length < hi ∧ ∃ x t, rest = x :: t ∧ p x = false)
    (hfuel : front.length < fuel) :
    advanceTo p (pre ++ front ++ rest) hi fuel pre.length = some (pre.length + front.length) := by
  induction front generalizing pre fuel with
  | nil =>
      obtain ⟨fuel, rfl⟩ := Nat.exists_eq_succ_of_ne_zero (Nat.ne_of_gt hfuel)
      rw [List.append_nil, List.length_nil, Nat.add_zero] at *
      rcases hstop with rfl | ⟨hlt, x, t, rfl, hx⟩
      · rw [advanceTo, if_neg (Nat.lt_irrefl _)]
      · rw [advanceTo, if_pos hlt, getElem?_middle]
        simp [hx]
  | cons y front ih =>
      obtain ⟨fuel, rfl⟩ := Nat.exists_eq_succ_of_ne_zero (Nat.ne_of_gt (Nat.zero_lt_of_lt hfuel))
      obtain ⟨hy, hfront⟩ := List.forall_mem_cons.mp hfront
      have hat : (pre ++ y :: front ++ rest)[pre.length]? = some y := by
        rw [List.append_assoc, List.cons_append, getElem?_middle]
      have hlt : pre.length < hi := by
        rw [List.length_cons] at hstop
        rcases hstop with rfl | ⟨hlt, -⟩
        · omega
        · omega
      have hend : (pre ++ [y]).length + front.length = pre.length + (y :: front).length := by
        simp only [List.length_append, List.length_cons, List.length_nil]
        omega
      have hrest := ih (pre ++ [y]) hfront (by rw [hend]; exact hstop)
        (Nat.lt_of_succ_lt_succ hfuel)
      rw [hend, List.length_append, List.length_singleton, List.append_assoc pre,
        List.singleton_append] at hrest
      rw [advanceTo, if_pos hlt, hat]
      simp only [Option.bind_eq_bind, Option.bind_some, hy, if_true]
      exact hrest

/-- The parts are given from the end that the loop starts at. -/
theorem retreat_middle {back : List α} {lo : ℕ} (hback : ∀ y ∈ back, p y = true)
    (hstop : lo = pre.length ∨ lo < pre.length ∧ ∀ y ∈ pre.getLast?, p y = false) :
    retreat p (pre ++ back ++ rest) lo (pre.length + back.length) = some pre.length := by
  induction back using List.reverseRecOn generalizing rest with
  | nil =>
      rw [List.append_nil, List.length_nil, Nat.add_zero]
      rcases List.eq_nil_or_concat pre with rfl | ⟨pre, x, rfl⟩
      · rfl
      · have hat : (pre ++ [x] ++ rest)[pre.length]? = some x := by
          rw [List.append_assoc, List.singleton_append, getElem?_middle]
        rw [List.concat_eq_append] at *
        rw [List.length_append, List.length_singleton] at *
        rcases hstop with rfl | ⟨hlt, hx⟩
        · rw [retreat, if_neg (Nat.lt_irrefl _)]
        · have hlast : p x = false := hx x (by rw [List.getLast?_append]; rfl)
          rw [retreat, if_pos hlt, hat]
          simp [hlast]
  | append_singleton back y ih =>
      have hy : p y = true := hback y (List.mem_append_right _ (List.mem_singleton_self y))
      have hlt : lo < pre.length + back.length + 1 := by
        rcases hstop with rfl | ⟨hlt, -⟩
        · omega
        · omega
      have hat : (pre ++ (back ++ [y]) ++ rest)[pre.length + back.length]? = some y := by
        rw [← List.append_assoc, List.append_assoc _ [y], List.singleton_append,
          ← List.length_append, getElem?_middle]
      have hrest := @ih (y :: rest) fun z hz => hback z (List.mem_append_left _ hz)
      rw [List.length_append, List.length_singleton, ← Nat.add_assoc, retreat, if_pos hlt, hat]
      simp only [Option.bind_eq_bind, Option.bind_some, hy, if_true]
      rw [← List.append_assoc, List.append_assoc _ [y], List.singleton_append]
      exact hrest

end Parts

end HasherPriv.Foundations.Memory
