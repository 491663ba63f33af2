/- GID: HasherPriv/Foundations/Ranks
   layer: library
   source: none
   digest: Counting below a bound, what exchanging two numbers keeps, and members chosen by rank. -/

import Mathlib.Data.Finset.Card
import Mathlib.Data.Nat.Count
import Mathlib.Logic.Equiv.Basic

set_option autoImplicit false
set_option relaxedAutoImplicit false

namespace HasherPriv.Foundations.Ranks

variable {p q : ℕ → Prop} [DecidablePred p] [DecidablePred q]

/-- The first numbers. -/
theorem count_of_lt_iff {n c : ℕ} (h : ∀ k, p k ↔ k < n) (hn : n ≤ c) : Nat.count p c = n := by
  have hfirst : Nat.count p n = n := by
    apply Nat.count_iff_forall.mpr
    intro k hk
    exact (h k).mpr hk
  have hrest : Nat.count (fun k => p (n + k)) (c - n) = 0 := by
    apply Nat.count_iff_forall_not.mpr
    intro k _ hk
    have hlt := (h (n + k)).mp hk
    omega
  have hsum := Nat.count_add p n (c - n)
  rw [Nat.add_sub_cancel' hn, hfirst, hrest] at hsum
  exact hsum

/-- To exchange two numbers below the bound does not change how many there are. -/
theorem count_of_exchanged {n x y : ℕ} (hx : x < n) (hy : y < n) (hpx : q x ↔ p y)
    (hpy : q y ↔ p x) (hother : ∀ k, k ≠ x → k ≠ y → (q k ↔ p k)) :
    Nat.count q n = Nat.count p n := by
  have hbelow : ∀ k, Equiv.swap x y k < n ↔ k < n := by
    intro k
    by_cases hkx : k = x
    · rw [hkx, Equiv.swap_apply_left]
      exact ⟨fun _ => hx, fun _ => hy⟩
    · by_cases hky : k = y
      · rw [hky, Equiv.swap_apply_right]
        exact ⟨fun _ => hy, fun _ => hx⟩
      · rw [Equiv.swap_apply_of_ne_of_ne hkx hky]
  have hmember : ∀ k, p (Equiv.swap x y k) ↔ q k := by
    intro k
    by_cases hkx : k = x
    · rw [hkx, Equiv.swap_apply_left]
      exact hpx.symm
    · by_cases hky : k = y
      · rw [hky, Equiv.swap_apply_right]
        exact hpy.symm
      · rw [Equiv.swap_apply_of_ne_of_ne hkx hky]
        exact (hother k hkx hky).symm
  rw [Nat.count_eq_card_filter_range, Nat.count_eq_card_filter_range]
  refine Finset.card_bijective (Equiv.swap x y) (Equiv.swap x y).bijective ?_
  intro k
  rw [Finset.mem_filter, Finset.mem_filter, Finset.mem_range, Finset.mem_range, hbelow, hmember]

/-- The members of `p` whose rank among them is in `q`. -/
def Chosen (p q : ℕ → Prop) [DecidablePred p] (k : ℕ) : Prop := p k ∧ q (Nat.count p k)

instance : DecidablePred (Chosen p q) := fun k => inferInstanceAs (Decidable (p k ∧ _))

/-- As many are chosen as there are ranks to choose. -/
theorem count_chosen (n : ℕ) : Nat.count (Chosen p q) n = Nat.count q (Nat.count p n) := by
  induction n with
  | zero => rfl
  | succ n ih =>
      rw [Nat.count_succ, Nat.count_succ, ih]
      by_cases hn : p n
      · rw [if_pos hn, Nat.count_succ]
        have hiff : Chosen p q n ↔ q (Nat.count p n) := and_iff_right hn
        rw [if_congr hiff rfl rfl]
      · have hnot : ¬ Chosen p q n := fun h => hn h.1
        rw [if_neg hn, if_neg hnot]
        rfl

/-- Below a bound that has been reached, there are no more members. -/
theorem not_of_count_le {k m n : ℕ} (h : Nat.count p n ≤ Nat.count p m) (hm : m ≤ k) (hk : k < n) :
    ¬ p k := by
  intro hp
  have hless := Nat.count_strict_mono hp hk
  have hmono := Nat.count_monotone p hm
  omega

end HasherPriv.Foundations.Ranks
