/- GID: HasherPriv/Foundations/LastWrite
   layer: library
   source: none
   digest: Logs of keyed writes: the last write to each key, and what a state keeps of a log. -/

import Mathlib.Data.List.Basic
import Mathlib.Logic.Function.Basic
import Mathlib.Tactic.SplitIfs

set_option autoImplicit false
set_option relaxedAutoImplicit false

namespace HasherPriv.Foundations.LastWrite

variable {α β κ : Type} [DecidableEq κ] (key : α → κ) (val : α → β)

/-- The value of the last write to each key. -/
def lastValue (log : List α) (k : κ) : Option β :=
  ((log.filter (key · = k)).getLast?).map val

theorem lastValue_append (xs ys : List α) (k : κ) :
    lastValue key val (xs ++ ys) k =
      (lastValue key val ys k).or (lastValue key val xs k) := by
  rw [lastValue, List.filter_append, List.getLast?_append, Option.map_or]
  rfl

theorem lastValue_cons (a : α) (log : List α) (k : κ) :
    lastValue key val (a :: log) k =
      (lastValue key val log k).or (if key a = k then some (val a) else none) := by
  rw [← List.singleton_append, lastValue_append]
  congr 1
  rw [lastValue]
  split_ifs with h <;> simp [h]

/-- Neighbouring writes to different keys can be swapped. -/
theorem lastValue_swap {a b : α} (h : key a ≠ key b) (xs ys : List α) :
    lastValue key val (xs ++ a :: b :: ys) = lastValue key val (xs ++ b :: a :: ys) := by
  funext k
  have hpair : (a :: b :: ys).filter (key · = k) = (b :: a :: ys).filter (key · = k) := by
    by_cases ha : key a = k
    · have hb : key b ≠ k := fun hb => h (ha.trans hb.symm)
      simp [ha, hb]
    · simp [ha, List.filter_cons]
  rw [lastValue, lastValue, List.filter_append, List.filter_append, hpair]

/-- A write that is followed by one to its key leaves no trace. -/
theorem lastValue_overwritten {a : α} {ys : List α} (h : ∃ b ∈ ys, key b = key a)
    (xs : List α) : lastValue key val (xs ++ a :: ys) = lastValue key val (xs ++ ys) := by
  funext k
  rw [lastValue_append, lastValue_append, lastValue_cons]
  split_ifs with hk
  · obtain ⟨b, hb, hkey⟩ := h
    have hsome : (lastValue key val ys k).isSome := by
      have hmem : b ∈ ys.filter (key · = k) := List.mem_filter.mpr ⟨hb, by simp [hkey, hk]⟩
      rw [lastValue, Option.isSome_map, List.getLast?_isSome]
      exact List.ne_nil_of_mem hmem
    obtain ⟨v, hv⟩ := Option.isSome_iff_exists.mp hsome
    simp [hv]
  · rw [Option.or_none]

/-- What each step of a fallible run does to the last values, the whole run does. -/
theorem foldlM_lastValue {σ ε : Type} {R : (κ → Option β) → σ → Prop} {f : σ → α → Except ε σ}
    (step : ∀ {last s a t}, R last s → f s a = .ok t →
      R (Function.update last (key a) (some (val a))) t)
    {last : κ → Option β} {log : List α} {s t : σ} (hs : R last s)
    (h : log.foldlM f s = .ok t) :
    R (fun k => (lastValue key val log k).or (last k)) t := by
  induction log generalizing last s with
  | nil =>
      obtain rfl := Except.ok.inj h
      exact hs
  | cons a log ih =>
      rw [List.foldlM_cons] at h
      cases ha : f s a with
      | error e =>
          rw [ha] at h
          cases h
      | ok s' =>
          rw [ha] at h
          have hrest := ih (step hs ha) h
          convert hrest using 2 with k
          rw [lastValue_cons, Option.or_assoc, Function.update_apply]
          by_cases hk : k = key a
          · simp [hk]
          · simp [hk, Ne.symm hk]

end HasherPriv.Foundations.LastWrite
