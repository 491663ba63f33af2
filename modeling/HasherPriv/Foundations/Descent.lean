/- GID: HasherPriv/Foundations/Descent
   layer: library
   source: none
   digest: Labelled runs, invariants of runs, and random descent for commuting steps. -/

import Mathlib.Logic.Relation
import Mathlib.Data.List.Basic

set_option autoImplicit false
set_option relaxedAutoImplicit false

namespace HasherPriv.Foundations.Descent

universe u v

variable {S : Type u} {L : Type v}

/-- Finite runs of a labelled step relation. -/
inductive Run (step : S → L → S → Prop) : S → List L → S → Prop
  | nil (s : S) : Run step s [] s
  | cons {s t u : S} {l : L} {ls : List L} (h : step s l t) (hs : Run step t ls u) :
      Run step s (l :: ls) u

variable {step : S → L → S → Prop}

theorem Run.append {s t u : S} {ls ms : List L} (h : Run step s ls t) (h' : Run step t ms u) :
    Run step s (ls ++ ms) u := by
  induction h with
  | nil => exact h'
  | cons hs _ ih => exact .cons hs (ih h')

/-- What every step preserves holds after every run. -/
theorem Run.invariant {P : S → Prop} (preserve : ∀ ⦃s l t⦄, P s → step s l t → P t)
    {s t : S} {ls : List L} (h : Run step s ls t) (hs : P s) : P t := by
  induction h with
  | nil => exact hs
  | cons hstep _ ih => exact ih (preserve hs hstep)

/-- The same for what is also about the labels so far. -/
theorem Run.history {P : List L → S → Prop}
    (preserve : ∀ ⦃ms s l t⦄, P ms s → step s l t → P (ms ++ [l]) t) {s t : S} {ms ls : List L}
    (h : Run step s ls t) (hs : P ms s) : P (ms ++ ls) t := by
  induction h generalizing ms with
  | nil =>
      rw [List.append_nil]
      exact hs
  | cons hstep _ ih =>
      have hrest := ih (preserve hs hstep)
      rwa [List.append_assoc, List.singleton_append] at hrest

/-- Where a run keeps an invariant, its steps may be judged by what they do under it. -/
theorem Run.mono_of_invariant {step' : S → L → S → Prop} {P : S → Prop} {s t : S} {ls : List L}
    (h : Run step s ls t) (hs : P s) (preserve : ∀ ⦃s l t⦄, P s → step s l t → P t)
    (mono : ∀ s l t, P s → step s l t → step' s l t) : Run step' s ls t := by
  induction h with
  | nil => exact .nil _
  | cons hstep _ ih => exact .cons (mono _ _ _ hs hstep) (ih (preserve hs hstep))

/-- A rank that marked steps lower, and that others raise by at most one, bounds how many marked
steps a run takes. -/
theorem Run.count_le {P : S → Prop} {rank : S → ℕ} {marked raising : L → Bool} {s t : S}
    {ls : List L} (h : Run step s ls t) (hs : P s)
    (hstep : ∀ ⦃s l t⦄, P s → step s l t → P t ∧
      rank t + (if marked l then 1 else 0) ≤ rank s + if raising l then 1 else 0) :
    ls.countP marked + rank t ≤ rank s + ls.countP raising := by
  induction h with
  | nil => simp
  | cons hfirst _ ih =>
      obtain ⟨ht, hrank⟩ := hstep hs hfirst
      have hrest := ih ht
      rw [List.countP_cons, List.countP_cons]
      omega

/-- Follow a list of labels with an executable step. -/
def replay (next : S → L → Option S) : S → List L → Option S
  | s, [] => some s
  | s, l :: ls => (next s l).bind fun t => replay next t ls

theorem run_of_replay {next : S → L → Option S} {s t : S} {ls : List L}
    (h : replay next s ls = some t) : Run (fun s l t => next s l = some t) s ls t := by
  induction ls generalizing s with
  | nil =>
      obtain rfl := Option.some.inj h
      exact .nil s
  | cons l ls ih =>
      obtain ⟨u, hu, hrest⟩ := Option.bind_eq_some_iff.mp h
      exact .cons hu (ih hrest)

/-! Unlabelled steps counted one by one. -/

/-- `n` successive steps. -/
inductive Steps (move : S → S → Prop) : ℕ → S → S → Prop
  | refl (s : S) : Steps move 0 s s
  | step {n : ℕ} {s t u : S} (h : move s t) (hs : Steps move n t u) : Steps move (n + 1) s u

variable {move : S → S → Prop}

theorem Steps.append {m n : ℕ} {s t u : S} (h : Steps move m s t) (h' : Steps move n t u) :
    Steps move (m + n) s u := by
  induction h with
  | refl => simpa using h'
  | step hs _ ih => simpa [Nat.add_right_comm] using Steps.step hs (ih h')

/-- Two different steps from one state can be completed by one step each. -/
def Commuting (move : S → S → Prop) : Prop :=
  ∀ ⦃s t u : S⦄, move s t → move s u → t = u ∨ ∃ v, move t v ∧ move u v

/-- A state without a step. -/
def Final (move : S → S → Prop) (s : S) : Prop := ∀ t, ¬ move s t

private theorem Steps.strip (hc : Commuting move) {n : ℕ} {s t f : S} (h : Steps move n s f)
    (hf : Final move f) (hst : move s t) : ∃ m, n = m + 1 ∧ Steps move m t f := by
  induction h generalizing t with
  | refl => exact (hf t hst).elim
  | @step n s u f hsu hu ih =>
      rcases hc hst hsu with rfl | ⟨v, htv, huv⟩
      · exact ⟨n, rfl, hu⟩
      · obtain ⟨m, rfl, hv⟩ := ih hf huv
        exact ⟨m + 1, rfl, .step htv hv⟩

/-- Random descent: where steps commute and one schedule ends, every schedule can be
completed to the same end, and in the same number of steps. -/
theorem Steps.descent (hc : Commuting move) {n m : ℕ} {s t f : S} (h : Steps move n s f)
    (hf : Final move f) (hst : Steps move m s t) : ∃ k, n = m + k ∧ Steps move k t f := by
  induction hst generalizing n with
  | refl => exact ⟨n, by simp, h⟩
  | step hs _ ih =>
      obtain ⟨p, rfl, hp⟩ := h.strip hc hf hs
      obtain ⟨k, rfl, hk⟩ := ih hp
      exact ⟨k, by omega, hk⟩

end HasherPriv.Foundations.Descent
