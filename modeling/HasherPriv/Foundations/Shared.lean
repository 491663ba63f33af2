/- GID: HasherPriv/Foundations/Shared
   layer: library
   source: none
   digest: Programs that run side by side over one shared state, and invariants of their runs. -/

import HasherPriv.Foundations.Program

set_option autoImplicit false
set_option relaxedAutoImplicit false

namespace HasherPriv.Foundations.Shared

open Program

/-- What answers the calls of the programs, and what else may change the state. -/
structure Machine (ι E K Op : Type) (Res : Op → Type) where
  answer : K → ι → (o : Op) → Res o → Option K
  env : K → E → Option K

/-- The programs as they stand, and the state. -/
structure World (ι K Op : Type) (Res : Op → Type) (α : Type) where
  procs : ι → Prog Op Res α
  kernel : K

/-- The next call of a program, or a change from outside. -/
inductive Label (ι E : Type) {Op : Type} (Res : Op → Type)
  | call (i : ι) (e : Event Res)
  | env (e : E)

variable {ι E K Op : Type} {Res : Op → Type} {α : Type} [DecidableEq ι]

/-- One step; `none` where the machine does not allow it. -/
def Machine.step [DecidableEq Op] (M : Machine ι E K Op Res) (w : World ι K Op Res α) :
    Label ι E Res → Option (World ι K Op Res α)
  | .call i e =>
      match w.procs i with
      | .call o k =>
          if h : e.1 = o then
            (M.answer w.kernel i o (h ▸ e.2)).map fun kernel =>
              { procs := Function.update w.procs i (k (h ▸ e.2)), kernel := kernel }
          else none
      | _ => none
  | .env e => (M.env w.kernel e).map fun kernel => { w with kernel := kernel }

/-- The worlds that runs lead to whose steps all satisfy `P`. -/
inductive Reach [DecidableEq Op] (M : Machine ι E K Op Res)
    (P : World ι K Op Res α → Label ι E Res → Prop) (w₀ : World ι K Op Res α) :
    World ι K Op Res α → Prop
  | init : Reach M P w₀ w₀
  | step {w w' : World ι K Op Res α} {l : Label ι E Res} (h : Reach M P w₀ w) (hP : P w l)
      (hstep : M.step w l = some w') : Reach M P w₀ w'

/-- Take the steps in order. -/
def Machine.run [DecidableEq Op] (M : Machine ι E K Op Res) :
    World ι K Op Res α → List (Label ι E Res) → Option (World ι K Op Res α)
  | w, [] => some w
  | w, l :: ls => (M.step w l).bind fun w => M.run w ls

theorem Reach.run [DecidableEq Op] {M : Machine ι E K Op Res}
    {P : World ι K Op Res α → Label ι E Res → Prop} {w₀ w w' : World ι K Op Res α}
    (h : Reach M P w₀ w) (hP : ∀ w l, P w l) {ls : List (Label ι E Res)}
    (hrun : M.run w ls = some w') : Reach M P w₀ w' := by
  induction ls generalizing w with
  | nil =>
      obtain rfl := Option.some.inj hrun
      exact h
  | cons l ls ih =>
      obtain ⟨w₁, hstep, hrest⟩ := Option.bind_eq_some_iff.mp hrun
      exact ih (h.step (hP _ _) hstep) hrest

/-- An invariant of the positions in the programs' text and of the state: `rest p` is what is
left of the program at the position `p`. -/
theorem Reach.positions [DecidableEq Op] {M : Machine ι E K Op Res} {Pos : Type}
    (rest : ι → Pos → Prog Op Res α) {I : (ι → Pos) → K → Prop}
    {P : World ι K Op Res α → Label ι E Res → Prop} {w₀ w : World ι K Op Res α}
    (init : ∃ pos, (∀ i, w₀.procs i = rest i (pos i)) ∧ I pos w₀.kernel)
    (call : ∀ {pos kernel i o k r kernel'}, I pos kernel → rest i (pos i) = .call o k →
      P ⟨fun i => rest i (pos i), kernel⟩ (.call i ⟨o, r⟩) →
      M.answer kernel i o r = some kernel' →
      ∃ p, k r = rest i p ∧ I (Function.update pos i p) kernel')
    (env : ∀ {pos kernel e kernel'}, I pos kernel →
      P ⟨fun i => rest i (pos i), kernel⟩ (.env e) →
      M.env kernel e = some kernel' → I pos kernel')
    (h : Reach M P w₀ w) : ∃ pos, (∀ i, w.procs i = rest i (pos i)) ∧ I pos w.kernel := by
  induction h with
  | init => exact init
  | @step w w' l h hP hstep ih =>
      obtain ⟨pos, hprocs, hinv⟩ := ih
      obtain ⟨procs, kernel⟩ := w
      obtain rfl : procs = fun i => rest i (pos i) := funext hprocs
      cases l with
      | env e =>
          obtain ⟨kernel', henv, rfl⟩ := Option.map_eq_some_iff.mp hstep
          exact ⟨pos, fun _ => rfl, env hinv hP henv⟩
      | call i e =>
          obtain ⟨o, r⟩ := e
          cases hprog : rest i (pos i) with
          | ret a => simp [Machine.step, hprog] at hstep
          | die why => simp [Machine.step, hprog] at hstep
          | call o' k =>
              simp only [Machine.step, hprog] at hstep
              split_ifs at hstep with ho
              obtain rfl : o = o' := ho
              obtain ⟨kernel', hanswer, rfl⟩ := Option.map_eq_some_iff.mp hstep
              obtain ⟨p, hp, hinv'⟩ := call hinv hprog hP hanswer
              refine ⟨Function.update pos i p, fun j => ?_, hinv'⟩
              by_cases hj : j = i
              · subst hj
                simpa using hp
              · simp [Function.update_of_ne hj]

end HasherPriv.Foundations.Shared
