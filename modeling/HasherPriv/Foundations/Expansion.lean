/- GID: HasherPriv/Foundations/Expansion
   layer: library
   source: none
   digest: Programs whose calls are carried out by programs, and what carries over to them. -/

import HasherPriv.Foundations.Contracts

set_option autoImplicit false
set_option relaxedAutoImplicit false

namespace HasherPriv.Foundations.Expansion

open Foundations.Program
open Foundations.Contracts

universe u

variable {Op Op' : Type} {Res : Op → Type} {Res' : Op' → Type} {α : Type} {W : Type u}
variable {sem check : (o : Op) → W → Res o → W → Prop}
variable {sem' check' : (o : Op') → W → Res' o → W → Prop}
variable {impl : (o : Op) → Prog Op' Res' (Res o)}

/-- Every call is carried out by its program. -/
def expand (impl : (o : Op) → Prog Op' Res' (Res o)) : Prog Op Res α → Prog Op' Res' α
  | .ret a => .ret a
  | .die why => .die why
  | .call o k => (impl o).bind fun r => expand impl (k r)

/-- The programs do what the calls are supposed to do. -/
def Implements (sem : (o : Op) → W → Res o → W → Prop) (sem' : (o : Op') → W → Res' o → W → Prop)
    (impl : (o : Op) → Prog Op' Res' (Res o)) : Prop :=
  ∀ o w, Ensures sem' (fun _ _ _ _ => True) (impl o) (sem o w) w

/-- What is ensured with the calls is ensured with their programs. -/
theorem ensures_expand {p : Prog Op Res α} {post : α → W → Prop} {w : W}
    (h : Ensures sem check p post w)
    (himpl : ∀ o w, (∀ r w', sem o w r w' → check o w r w') →
      Ensures sem' check' (impl o) (sem o w) w) :
    Ensures sem' check' (expand impl p) post w := by
  induction p generalizing w with
  | ret a => exact h
  | die why => trivial
  | call o k ih =>
      have hcalls := himpl o w fun r w' hs => (h r w' hs).1
      exact hcalls.bind fun r w' hs => ih r (h r w' hs).2

/-- A run with the programs is a run with the calls. -/
theorem exec_expand {p : Prog Op Res α} {a : α} {w w' : W} {tr : List (Step W Res')}
    (himpl : Implements sem sem' impl)
    (h : Exec (· = ·) sem' (expand impl p) w tr (.returned a) w') :
    ∃ tr', Exec (· = ·) sem p w tr' (.returned a) w' := by
  induction p generalizing w tr with
  | ret b =>
      obtain ⟨-, rfl, rfl⟩ := exec_ret h
      exact ⟨[], .ret _ _⟩
  | die why => cases h
  | call o k ih =>
      obtain ⟨r, t₁, t₂, v, rfl, hcall, hrest⟩ := exec_bind h
      obtain ⟨tr', hrun⟩ := ih r hrest
      have hsem := ((himpl o w).exec hcall).2 r rfl
      exact ⟨_, .call rfl hsem hrun⟩

theorem turns_expand {S R : Type} {body : S → Prog Op Res (S ⊕ R)} {s t : S} {w v : W}
    {turns : List (S × List (Step W Res'))} (himpl : Implements sem sem' impl)
    (h : Turns sem' (fun s => expand impl (body s)) s w turns t v) :
    ∃ turns', Turns sem body s w turns' t v := by
  induction h with
  | none s w => exact ⟨[], .none s w⟩
  | next h hs ih =>
      obtain ⟨turns', hturns⟩ := ih
      obtain ⟨tr', hrun⟩ := exec_expand himpl h
      exact ⟨_, .next hrun hturns⟩

end HasherPriv.Foundations.Expansion
