/- GID: HasherPriv/Foundations/Answers
   layer: library
   source: none
   digest: Programs and loops that do not die come to a return whatever their calls answer. -/

import HasherPriv.Foundations.Program

set_option autoImplicit false
set_option relaxedAutoImplicit false

namespace HasherPriv.Foundations.Answers

open Foundations.Program

variable {Op : Type} {Res : Op → Type} {α β : Type}

/-- Each call has got the answer for its place among the calls. -/
def Answered (res : ℕ → (o : Op) → Res o) (tr : List (Event Res)) : Prop :=
  ∀ i e, tr[i]? = some e → e.2 = res i e.1

theorem answered_nil (res : ℕ → (o : Op) → Res o) : Answered res [] := by
  intro i e h
  cases h

theorem answered_cons {res : ℕ → (o : Op) → Res o} {o : Op} {tr : List (Event Res)}
    (h : Answered (fun i => res (i + 1)) tr) : Answered res (⟨o, res 0 o⟩ :: tr) := by
  intro i e he
  cases i with
  | zero =>
      obtain rfl := Option.some.inj he
      rfl
  | succ i => exact h i e he

theorem Answered.append {res : ℕ → (o : Op) → Res o} {t₁ t₂ : List (Event Res)}
    (h₁ : Answered res t₁) (h₂ : Answered (fun i => res (t₁.length + i)) t₂) :
    Answered res (t₁ ++ t₂) := by
  intro i e he
  by_cases hi : i < t₁.length
  · rw [List.getElem?_append_left hi] at he
    exact h₁ i e he
  · have hle : t₁.length ≤ i := Nat.le_of_not_lt hi
    rw [List.getElem?_append_right hle] at he
    have hres : e.2 = res (t₁.length + (i - t₁.length)) e.1 := h₂ (i - t₁.length) e he
    rwa [Nat.add_sub_cancel' hle] at hres

/-- The program ends on no error. -/
abbrev Lives (p : Prog Op Res α) : Prop := p.Dies fun _ => False

theorem lives_op (o : Op) : Lives (Prog.op o : Prog Op Res (Res o)) := fun _ => trivial

theorem lives_each {f : β → Prog Op Res Unit} {bs : List β} (hf : ∀ b ∈ bs, Lives (f b)) :
    Lives (Prog.each f bs) := by
  induction bs with
  | nil => trivial
  | cons b bs ih =>
      obtain ⟨hb, hbs⟩ := List.forall_mem_cons.mp hf
      exact hb.bind fun _ => ih hbs

theorem Lives.not_died {p : Prog Op Res α} (h : Lives p) {tr : List (Event Res)} {why : String} :
    ¬ Runs p tr (.died why) := fun hrun => hrun.dies h

theorem Lives.returns {p : Prog Op Res α} (h : Lives p) (res : ℕ → (o : Op) → Res o) :
    ∃ tr a, Runs p tr (.returned a) ∧ Answered res tr := by
  induction p generalizing res with
  | ret a => exact ⟨[], a, .ret a, answered_nil res⟩
  | die why => exact h.elim
  | call o k ih =>
      obtain ⟨tr, a, hrun, hres⟩ := ih (res 0 o) (h (res 0 o)) fun i => res (i + 1)
      exact ⟨_, a, .call hrun, answered_cons hres⟩

/-- The program never dies, and comes to a return whatever its calls answer. -/
structure Returning (p : Prog Op Res α) : Prop where
  alive : ∀ tr why, ¬ Runs p tr (.died why)
  returns : ∀ res : ℕ → (o : Op) → Res o, ∃ tr a, Runs p tr (.returned a) ∧ Answered res tr

theorem Lives.returning {p : Prog Op Res α} (h : Lives p) : Returning p where
  alive _ _ := h.not_died
  returns := h.returns

/-- A run that was not cut short has returned. -/
theorem Returning.outcome {p : Prog Op Res α} (h : Returning p) {tr : List (Event Res)}
    {out : Outcome α} (hrun : Runs p tr out) : out = .running ∨ ∃ a, out = .returned a := by
  cases out with
  | returned a => exact Or.inr ⟨a, rfl⟩
  | died why => exact (h.alive tr why hrun).elim
  | running => exact Or.inl rfl

/-- The program dies only where a call has got such an answer. -/
def DiesAfter (bad : Event Res → Prop) : Prog Op Res α → Prop
  | .ret _ => True
  | .die _ => False
  | .call o k => ∀ r, bad ⟨o, r⟩ ∨ DiesAfter bad (k r)

section DiesAfter

variable {bad : Event Res → Prop}

theorem DiesAfter.bind {p : Prog Op Res α} {f : α → Prog Op Res β} (hp : DiesAfter bad p)
    (hf : ∀ a, DiesAfter bad (f a)) : DiesAfter bad (p.bind f) := by
  induction p with
  | ret a => exact hf a
  | die why => exact hp.elim
  | call o k ih =>
      intro r
      rcases hp r with hbad | hrest
      · exact Or.inl hbad
      · exact Or.inr (ih r hrest)

/-- A run that died has a call with such an answer. -/
theorem DiesAfter.died {p : Prog Op Res α} (hp : DiesAfter bad p) {tr : List (Event Res)}
    {why : String} (h : Runs p tr (.died why)) : ∃ e ∈ tr, bad e := by
  generalize hout : Outcome.died why = out at h
  induction h with
  | ret a => cases hout
  | die why => exact hp.elim
  | cut p => cases hout
  | @call o k r tr out h ih =>
      rcases hp r with hbad | hrest
      · exact ⟨_, List.mem_cons_self, hbad⟩
      · obtain ⟨e, he, hbad⟩ := ih hrest hout
        exact ⟨e, List.mem_cons_of_mem _ he, hbad⟩

end DiesAfter

section Loops

variable {S R : Type} {body : S → Prog Op Res (S ⊕ R)}

theorem LoopRuns.not_died (hlives : ∀ s, Lives (body s)) {s : S} {trs : List (List (Event Res))}
    {why : String} : ¬ LoopRuns body s trs (.died why) := by
  intro h
  generalize hout : Outcome.died why = out at h
  induction h with
  | next hturn hs ih => exact ih hout
  | leave hturn => cases hout
  | died hturn => exact (hlives _).not_died hturn
  | running hturn => cases hout

/-- A loop whose turns lower a measure is left. -/
theorem LoopRuns.returns (hlives : ∀ s, Lives (body s)) (measure : S → ℕ)
    (hlower : ∀ {s t : S} {tr : List (Event Res)}, Runs (body s) tr (.returned (.inl t)) →
      measure t < measure s) (s : S) (res : ℕ → (o : Op) → Res o) :
    ∃ trs r, LoopRuns body s trs (.returned r) ∧ Answered res trs.flatten := by
  induction hn : measure s using Nat.strongRecOn generalizing s res with
  | ind n ih =>
      obtain ⟨tr, next, hturn, hres⟩ := (hlives s).returns res
      cases next with
      | inr r =>
          refine ⟨[tr], r, .leave hturn, ?_⟩
          rw [List.flatten_cons, List.flatten_nil, List.append_nil]
          exact hres
      | inl t =>
          have hlt : measure t < n := hn ▸ hlower hturn
          obtain ⟨trs, r, hloop, hrest⟩ := ih _ hlt t (fun i => res (tr.length + i)) rfl
          exact ⟨tr :: trs, r, .next hturn hloop, hres.append hrest⟩

end Loops

end HasherPriv.Foundations.Answers
