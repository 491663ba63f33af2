/- GID: HasherPriv/Foundations/Contracts
   layer: library
   source: none
   digest: Rules for what holds at every call of a program, of its result, and over turns of a loop. -/

import HasherPriv.Foundations.Program

set_option autoImplicit false
set_option relaxedAutoImplicit false

namespace HasherPriv.Foundations.Contracts

open Foundations.Program

universe u

variable {Op : Type} {Res : Op → Type} {α β : Type} {W : Type u}
variable {sem check : (o : Op) → W → Res o → W → Prop}

/-- Every call that the program can make in a world that only its calls move meets `check`, and
what it returns meets `post`. -/
def Ensures (sem check : (o : Op) → W → Res o → W → Prop) :
    Prog Op Res α → (α → W → Prop) → W → Prop
  | .ret a, post, w => post a w
  | .die _, _, _ => True
  | .call o k, post, w =>
      ∀ r w', sem o w r w' → check o w r w' ∧ Ensures sem check (k r) post w'

theorem Ensures.mono {p : Prog Op Res α} {post post' : α → W → Prop} {w : W}
    (h : Ensures sem check p post w) (hpost : ∀ a w', post a w' → post' a w') :
    Ensures sem check p post' w := by
  induction p generalizing w with
  | ret a => exact hpost a w h
  | die why => trivial
  | call o k ih =>
      intro r w' hsem
      obtain ⟨hcheck, hrest⟩ := h r w' hsem
      exact ⟨hcheck, ih r hrest⟩

theorem Ensures.bind {p : Prog Op Res α} {f : α → Prog Op Res β} {Q : α → W → Prop}
    {post : β → W → Prop} {w : W} (h : Ensures sem check p Q w)
    (hf : ∀ a w', Q a w' → Ensures sem check (f a) post w') :
    Ensures sem check (p.bind f) post w := by
  induction p generalizing w with
  | ret a => exact hf a w h
  | die why => trivial
  | call o k ih =>
      intro r w' hsem
      obtain ⟨hcheck, hrest⟩ := h r w' hsem
      exact ⟨hcheck, ih r hrest⟩

theorem Ensures.mono_check {check' : (o : Op) → W → Res o → W → Prop} {p : Prog Op Res α}
    {post : α → W → Prop} {w : W} (h : Ensures sem check p post w)
    (hcheck : ∀ o w r w', check o w r w' → check' o w r w') : Ensures sem check' p post w := by
  induction p generalizing w with
  | ret a => exact h
  | die why => trivial
  | call o k ih =>
      intro r w' hsem
      obtain ⟨hcall, hrest⟩ := h r w' hsem
      exact ⟨hcheck _ _ _ _ hcall, ih r hrest⟩

/-- What every call of a kind keeps, a program that only makes such calls keeps. -/
theorem ensures_of_uses {P : Op → Prop} {I : W → Prop} {p : Prog Op Res α} {w : W}
    (hp : p.Uses P) (hI : I w)
    (hcall : ∀ {o w r w'}, P o → I w → sem o w r w' → check o w r w' ∧ I w') :
    Ensures sem check p (fun _ w' => I w') w := by
  induction p generalizing w with
  | ret a => exact hI
  | die why => trivial
  | call o k ih =>
      intro r w' hsem
      obtain ⟨hcheck, hI'⟩ := hcall hp.1 hI hsem
      exact ⟨hcheck, ih r (hp.2 r) hI'⟩

/-- What the body of a loop over a list keeps, the loop keeps. -/
theorem Ensures.each {f : β → Prog Op Res Unit} {I : W → Prop} {bs : List β} {w : W}
    (hf : ∀ b ∈ bs, ∀ w, I w → Ensures sem check (f b) (fun _ w' => I w') w) (hI : I w) :
    Ensures sem check (Prog.each f bs) (fun _ w' => I w') w := by
  induction bs generalizing w with
  | nil => exact hI
  | cons b bs ih =>
      obtain ⟨hb, hbs⟩ := List.forall_mem_cons.mp hf
      exact (hb w hI).bind fun _ w' hI' => ih hbs hI'

/-- What calls of a kind that meet `check` keep, the program keeps. -/
theorem Ensures.also {check' : (o : Op) → W → Res o → W → Prop} {P : Op → Prop} {I : W → Prop}
    {p : Prog Op Res α} {post : α → W → Prop} {w : W} (h : Ensures sem check p post w)
    (hp : p.Uses P) (hI : I w)
    (hcall : ∀ {o w r w'}, P o → check o w r w' → I w → sem o w r w' →
      check' o w r w' ∧ I w') :
    Ensures sem check' p (fun a w' => post a w' ∧ I w') w := by
  induction p generalizing w with
  | ret a => exact ⟨h, hI⟩
  | die why => trivial
  | call o k ih =>
      intro r w' hsem
      obtain ⟨hcheck, hrest⟩ := h r w' hsem
      obtain ⟨hcheck', hI'⟩ := hcall hp.1 hcheck hI hsem
      exact ⟨hcheck', ih r hrest (hp.2 r) hI'⟩

/-- What is ensured in a part of the world is ensured in the whole. -/
theorem Ensures.comap {V : Type u} {part : W → V} {semV checkV : (o : Op) → V → Res o → V → Prop}
    {p : Prog Op Res α} {post : α → V → Prop} {w : W} (h : Ensures semV checkV p post (part w))
    (hsem : ∀ {o w r w'}, sem o w r w' → semV o (part w) r (part w')) :
    Ensures sem (fun o w r w' => checkV o (part w) r (part w')) p
      (fun a w' => post a (part w')) w := by
  induction p generalizing w with
  | ret a => exact h
  | die why => trivial
  | call o k ih =>
      intro r w' hs
      obtain ⟨hcheck, hrest⟩ := h r (part w') (hsem hs)
      exact ⟨hcheck, ih r hrest⟩

/-- What is ensured of a program is ensured among calls of another kind. -/
theorem Ensures.inl {Op' : Type} {Res' : Op' → Type}
    {sem check : (o : Op ⊕ Op') → W → EitherRes Res Res' o → W → Prop} {p : Prog Op Res α}
    {post : α → W → Prop} {w : W}
    (h : Ensures (fun o => sem (.inl o)) (fun o => check (.inl o)) p post w) :
    Ensures sem check p.inl post w := by
  induction p generalizing w with
  | ret a => exact h
  | die why => trivial
  | call o k ih =>
      intro r w' hsem
      obtain ⟨hcheck, hrest⟩ := h r w' hsem
      exact ⟨hcheck, ih r hrest⟩

theorem Ensures.onRight {Op' : Type} {Res' : Op' → Type}
    {sem check : (o : Op' ⊕ Op) → W → EitherRes Res' Res o → W → Prop} {p : Prog Op Res α}
    {post : α → W → Prop} {w : W}
    (h : Ensures (fun o => sem (.inr o)) (fun o => check (.inr o)) p post w) :
    Ensures sem check p.inr post w := by
  induction p generalizing w with
  | ret a => exact h
  | die why => trivial
  | call o k ih =>
      intro r w' hsem
      obtain ⟨hcheck, hrest⟩ := h r w' hsem
      exact ⟨hcheck, ih r hrest⟩

/-- What is ensured holds in every run. -/
theorem Ensures.exec {p : Prog Op Res α} {post : α → W → Prop} {w w' : W}
    {tr : List (Step W Res)} {out : Outcome α} (h : Ensures sem check p post w)
    (hrun : Exec (· = ·) sem p w tr out w') :
    (∀ s ∈ tr, check s.event.1 s.before s.event.2 s.after) ∧
      ∀ a, out = .returned a → post a w' := by
  induction hrun with
  | ret a w =>
      refine ⟨fun _ hs => (List.not_mem_nil hs).elim, fun b hb => ?_⟩
      obtain rfl := Outcome.returned.inj hb
      exact h
  | die why w => exact ⟨fun _ hs => (List.not_mem_nil hs).elim, nofun⟩
  | cut p w => exact ⟨fun _ hs => (List.not_mem_nil hs).elim, nofun⟩
  | call hadv hsem hrest ih =>
      subst hadv
      obtain ⟨hcheck, hk⟩ := h _ _ hsem
      obtain ⟨hsteps, hpost⟩ := ih hk
      exact ⟨List.forall_mem_cons.mpr ⟨hcheck, hsteps⟩, hpost⟩

/-- The calls of two parts; the second part is only about what the first can return. -/
theorem uses_bind_of_returned {P : Op → Prop} {p : Prog Op Res α} {f : α → Prog Op Res β}
    (hp : p.Uses P) (hf : ∀ tr a, Runs p tr (.returned a) → (f a).Uses P) : (p.bind f).Uses P := by
  induction p with
  | ret a => exact hf [] a (.ret a)
  | die why => trivial
  | call o k ih =>
      refine ⟨hp.1, fun r => ih r (hp.2 r) fun tr a hrun => ?_⟩
      exact hf (⟨o, r⟩ :: tr) a (.call hrun)

/-- A run in a world is a run in every world that allows the same answers. -/
theorem exec_mono {adv : W → W → Prop} {sem' : (o : Op) → W → Res o → W → Prop}
    {p : Prog Op Res α} {w w' : W} {tr : List (Step W Res)} {out : Outcome α}
    (h : Exec adv sem p w tr out w') (hsem : ∀ {o w r w'}, sem o w r w' → sem' o w r w') :
    Exec adv sem' p w tr out w' := by
  induction h with
  | ret a w => exact .ret a w
  | die why w => exact .die why w
  | cut p w => exact .cut p w
  | call ha hs h ih => exact .call ha (hsem hs) ih

/-- A run in the world is a run in a part of it. -/
theorem exec_part {V : Type u} {part : W → V} {semV : (o : Op) → V → Res o → V → Prop}
    {p : Prog Op Res α} {w w' : W} {tr : List (Step W Res)} {out : Outcome α}
    (h : Exec (· = ·) sem p w tr out w')
    (hsem : ∀ {o w r w'}, sem o w r w' → semV o (part w) r (part w')) :
    Exec (· = ·) semV p (part w)
      (tr.map fun s => ⟨part s.before, s.event, part s.after⟩) out (part w') := by
  induction h with
  | ret a w => exact .ret a _
  | die why w => exact .die why _
  | cut p w => exact .cut p _
  | call ha hs h ih =>
      subst ha
      exact .call rfl (hsem hs) ih

/-- A run of two parts stops in the first, or goes on into the second. -/
theorem exec_bind_cases {adv : W → W → Prop} {p : Prog Op Res α} {f : α → Prog Op Res β}
    {w w' : W} {tr : List (Step W Res)} {out : Outcome β}
    (h : Exec adv sem (p.bind f) w tr out w') :
    (∃ out', Exec adv sem p w tr out' w' ∧ ∀ b, out ≠ .returned b) ∨
      ∃ a t₁ t₂ v, tr = t₁ ++ t₂ ∧ Exec adv sem p w t₁ (.returned a) v ∧
        Exec adv sem (f a) v t₂ out w' := by
  induction p generalizing w tr with
  | ret a => exact .inr ⟨a, [], tr, w, rfl, .ret a w, h⟩
  | die why =>
      cases h with
      | die => exact .inl ⟨_, .die why _, fun b hb => by cases hb⟩
      | cut => exact .inl ⟨_, .cut _ _, fun b hb => by cases hb⟩
  | call o k ih =>
      cases h with
      | cut => exact .inl ⟨_, .cut _ _, fun b hb => by cases hb⟩
      | call ha hs hk =>
          rcases ih _ hk with ⟨out', hp, hout⟩ | ⟨a, t₁, t₂, v, rfl, hp, hf⟩
          · exact .inl ⟨out', .call ha hs hp, hout⟩
          · exact .inr ⟨a, _, t₂, v, rfl, .call ha hs hp, hf⟩

/-! Calls that others move the world before. -/

def Amid (adv : W → W → Prop) (sem : (o : Op) → W → Res o → W → Prop) (o : Op) (w : W)
    (r : Res o) (w' : W) : Prop := ∃ v, adv w v ∧ sem o v r w'

theorem exec_amid {adv : W → W → Prop} {p : Prog Op Res α} {w w' : W} {tr : List (Step W Res)}
    {out : Outcome α} (h : Exec adv sem p w tr out w') :
    ∃ tr', Exec (· = ·) (Amid adv sem) p w tr' out w' := by
  induction h with
  | ret a w => exact ⟨[], .ret a w⟩
  | die why w => exact ⟨[], .die why w⟩
  | cut p w => exact ⟨[], .cut p w⟩
  | @call o k w v w' _ r _ _ hadv hsem hrest ih =>
      obtain ⟨tr', hrun⟩ := ih
      exact ⟨_, .call rfl ⟨v, hadv, hsem⟩ hrun⟩

/-- What is ensured of calls that others interfere with holds in every run among others. -/
theorem Ensures.exec_amid {adv : W → W → Prop} {p : Prog Op Res α} {post : α → W → Prop}
    {w w' : W} {tr : List (Step W Res)} {a : α}
    (h : Ensures (Amid adv sem) (fun _ _ _ _ => True) p post w)
    (hrun : Exec adv sem p w tr (.returned a) w') : post a w' := by
  obtain ⟨tr', hrun'⟩ := Contracts.exec_amid hrun
  exact (h.exec hrun').2 a rfl

/-! What holds before a call, also before one that is never answered. -/

/-- Every call that the program can make is made in a world that meets `pre` and, if it is answered,
meets `check`; what the program returns meets `post`. -/
def Guards (sem check : (o : Op) → W → Res o → W → Prop) (pre : Op → W → Prop) :
    Prog Op Res α → (α → W → Prop) → W → Prop
  | .ret a, post, w => post a w
  | .die _, _, _ => True
  | .call o k, post, w =>
      pre o w ∧ ∀ r w', sem o w r w' → check o w r w' ∧ Guards sem check pre (k r) post w'

/-- The program, having run to the world `v`, is about to make the call `o`. -/
inductive Awaits (sem : (o : Op) → W → Res o → W → Prop) (o : Op) :
    Prog Op Res α → W → List (Step W Res) → W → Prop
  | here (k : Res o → Prog Op Res α) (w : W) : Awaits sem o (.call o k) w [] w
  | call {o' : Op} {k : Res o' → Prog Op Res α} {w w' v : W} {r : Res o'}
      {tr : List (Step W Res)} (hs : sem o' w r w') (h : Awaits sem o (k r) w' tr v) :
      Awaits sem o (.call o' k) w (⟨w, ⟨o', r⟩, w'⟩ :: tr) v

/-- A sequence comes to a call inside its head, or its head returns and the rest comes to it. -/
theorem awaits_bind {p : Prog Op Res α} {f : α → Prog Op Res β} {o : Op} {w v : W}
    {tr : List (Step W Res)} (h : Awaits sem o (p.bind f) w tr v) :
    Awaits sem o p w tr v ∨ ∃ a t₁ t₂ u, tr = t₁ ++ t₂ ∧
      Exec (· = ·) sem p w t₁ (.returned a) u ∧ Awaits sem o (f a) u t₂ v := by
  induction p generalizing w tr with
  | ret a => exact Or.inr ⟨a, [], tr, w, rfl, .ret a w, h⟩
  | die why => cases h
  | call o' k ih =>
      cases h with
      | here => exact Or.inl (.here k _)
      | @call _ _ _ w' _ r tr hs h =>
          rcases ih r h with hhead | ⟨a, t₁, t₂, u, rfl, hhead, hrest⟩
          · exact Or.inl (.call hs hhead)
          · exact Or.inr ⟨a, _, t₂, u, rfl, .call rfl hs hhead, hrest⟩

theorem Awaits.uses {P : Op → Prop} {p : Prog Op Res α} {o : Op} {w v : W}
    {tr : List (Step W Res)} (h : Awaits sem o p w tr v) (hp : p.Uses P) : P o := by
  induction h with
  | here k w => exact hp.1
  | call hs h ih => exact ih (hp.2 _)

section Guards

variable {pre : Op → W → Prop}

theorem Guards.mono {p : Prog Op Res α} {post post' : α → W → Prop} {w : W}
    (h : Guards sem check pre p post w) (hpost : ∀ a w', post a w' → post' a w') :
    Guards sem check pre p post' w := by
  induction p generalizing w with
  | ret a => exact hpost a w h
  | die why => trivial
  | call o k ih =>
      refine ⟨h.1, ?_⟩
      intro r w' hsem
      obtain ⟨hcheck, hrest⟩ := h.2 r w' hsem
      exact ⟨hcheck, ih r hrest⟩

theorem Guards.bind {p : Prog Op Res α} {f : α → Prog Op Res β} {Q : α → W → Prop}
    {post : β → W → Prop} {w : W} (h : Guards sem check pre p Q w)
    (hf : ∀ a w', Q a w' → Guards sem check pre (f a) post w') :
    Guards sem check pre (p.bind f) post w := by
  induction p generalizing w with
  | ret a => exact hf a w h
  | die why => trivial
  | call o k ih =>
      refine ⟨h.1, ?_⟩
      intro r w' hsem
      obtain ⟨hcheck, hrest⟩ := h.2 r w' hsem
      exact ⟨hcheck, ih r hrest⟩

/-- Calls of a kind that may be made anywhere. -/
theorem Ensures.guards {P : Op → Prop} {p : Prog Op Res α} {post : α → W → Prop} {w : W}
    (h : Ensures sem check p post w) (hp : p.Uses P) (hpre : ∀ o w, P o → pre o w) :
    Guards sem check pre p post w := by
  induction p generalizing w with
  | ret a => exact h
  | die why => trivial
  | call o k ih =>
      refine ⟨hpre o w hp.1, ?_⟩
      intro r w' hsem
      obtain ⟨hcheck, hrest⟩ := h r w' hsem
      exact ⟨hcheck, ih r hrest (hp.2 r)⟩

theorem Guards.ensures {p : Prog Op Res α} {post : α → W → Prop} {w : W}
    (h : Guards sem check pre p post w) : Ensures sem check p post w := by
  induction p generalizing w with
  | ret a => exact h
  | die why => trivial
  | call o k ih =>
      intro r w' hsem
      obtain ⟨hcheck, hrest⟩ := h.2 r w' hsem
      exact ⟨hcheck, ih r hrest⟩

theorem Guards.awaits {p : Prog Op Res α} {post : α → W → Prop} {o : Op} {w v : W}
    {tr : List (Step W Res)} (h : Guards sem check pre p post w) (hrun : Awaits sem o p w tr v) :
    pre o v := by
  induction hrun with
  | here k w => exact h.1
  | call hs hrun ih => exact ih (h.2 _ _ hs).2

end Guards

/-- What every call leaves, a run leaves wherever it stops. -/
theorem Ensures.stops {I : W → Prop} {p : Prog Op Res α} {post : α → W → Prop} {w w' : W}
    {tr : List (Step W Res)} {out : Outcome α}
    (h : Ensures sem (fun _ _ _ w' => I w') p post w) (hI : I w)
    (hrun : Exec (· = ·) sem p w tr out w') : I w' := by
  induction hrun with
  | ret a w => exact hI
  | die why w => exact hI
  | cut p w => exact hI
  | call hadv hsem hrest ih =>
      subst hadv
      obtain ⟨hcheck, hk⟩ := h _ _ hsem
      exact ih hk hcheck

/-- A machine that keeps a world drives a program to a call in that world. -/
theorem awaits_of_drive {σ : Type} (world : σ → W) (I : σ → Prop)
    {answer : σ → (o : Op) → Option (Res o × σ)} {p : Prog Op Res α} {s : σ} {o : Op}
    (hsem : ∀ s o r s', I s → answer s o = some (r, s') → sem o (world s) r (world s') ∧ I s')
    (hs : I s) (h : (p.drive answer s).2 = .before o) :
    ∃ tr w', Awaits sem o p (world s) tr w' := by
  induction p generalizing s with
  | ret b => cases h
  | die why => cases h
  | call o' k ih =>
      rw [Prog.drive] at h
      cases ha : answer s o' with
      | none =>
          rw [ha] at h
          obtain rfl := Stop.before.inj h
          exact ⟨[], world s, .here k (world s)⟩
      | some rs =>
          rw [ha] at h
          obtain ⟨hsem', hs'⟩ := hsem s o' rs.1 rs.2 hs ha
          obtain ⟨tr, w', hrun⟩ := ih rs.1 hs' h
          exact ⟨_, w', .call hsem' hrun⟩

/-- The same up to a return. -/
theorem exec_of_drive {σ : Type} (world : σ → W) (I : σ → Prop)
    {answer : σ → (o : Op) → Option (Res o × σ)} {p : Prog Op Res α} {s : σ} {a : α}
    (hsem : ∀ s o r s', I s → answer s o = some (r, s') → sem o (world s) r (world s') ∧ I s')
    (hs : I s) (h : (p.drive answer s).2 = .returned a) :
    (∃ tr, Exec (· = ·) sem p (world s) tr (.returned a) (world (p.reached answer s))) ∧
      I (p.reached answer s) := by
  induction p generalizing s with
  | ret b =>
      obtain rfl := Stop.returned.inj h
      exact ⟨⟨[], .ret _ _⟩, hs⟩
  | die why => cases h
  | call o k ih =>
      rw [Prog.drive] at h
      rw [Prog.reached]
      cases ha : answer s o with
      | none =>
          rw [ha] at h
          cases h
      | some rs =>
          rw [ha] at h
          obtain ⟨hsem', hs'⟩ := hsem s o rs.1 rs.2 hs ha
          obtain ⟨⟨tr, hrun⟩, hI⟩ := ih rs.1 hs' h
          exact ⟨⟨_, .call rfl hsem' hrun⟩, hI⟩

/-! Loops. -/

variable {S R : Type}

/-- Turns of a loop that have been completed, each with the state that it started in. -/
inductive Turns (sem : (o : Op) → W → Res o → W → Prop) (body : S → Prog Op Res (S ⊕ R)) :
    S → W → List (S × List (Step W Res)) → S → W → Prop
  | none (s : S) (w : W) : Turns sem body s w [] s w
  | next {s t u : S} {w v x : W} {tr : List (Step W Res)} {turns : List (S × List (Step W Res))}
      (h : Exec (· = ·) sem (body s) w tr (.returned (.inl t)) v)
      (hs : Turns sem body t v turns u x) : Turns sem body s w ((s, tr) :: turns) u x

/-- One more turn. -/
theorem Turns.snoc {body : S → Prog Op Res (S ⊕ R)} {s t u : S} {w v x : W}
    {turns : List (S × List (Step W Res))} {tr : List (Step W Res)}
    (h : Turns sem body s w turns t v)
    (hlast : Exec (· = ·) sem (body t) v tr (.returned (.inl u)) x) :
    Turns sem body s w (turns ++ [(t, tr)]) u x := by
  induction h with
  | none s w => exact .next hlast (.none u x)
  | next h hs ih => exact .next h (ih hlast)

/-- What a turn keeps, all turns keep. -/
theorem Turns.invariant {body : S → Prog Op Res (S ⊕ R)} {I : S → W → Prop} {P : S → Prop}
    {s t : S} {w v : W} {turns : List (S × List (Step W Res))}
    (h : Turns sem body s w turns t v) (hP : ∀ e ∈ turns, P e.1) (hI : I s w)
    (step : ∀ {s w tr t v}, P s → I s w →
      Exec (· = ·) sem (body s) w tr (.returned (.inl t)) v → I t v) : I t v := by
  induction h with
  | none s w => exact hI
  | next h hs ih =>
      obtain ⟨hs, hturns⟩ := List.forall_mem_cons.mp hP
      exact ih hturns (step hs hI h)

/-- The last of the completed turns. -/
theorem Turns.last {body : S → Prog Op Res (S ⊕ R)} {s t u : S} {w v : W}
    {tr : List (Step W Res)} {earlier : List (S × List (Step W Res))}
    (h : Turns sem body s w (earlier ++ [(u, tr)]) t v) :
    ∃ x, Turns sem body s w earlier u x ∧
      Exec (· = ·) sem (body u) x tr (.returned (.inl t)) v := by
  induction earlier generalizing s w with
  | nil =>
      cases h with
      | next h hs =>
          cases hs
          exact ⟨w, .none _ _, h⟩
  | cons e earlier ih =>
      cases h with
      | next h hs =>
          obtain ⟨x, hearlier, hlast⟩ := ih hs
          exact ⟨x, .next h hearlier, hlast⟩

end HasherPriv.Foundations.Contracts
