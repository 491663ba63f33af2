/- GID: HasherPriv/Foundations/Program
   layer: library
   source: none
   digest: Finite sequential programs over environment calls, their runs and their loops. -/

import Mathlib.Data.List.Basic
import Mathlib.Data.List.Forall2
import Mathlib.Logic.Basic

set_option autoImplicit false
set_option relaxedAutoImplicit false

namespace HasherPriv.Foundations.Program

universe u

/-- A sequential program whose every interaction is a call answered by the environment.
`die` is the end of the process on an error and carries the error's text. -/
inductive Prog (Op : Type) (Res : Op → Type) (α : Type) : Type
  | ret (a : α)
  | die (why : String)
  | call (o : Op) (k : Res o → Prog Op Res α)

variable {Op : Type} {Res : Op → Type} {α β γ : Type}

def Prog.bind : Prog Op Res α → (α → Prog Op Res β) → Prog Op Res β
  | .ret a, f => f a
  | .die why, _ => .die why
  | .call o k, f => .call o fun r => (k r).bind f

instance : Monad (Prog Op Res) where
  pure := .ret
  bind := .bind

/-- A single call whose answer is the result. -/
def Prog.op (o : Op) : Prog Op Res (Res o) := .call o .ret

/-- Run `f` on every element in order. -/
def Prog.each (f : β → Prog Op Res Unit) : List β → Prog Op Res Unit
  | [] => .ret ()
  | b :: bs => (f b).bind fun _ => each f bs

@[simp] theorem pure_eq_ret (a : α) : (pure a : Prog Op Res α) = .ret a := rfl
@[simp] theorem bind_eq_bind (p : Prog Op Res α) (f : α → Prog Op Res β) :
    p >>= f = p.bind f := rfl
@[simp] theorem bind_ret (a : α) (f : α → Prog Op Res β) :
    (Prog.ret a : Prog Op Res α).bind f = f a := rfl
@[simp] theorem bind_die (why : String) (f : α → Prog Op Res β) :
    (Prog.die why : Prog Op Res α).bind f = .die why := rfl
@[simp] theorem bind_call (o : Op) (k : Res o → Prog Op Res α) (f : α → Prog Op Res β) :
    (Prog.call o k).bind f = .call o fun r => (k r).bind f := rfl
@[simp] theorem each_nil (f : β → Prog Op Res Unit) : Prog.each f [] = .ret () := rfl
@[simp] theorem each_cons (f : β → Prog Op Res Unit) (b : β) (bs : List β) :
    Prog.each f (b :: bs) = (f b).bind fun _ => Prog.each f bs := rfl

theorem prog_bind_assoc (p : Prog Op Res α) (f : α → Prog Op Res β) (g : β → Prog Op Res γ) :
    (p.bind f).bind g = p.bind fun a => (f a).bind g := by
  induction p with
  | ret a => rfl
  | die why => rfl
  | call o k ih =>
      simp only [bind_call]
      congr 1
      funext r
      exact ih r

theorem bind_ret_self (p : Prog Op Res α) : p.bind .ret = p := by
  induction p with
  | ret a => rfl
  | die why => rfl
  | call o k ih =>
      rw [bind_call]
      congr 1
      funext r
      exact ih r

theorem bind_eq_ok {α β : Type} {x : Except String α} {f : α → Except String β} {b : β}
    (h : x >>= f = .ok b) : ∃ a, x = .ok a ∧ f a = .ok b := by
  cases x with
  | error e => cases h
  | ok a => exact ⟨a, rfl, h⟩

/-- What calls of two kinds answer. -/
@[reducible] def EitherRes {Op' : Type} (Res : Op → Type) (Res' : Op' → Type) : Op ⊕ Op' → Type
  | .inl o => Res o
  | .inr o => Res' o

/-- A program among calls of another kind. -/
def Prog.inl {Op' : Type} {Res' : Op' → Type} :
    Prog Op Res α → Prog (Op ⊕ Op') (EitherRes Res Res') α
  | .ret a => .ret a
  | .die why => .die why
  | .call o k => .call (.inl o) fun r => (k r).inl

/-- The same with the other kind on the left. -/
def Prog.inr {Op' : Type} {Res' : Op' → Type} :
    Prog Op Res α → Prog (Op' ⊕ Op) (EitherRes Res' Res) α
  | .ret a => .ret a
  | .die why => .die why
  | .call o k => .call (.inr o) fun r => (k r).inr

/-- A call together with the answer it received. -/
abbrev Event (Res : Op → Type) := Sigma Res

/-- How a run stands: returned, dead, or cut short at any point. -/
inductive Outcome (α : Type)
  | returned (a : α)
  | died (why : String)
  | running

/-- Every run against every environment; the `cut` rule stops a run anywhere. -/
inductive Runs : Prog Op Res α → List (Event Res) → Outcome α → Prop
  | ret (a : α) : Runs (.ret a) [] (.returned a)
  | die (why : String) : Runs (.die why) [] (.died why)
  | cut (p : Prog Op Res α) : Runs p [] .running
  | call {o : Op} {k : Res o → Prog Op Res α} {r : Res o} {tr : List (Event Res)}
      {out : Outcome α} (h : Runs (k r) tr out) : Runs (.call o k) (⟨o, r⟩ :: tr) out

@[simp] theorem returns_ret {a b : α} {tr : List (Event Res)} :
    Runs (Prog.ret a : Prog Op Res α) tr (.returned b) ↔ tr = [] ∧ b = a := by
  constructor
  · rintro ⟨⟩
    exact ⟨rfl, rfl⟩
  · rintro ⟨rfl, rfl⟩
    exact .ret _

@[simp] theorem returns_die {why : String} {b : α} {tr : List (Event Res)} :
    ¬ Runs (Prog.die why : Prog Op Res α) tr (.returned b) := by
  rintro ⟨⟩

theorem runs_call {o : Op} {k : Res o → Prog Op Res α} {tr : List (Event Res)}
    {out : Outcome α} :
    Runs (.call o k) tr out ↔ (tr = [] ∧ out = .running) ∨
      ∃ (r : Res o) (rest : List (Event Res)), tr = ⟨o, r⟩ :: rest ∧ Runs (k r) rest out := by
  constructor
  · intro h
    cases h with
    | cut => exact .inl ⟨rfl, rfl⟩
    | call h => exact .inr ⟨_, _, rfl, h⟩
  · rintro (⟨rfl, rfl⟩ | ⟨r, rest, rfl, h⟩)
    · exact .cut _
    · exact .call h

theorem returns_call {o : Op} {k : Res o → Prog Op Res α} {tr : List (Event Res)} {b : α} :
    Runs (.call o k) tr (.returned b) ↔
      ∃ (r : Res o) (rest : List (Event Res)),
        tr = ⟨o, r⟩ :: rest ∧ Runs (k r) rest (.returned b) := by
  simp [runs_call]

theorem returns_op_bind {o : Op} {f : Res o → Prog Op Res β} {tr : List (Event Res)} {b : β} :
    Runs ((Prog.op o).bind f) tr (.returned b) ↔
      ∃ (r : Res o) (rest : List (Event Res)),
        tr = ⟨o, r⟩ :: rest ∧ Runs (f r) rest (.returned b) :=
  returns_call

theorem returns_op {o : Op} {tr : List (Event Res)} {r : Res o} :
    Runs (Prog.op o : Prog Op Res (Res o)) tr (.returned r) ↔ tr = [⟨o, r⟩] := by
  rw [Prog.op, returns_call]
  constructor
  · rintro ⟨r', rest, rfl, h⟩
    obtain ⟨rfl, rfl⟩ := returns_ret.mp h
    rfl
  · rintro rfl
    exact ⟨r, [], rfl, .ret r⟩

/-- A run of a sequence is a run of its head that stops early, or a returned run of the
head followed by a run of the rest. -/
theorem runs_bind {p : Prog Op Res α} {f : α → Prog Op Res β} {tr : List (Event Res)}
    {out : Outcome β} (h : Runs (p.bind f) tr out) :
    (∃ a t₁ t₂, tr = t₁ ++ t₂ ∧ Runs p t₁ (.returned a) ∧ Runs (f a) t₂ out) ∨
      (∃ why, Runs p tr (.died why) ∧ out = .died why) ∨
      (Runs p tr .running ∧ out = .running) := by
  induction p generalizing tr with
  | ret a => exact .inl ⟨a, [], tr, rfl, .ret a, h⟩
  | die why =>
      cases h with
      | die => exact .inr (.inl ⟨why, .die why, rfl⟩)
      | cut => exact .inr (.inr ⟨.cut _, rfl⟩)
  | call o k ih =>
      rw [bind_call, runs_call] at h
      rcases h with ⟨rfl, rfl⟩ | ⟨r, rest, rfl, h⟩
      · exact .inr (.inr ⟨.cut _, rfl⟩)
      · rcases ih r h with ⟨a, t₁, t₂, rfl, h₁, h₂⟩ | ⟨why, hd, he⟩ | ⟨hc, he⟩
        · exact .inl ⟨a, ⟨o, r⟩ :: t₁, t₂, rfl, .call h₁, h₂⟩
        · exact .inr (.inl ⟨why, .call hd, he⟩)
        · exact .inr (.inr ⟨.call hc, he⟩)

theorem Runs.bind {p : Prog Op Res α} {f : α → Prog Op Res β} {a : α}
    {t₁ t₂ : List (Event Res)} {out : Outcome β} (h₁ : Runs p t₁ (.returned a))
    (h₂ : Runs (f a) t₂ out) : Runs (p.bind f) (t₁ ++ t₂) out := by
  generalize ho : Outcome.returned a = o at h₁
  induction h₁ with
  | ret b =>
      cases ho
      exact h₂
  | die => cases ho
  | cut => cases ho
  | call h ih => exact .call (ih ho)

theorem returns_bind {p : Prog Op Res α} {f : α → Prog Op Res β} {tr : List (Event Res)}
    {b : β} :
    Runs (p.bind f) tr (.returned b) ↔
      ∃ a t₁ t₂, tr = t₁ ++ t₂ ∧ Runs p t₁ (.returned a) ∧ Runs (f a) t₂ (.returned b) := by
  constructor
  · intro h
    rcases runs_bind h with h | ⟨_, _, he⟩ | ⟨_, he⟩
    · exact h
    · cases he
    · cases he
  · rintro ⟨a, t₁, t₂, rfl, h₁, h₂⟩
    exact h₁.bind h₂

/-- Feed recorded answers to a program: its result if it consumes all of them. -/
def Prog.replay [DecidableEq Op] : Prog Op Res α → List (Event Res) → Option α
  | .ret a, [] => some a
  | .call o k, e :: tr => if h : e.1 = o then (k (h ▸ e.2)).replay tr else none
  | .ret _, _ :: _ => none
  | .die _, _ => none
  | .call _ _, [] => none

theorem Prog.runs_of_replay [DecidableEq Op] {p : Prog Op Res α} {tr : List (Event Res)} {a : α}
    (h : p.replay tr = some a) : Runs p tr (.returned a) := by
  induction p generalizing tr with
  | ret b =>
      cases tr with
      | nil =>
          obtain rfl := Option.some.inj h
          exact .ret _
      | cons e tr => cases h
  | die why => cases h
  | call o k ih =>
      cases tr with
      | nil => cases h
      | cons e tr =>
          obtain ⟨o', r⟩ := e
          rw [Prog.replay] at h
          split_ifs at h with ho
          obtain rfl : o' = o := ho
          exact .call (ih r h)

/-- The program, having made these calls, is about to make the call `o`. -/
inductive Arrives (o : Op) : Prog Op Res α → List (Event Res) → Prop
  | here (k : Res o → Prog Op Res α) : Arrives o (.call o k) []
  | call {o' : Op} {k : Res o' → Prog Op Res α} {r : Res o'} {tr : List (Event Res)}
      (h : Arrives o (k r) tr) : Arrives o (.call o' k) (⟨o', r⟩ :: tr)

theorem arrives_call {o o' : Op} {k : Res o' → Prog Op Res α} {tr : List (Event Res)} :
    Arrives o (.call o' k) tr ↔ (tr = [] ∧ o = o') ∨
      ∃ (r : Res o') (rest : List (Event Res)), tr = ⟨o', r⟩ :: rest ∧ Arrives o (k r) rest := by
  constructor
  · intro h
    cases h with
    | here => exact .inl ⟨rfl, rfl⟩
    | call h => exact .inr ⟨_, _, rfl, h⟩
  · rintro (⟨rfl, rfl⟩ | ⟨r, rest, rfl, h⟩)
    · exact .here k
    · exact .call h

theorem Arrives.runs {o : Op} {p : Prog Op Res α} {tr : List (Event Res)} (h : Arrives o p tr) :
    Runs p tr .running := by
  induction h with
  | here k => exact .cut _
  | call h ih => exact .call ih

/-- A sequence arrives at a call inside its head, or its head returns and the rest arrives. -/
theorem arrives_bind {o : Op} {p : Prog Op Res α} {f : α → Prog Op Res β}
    {tr : List (Event Res)} (h : Arrives o (p.bind f) tr) :
    Arrives o p tr ∨
      ∃ a t₁ t₂, tr = t₁ ++ t₂ ∧ Runs p t₁ (.returned a) ∧ Arrives o (f a) t₂ := by
  induction p generalizing tr with
  | ret a => exact .inr ⟨a, [], tr, rfl, .ret a, h⟩
  | die why => cases h
  | call o' k ih =>
      cases h with
      | here => exact .inl (.here k)
      | @call _ _ r tr h =>
          rcases ih r h with h | ⟨a, t₁, t₂, rfl, h₁, h₂⟩
          · exact .inl (.call h)
          · exact .inr ⟨a, ⟨o', r⟩ :: t₁, t₂, rfl, .call h₁, h₂⟩

/-- How a driven program stops: with a result, on an error, or before a call that the machine
does not answer. -/
inductive Stop (Op α : Type)
  | returned (a : α)
  | died
  | before (o : Op)
  deriving DecidableEq

/-- Run a program against a machine with a state. -/
def Prog.drive {σ : Type} (answer : σ → (o : Op) → Option (Res o × σ)) :
    Prog Op Res α → σ → List (Event Res) × Stop Op α
  | .ret a, _ => ([], .returned a)
  | .die _, _ => ([], .died)
  | .call o k, s =>
      match answer s o with
      | none => ([], .before o)
      | some (r, s) =>
          let rest := (k r).drive answer s
          (⟨o, r⟩ :: rest.1, rest.2)

/-- The state of the machine when the program stops. -/
def Prog.reached {σ : Type} (answer : σ → (o : Op) → Option (Res o × σ)) :
    Prog Op Res α → σ → σ
  | .ret _, s => s
  | .die _, s => s
  | .call o k, s =>
      match answer s o with
      | none => s
      | some (r, s) => (k r).reached answer s

theorem Prog.runs_of_drive {σ : Type} {answer : σ → (o : Op) → Option (Res o × σ)}
    {p : Prog Op Res α} {s : σ} {a : α} (h : (p.drive answer s).2 = .returned a) :
    Runs p (p.drive answer s).1 (.returned a) := by
  induction p generalizing s with
  | ret b =>
      obtain rfl := Stop.returned.inj h
      exact .ret _
  | die why => cases h
  | call o k ih =>
      rw [Prog.drive] at h ⊢
      cases ha : answer s o with
      | none =>
          rw [ha] at h
          cases h
      | some rs =>
          rw [ha] at h
          exact .call (ih rs.1 h)

theorem Prog.arrives_of_drive {σ : Type} {answer : σ → (o : Op) → Option (Res o × σ)}
    {p : Prog Op Res α} {s : σ} {o : Op} (h : (p.drive answer s).2 = .before o) :
    Arrives o p (p.drive answer s).1 := by
  induction p generalizing s with
  | ret b => cases h
  | die why => cases h
  | call o' k ih =>
      rw [Prog.drive] at h ⊢
      cases ha : answer s o' with
      | none =>
          rw [ha] at h
          obtain rfl := Stop.before.inj h
          exact .here k
      | some rs =>
          rw [ha] at h
          exact .call (ih rs.1 h)

/-- Run a program against a machine that answers every call: the result, unless it dies, and the
last state. -/
def Prog.eval {σ : Type} (answer : (o : Op) → σ → Res o × σ) : Prog Op Res α → σ → Option α × σ
  | .ret a, s => (some a, s)
  | .die _, s => (none, s)
  | .call o k, s =>
      let rs := answer o s
      (k rs.1).eval answer rs.2

@[simp] theorem eval_ret {σ : Type} (answer : (o : Op) → σ → Res o × σ) (a : α) (s : σ) :
    (Prog.ret a : Prog Op Res α).eval answer s = (some a, s) := rfl

@[simp] theorem eval_op_bind {σ : Type} (answer : (o : Op) → σ → Res o × σ) (o : Op)
    (f : Res o → Prog Op Res α) (s : σ) :
    ((Prog.op o).bind f).eval answer s = (f (answer o s).1).eval answer (answer o s).2 := rfl

theorem eval_bind {σ : Type} {answer : (o : Op) → σ → Res o × σ} {p : Prog Op Res α}
    {f : α → Prog Op Res β} {s t : σ} {a : α} (h : p.eval answer s = (some a, t)) :
    (p.bind f).eval answer s = (f a).eval answer t := by
  induction p generalizing s with
  | ret b =>
      obtain ⟨hb, rfl⟩ := Prod.mk.inj h
      obtain rfl := Option.some.inj hb
      rfl
  | die why => cases h
  | call o k ih => exact ih _ h

/-- Every call the program can make satisfies `P`. -/
def Prog.Uses (P : Op → Prop) : Prog Op Res α → Prop
  | .ret _ => True
  | .die _ => True
  | .call o k => P o ∧ ∀ r, (k r).Uses P

@[simp] theorem uses_ret (P : Op → Prop) (a : α) : (Prog.ret a : Prog Op Res α).Uses P := trivial
@[simp] theorem uses_die (P : Op → Prop) (why : String) :
    (Prog.die why : Prog Op Res α).Uses P := trivial
theorem uses_true (p : Prog Op Res α) : p.Uses fun _ => True := by
  induction p with
  | ret a => trivial
  | die why => trivial
  | call o k ih => exact ⟨trivial, ih⟩

theorem uses_op {P : Op → Prop} {o : Op} (h : P o) :
    (Prog.op o : Prog Op Res (Res o)).Uses P := ⟨h, fun _ => trivial⟩

theorem Prog.Uses.bind {P : Op → Prop} {p : Prog Op Res α} {f : α → Prog Op Res β}
    (hp : p.Uses P) (hf : ∀ a, (f a).Uses P) : (p.bind f).Uses P := by
  induction p with
  | ret a => exact hf a
  | die why => trivial
  | call o k ih => exact ⟨hp.1, fun r => ih r (hp.2 r)⟩

theorem Prog.Uses.each {P : Op → Prop} {f : β → Prog Op Res Unit} {bs : List β}
    (hf : ∀ b ∈ bs, (f b).Uses P) : (Prog.each f bs).Uses P := by
  induction bs with
  | nil => trivial
  | cons b bs ih =>
      exact (hf b (by simp)).bind fun _ => ih fun b hb => hf b (by simp [hb])

theorem Prog.Uses.mono {P Q : Op → Prop} {p : Prog Op Res α} (hp : p.Uses P)
    (h : ∀ o, P o → Q o) : p.Uses Q := by
  induction p with
  | ret a => trivial
  | die why => trivial
  | call o k ih => exact ⟨h o hp.1, fun r => ih r (hp.2 r)⟩

theorem Prog.Uses.inl {Op' : Type} {Res' : Op' → Type} {P : Op → Prop} {Q : Op ⊕ Op' → Prop}
    {p : Prog Op Res α} (hp : p.Uses P) (h : ∀ o, P o → Q (.inl o)) :
    (p.inl : Prog (Op ⊕ Op') (EitherRes Res Res') α).Uses Q := by
  induction p with
  | ret a => trivial
  | die why => trivial
  | call o k ih => exact ⟨h o hp.1, fun r => ih r (hp.2 r)⟩

theorem Prog.Uses.inr {Op' : Type} {Res' : Op' → Type} {P : Op → Prop} {Q : Op' ⊕ Op → Prop}
    {p : Prog Op Res α} (hp : p.Uses P) (h : ∀ o, P o → Q (.inr o)) :
    (p.inr : Prog (Op' ⊕ Op) (EitherRes Res' Res) α).Uses Q := by
  induction p with
  | ret a => trivial
  | die why => trivial
  | call o k ih => exact ⟨h o hp.1, fun r => ih r (hp.2 r)⟩

theorem Runs.uses {P : Op → Prop} {p : Prog Op Res α} {tr : List (Event Res)} {out : Outcome α}
    (h : Runs p tr out) (hp : p.Uses P) : ∀ e ∈ tr, P e.1 := by
  induction h with
  | ret a => simp
  | die why => simp
  | cut p => simp
  | call h ih =>
      intro e he
      rcases List.mem_cons.mp he with rfl | he
      · exact hp.1
      · exact ih (hp.2 _) e he

/-- Every complaint that the program can die with satisfies `D`. -/
def Prog.Dies (D : String → Prop) : Prog Op Res α → Prop
  | .ret _ => True
  | .die why => D why
  | .call _ k => ∀ r, (k r).Dies D

theorem Prog.Dies.bind {D : String → Prop} {p : Prog Op Res α} {f : α → Prog Op Res β}
    (hp : p.Dies D) (hf : ∀ a, (f a).Dies D) : (p.bind f).Dies D := by
  induction p with
  | ret a => exact hf a
  | die why => exact hp
  | call o k ih =>
      intro r
      exact ih r (hp r)

theorem Runs.dies {D : String → Prop} {p : Prog Op Res α} {tr : List (Event Res)} {why : String}
    (h : Runs p tr (.died why)) (hp : p.Dies D) : D why := by
  generalize hout : Outcome.died why = out at h
  induction h with
  | ret a => cases hout
  | die why' =>
      obtain rfl := Outcome.died.inj hout
      exact hp
  | cut p => cases hout
  | call h ih => exact ih (hp _) hout

/-- The marked calls of the program, in order: a run that returns makes all of them and
a run that stops early the first few. -/
def Prog.Emits {M : Type} (mark : Op → Option M) : Prog Op Res α → List M → Prop
  | .ret _, ms => ms = []
  | .die _, _ => True
  | .call o k, ms => ∃ rest, ms = (mark o).toList ++ rest ∧ ∀ r, (k r).Emits mark rest

variable {M : Type} {mark : Op → Option M}

theorem Prog.Emits.bind {p : Prog Op Res α} {f : α → Prog Op Res β} {ms ns : List M}
    (hp : p.Emits mark ms) (hf : ∀ a, (f a).Emits mark ns) : (p.bind f).Emits mark (ms ++ ns) := by
  induction p generalizing ms with
  | ret a =>
      obtain rfl : ms = [] := hp
      exact hf a
  | die why => trivial
  | call o k ih =>
      obtain ⟨rest, rfl, hk⟩ := hp
      exact ⟨rest ++ ns, List.append_assoc _ _ _, fun r => ih r (hk r)⟩

theorem Prog.Uses.emits {p : Prog Op Res α} (hp : p.Uses fun o => mark o = none) :
    p.Emits mark [] := by
  induction p with
  | ret a => rfl
  | die why => trivial
  | call o k ih =>
      refine ⟨[], ?_, fun r => ih r (hp.2 r)⟩
      rw [hp.1]
      rfl

theorem Prog.Uses.bind_emits {p : Prog Op Res α} {f : α → Prog Op Res β} {ms : List M}
    (hp : p.Uses fun o => mark o = none) (hf : ∀ a, (f a).Emits mark ms) :
    (p.bind f).Emits mark ms :=
  hp.emits.bind hf

theorem Prog.Emits.each {f : β → Prog Op Res Unit} {g : β → List M} {bs : List β}
    (hf : ∀ b, (f b).Emits mark (g b)) : (Prog.each f bs).Emits mark (bs.flatMap g) := by
  induction bs with
  | nil => rfl
  | cons b bs ih =>
      rw [List.flatMap_cons]
      exact (hf b).bind fun _ => ih

theorem Runs.emits {p : Prog Op Res α} {tr : List (Event Res)} {out : Outcome α} {ms : List M}
    (h : Runs p tr out) (hp : p.Emits mark ms) :
    tr.filterMap (fun e => mark e.1) <+: ms ∧
      ∀ a, out = .returned a → tr.filterMap (fun e => mark e.1) = ms := by
  induction h generalizing ms with
  | ret a =>
      obtain rfl : ms = [] := hp
      exact ⟨List.prefix_rfl, fun _ _ => rfl⟩
  | die why => exact ⟨List.nil_prefix, nofun⟩
  | cut p => exact ⟨List.nil_prefix, nofun⟩
  | @call o k r tr out h ih =>
      obtain ⟨rest, rfl, hk⟩ := hp
      obtain ⟨hpre, hreturned⟩ := ih (hk r)
      have hcons : (⟨o, r⟩ :: tr : List (Event Res)).filterMap (fun e => mark e.1) =
          (mark o).toList ++ tr.filterMap fun e => mark e.1 := by
        rcases hm : mark o with _ | m <;> simp [hm]
      rw [hcons]
      refine ⟨(List.prefix_append_right_inj _).mpr hpre, fun a ha => ?_⟩
      rw [hreturned a ha]

theorem Arrives.uses {P : Op → Prop} {o : Op} {p : Prog Op Res α} {tr : List (Event Res)}
    (h : Arrives o p tr) (hp : p.Uses P) : P o := by
  induction h with
  | here k => exact hp.1
  | call h ih => exact ih (hp.2 _)

/-- A program makes no marked call but those it is known for. -/
theorem Prog.Emits.uses {p : Prog Op Res α} {ms : List M} (h : p.Emits mark ms) :
    p.Uses fun o => ∀ m, mark o = some m → m ∈ ms := by
  induction p generalizing ms with
  | ret a => trivial
  | die why => trivial
  | call o k ih =>
      obtain ⟨rest, rfl, hk⟩ := h
      refine ⟨?_, fun r => (ih r (hk r)).mono fun o' hm m hom => ?_⟩
      · intro m hom
        simp [hom]
      · exact List.mem_append_right _ (hm m hom)

/-! Runs inside a world: other parties move it between any two calls, and the answer of a
call is one the world allows. -/

/-- One answered call with the world just before and just after it. -/
structure Step (W : Type u) (Res : Op → Type) where
  before : W
  event : Event Res
  after : W

variable {W : Type u}

/-- Runs in a world `W`: `adv` moves the world before each call, `sem` answers the call. -/
inductive Exec (adv : W → W → Prop) (sem : (o : Op) → W → Res o → W → Prop) :
    Prog Op Res α → W → List (Step W Res) → Outcome α → W → Prop
  | ret (a : α) (w : W) : Exec adv sem (.ret a) w [] (.returned a) w
  | die (why : String) (w : W) : Exec adv sem (.die why) w [] (.died why) w
  | cut (p : Prog Op Res α) (w : W) : Exec adv sem p w [] .running w
  | call {o : Op} {k : Res o → Prog Op Res α} {w v v' w' : W} {r : Res o}
      {tr : List (Step W Res)} {out : Outcome α} (ha : adv w v) (hs : sem o v r v')
      (h : Exec adv sem (k r) v' tr out w') :
      Exec adv sem (.call o k) w (⟨v, ⟨o, r⟩, v'⟩ :: tr) out w'

/-- Forgetting the world leaves a run against an arbitrary environment. -/
theorem Exec.runs {adv : W → W → Prop} {sem : (o : Op) → W → Res o → W → Prop}
    {p : Prog Op Res α} {w w' : W} {tr : List (Step W Res)} {out : Outcome α}
    (h : Exec adv sem p w tr out w') : Runs p (tr.map Step.event) out := by
  induction h with
  | ret a w => exact .ret a
  | die why w => exact .die why
  | cut p w => exact .cut p
  | call ha hs h ih => exact .call ih

/-- Every step of a run is a call the world answered. -/
theorem Exec.sem_of_mem {adv : W → W → Prop} {sem : (o : Op) → W → Res o → W → Prop}
    {p : Prog Op Res α} {w w' : W} {tr : List (Step W Res)} {out : Outcome α}
    (h : Exec adv sem p w tr out w') {s : Step W Res} (hs : s ∈ tr) :
    sem s.event.1 s.before s.event.2 s.after := by
  induction h with
  | ret a w => cases hs
  | die why w => cases hs
  | cut p w => cases hs
  | call ha hsem h ih =>
      rcases List.mem_cons.mp hs with rfl | hs
      · exact hsem
      · exact ih hs

/-- The steps follow each other in the world. -/
def Chained (adv : W → W → Prop) (sem : (o : Op) → W → Res o → W → Prop) :
    W → List (Step W Res) → W → Prop
  | w, [], w' => w' = w
  | w, s :: tr, w' => adv w s.before ∧ sem s.event.1 s.before s.event.2 s.after ∧
      Chained adv sem s.after tr w'

/-- A run whose steps follow each other in the world is a run in that world. -/
theorem Runs.exec {adv : W → W → Prop} {sem : (o : Op) → W → Res o → W → Prop}
    {p : Prog Op Res α} {a : α} {w w' : W} {tr : List (Step W Res)}
    (h : Runs p (tr.map Step.event) (.returned a)) (hc : Chained adv sem w tr w') :
    Exec adv sem p w tr (.returned a) w' := by
  induction tr generalizing p w with
  | nil =>
      obtain rfl := hc
      generalize ho : Outcome.returned a = out at h
      cases h with
      | ret b => exact .ret _ _
      | die why => cases ho
      | cut p => cases ho
  | cons s tr ih =>
      obtain ⟨v, ⟨o, r⟩, v'⟩ := s
      obtain ⟨hadv, hsem, hrest⟩ := hc
      cases h with
      | call h => exact .call hadv hsem (ih h hrest)

theorem exec_call {adv : W → W → Prop} {sem : (o : Op) → W → Res o → W → Prop} {o : Op}
    {k : Res o → Prog Op Res α} {w w' : W} {tr : List (Step W Res)} {b : α}
    (h : Exec adv sem (.call o k) w tr (.returned b) w') :
    ∃ (v v' : W) (r : Res o) (rest : List (Step W Res)), tr = ⟨v, ⟨o, r⟩, v'⟩ :: rest ∧
      adv w v ∧ sem o v r v' ∧ Exec adv sem (k r) v' rest (.returned b) w' := by
  cases h with
  | call ha hs h => exact ⟨_, _, _, _, rfl, ha, hs, h⟩

theorem exec_ret {adv : W → W → Prop} {sem : (o : Op) → W → Res o → W → Prop} {a b : α}
    {w w' : W} {tr : List (Step W Res)}
    (h : Exec adv sem (Prog.ret a) w tr (.returned b) w') : tr = [] ∧ b = a ∧ w' = w := by
  cases h
  exact ⟨rfl, rfl, rfl⟩

theorem exec_bind {adv : W → W → Prop} {sem : (o : Op) → W → Res o → W → Prop}
    {p : Prog Op Res α} {f : α → Prog Op Res β} {w w' : W} {tr : List (Step W Res)} {b : β}
    (h : Exec adv sem (p.bind f) w tr (.returned b) w') :
    ∃ a t₁ t₂ v, tr = t₁ ++ t₂ ∧ Exec adv sem p w t₁ (.returned a) v ∧
      Exec adv sem (f a) v t₂ (.returned b) w' := by
  induction p generalizing w tr with
  | ret a => exact ⟨a, [], tr, w, rfl, .ret a w, h⟩
  | die why => cases h
  | call o k ih =>
      obtain ⟨v, v', r, rest, rfl, ha, hs, hk⟩ := exec_call h
      obtain ⟨a, t₁, t₂, u, rfl, h₁, h₂⟩ := ih r hk
      exact ⟨a, _, t₂, u, rfl, .call ha hs h₁, h₂⟩

/-- A returned run of the head goes on with a run of the rest. -/
theorem Exec.bind {adv : W → W → Prop} {sem : (o : Op) → W → Res o → W → Prop}
    {p : Prog Op Res α} {f : α → Prog Op Res β} {a : α} {w v w' : W}
    {t₁ t₂ : List (Step W Res)} {out : Outcome β} (h₁ : Exec adv sem p w t₁ (.returned a) v)
    (h₂ : Exec adv sem (f a) v t₂ out w') : Exec adv sem (p.bind f) w (t₁ ++ t₂) out w' := by
  generalize ho : Outcome.returned a = o at h₁
  induction h₁ with
  | ret b w =>
      cases ho
      exact h₂
  | die => cases ho
  | cut => cases ho
  | call ha hs h ih => exact .call ha hs (ih h₂ ho)

/-- A returned loop over a list inside a world is one returned run for each element. -/
theorem exec_each {adv : W → W → Prop} {sem : (o : Op) → W → Res o → W → Prop}
    {f : β → Prog Op Res Unit} {P : β → List (Step W Res) → Prop} {bs : List β} {w w' : W}
    {tr : List (Step W Res)} (h : Exec adv sem (Prog.each f bs) w tr (.returned ()) w')
    (hf : ∀ {b v v' t}, Exec adv sem (f b) v t (.returned ()) v' → P b t) :
    ∃ parts : List (List (Step W Res)), tr = parts.flatten ∧ List.Forall₂ P bs parts := by
  induction bs generalizing w tr with
  | nil =>
      obtain ⟨rfl, -, -⟩ := exec_ret h
      exact ⟨[], rfl, .nil⟩
  | cons b bs ih =>
      obtain ⟨_, t₁, t₂, v, rfl, h₁, h₂⟩ := exec_bind h
      obtain ⟨parts, rfl, hparts⟩ := ih h₂
      exact ⟨t₁ :: parts, rfl, .cons (hf h₁) hparts⟩

/-! Unbounded loops: the body answers `inl` to go round again and `inr` to leave. -/

/-- Runs of a loop, one trace for each turn taken. -/
inductive LoopRuns {S R : Type} (body : S → Prog Op Res (S ⊕ R)) :
    S → List (List (Event Res)) → Outcome R → Prop
  | next {s t : S} {tr : List (Event Res)} {trs : List (List (Event Res))} {out : Outcome R}
      (h : Runs (body s) tr (.returned (.inl t))) (hs : LoopRuns body t trs out) :
      LoopRuns body s (tr :: trs) out
  | leave {s : S} {r : R} {tr : List (Event Res)}
      (h : Runs (body s) tr (.returned (.inr r))) : LoopRuns body s [tr] (.returned r)
  | died {s : S} {why : String} {tr : List (Event Res)} (h : Runs (body s) tr (.died why)) :
      LoopRuns body s [tr] (.died why)
  | running {s : S} {tr : List (Event Res)} (h : Runs (body s) tr .running) :
      LoopRuns body s [tr] .running

/-- Feed recorded answers to a loop, one list for each turn. -/
def replayLoop [DecidableEq Op] {S R : Type} (body : S → Prog Op Res (S ⊕ R)) :
    S → List (List (Event Res)) → Option R
  | _, [] => none
  | s, tr :: trs =>
      match (body s).replay tr with
      | some (.inl t) => replayLoop body t trs
      | some (.inr r) => if trs.isEmpty then some r else none
      | none => none

theorem loopRuns_of_replayLoop [DecidableEq Op] {S R : Type} {body : S → Prog Op Res (S ⊕ R)}
    {s : S} {trs : List (List (Event Res))} {r : R} (h : replayLoop body s trs = some r) :
    LoopRuns body s trs (.returned r) := by
  induction trs generalizing s with
  | nil => cases h
  | cons tr trs ih =>
      rw [replayLoop] at h
      split at h
      · rename_i t ht
        exact .next (Prog.runs_of_replay ht) (ih h)
      · rename_i r' hr
        split_ifs at h with he
        obtain rfl := Option.some.inj h
        obtain rfl := List.isEmpty_iff.mp he
        exact .leave (Prog.runs_of_replay hr)
      · cases h

/-- A measure that every completed turn decreases bounds the number of turns. -/
theorem LoopRuns.length_le {S R : Type} {body : S → Prog Op Res (S ⊕ R)} (P : S → Prop)
    (measure : S → ℕ)
    (turn : ∀ {s t : S} {tr : List (Event Res)}, P s →
      Runs (body s) tr (.returned (.inl t)) → P t ∧ measure t < measure s)
    {s : S} {trs : List (List (Event Res))} {out : Outcome R} (hP : P s)
    (h : LoopRuns body s trs out) : trs.length ≤ measure s + 1 := by
  induction h with
  | next h hs ih =>
      obtain ⟨hP', hlt⟩ := turn hP h
      have := ih hP'
      simp only [List.length_cons]
      omega
  | leave h => simp
  | died h => simp
  | running h => simp

end HasherPriv.Foundations.Program
