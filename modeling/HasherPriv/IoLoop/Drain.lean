/- GID: HasherPriv/IoLoop/Drain
   layer: input and output loop
   source: parent.c
   digest: How the loop of the parent ends, and what has become of the child's output by then. -/

import HasherPriv.IoLoop.Descriptors
import HasherPriv.IoLoop.Relay

set_option autoImplicit false
set_option relaxedAutoImplicit false

namespace HasherPriv.IoLoop.Drain

open Foundations.ByteString (Bytes)
open Foundations.Program
open Foundations.Contracts
open Foundations.Handles
open Calls
open Log
open X11
open Parent
open Descriptors
open Relay (Events Ends ends_append)

/-! What a run can tell. -/

/-- Each chunk that is read from the one is written to the other at once, and all of it. -/
def Forwards (slaveFd masterFd : ℤ) : Events → Prop
  | [] => True
  | e :: tr =>
      (∀ size d, e = ⟨.read slaveFd size, some d⟩ → d.val ≠ [] →
        ∃ total rest, tr =
          ⟨.writeAll masterFd d.val total, some (Fin.last d.val.length)⟩ :: rest) ∧
      Forwards slaveFd masterFd tr

/-- A write to the descriptor fails, or takes nothing. -/
def WriteFails (fd : ℤ) (tr : Events) : Prop :=
  ∃ (data : Bytes) (r : Option (Fin (data.length + 1))),
    (⟨.write fd data, r⟩ : Event IoRes) ∈ tr ∧ r.elim 0 Fin.val = 0

/-- The descriptors of the child's error and output, and where they go. -/
def outputs (s : State) : List (ℤ × ℤ) :=
  [(s.io.slaveReadErrFd, s.io.masterWriteErrFd), (s.io.slaveReadOutFd, s.io.masterWriteOutFd)]

/-- There is no child any more, and its error and output have been forwarded up to the end of the
file or an error. -/
structure Drained (s : State) (all last : Events) : Prop where
  reaped : (⟨.childPid, false⟩ : Event IoRes) ∈ last
  ended : ∀ p ∈ outputs s, 0 ≤ p.1 → Ends p.1 all ∧ Forwards p.1 p.2 all

section Traces

variable {slaveFd masterFd : ℤ} {tr tr' : Events}

theorem forwards_append (h : Forwards slaveFd masterFd tr) (h' : Forwards slaveFd masterFd tr') :
    Forwards slaveFd masterFd (tr ++ tr') := by
  induction tr with
  | nil => exact h'
  | cons e tr ih =>
      refine ⟨?_, ih h.2⟩
      intro size d he hd
      obtain ⟨total, rest, rfl⟩ := h.1 size d he hd
      exact ⟨total, rest ++ tr', rfl⟩

/-- Where the descriptor is not read there is nothing to forward. -/
theorem forwards_of_unread (h : ∀ e ∈ tr, ∀ size, e.1 ≠ .read slaveFd size) :
    Forwards slaveFd masterFd tr := by
  induction tr with
  | nil => trivial
  | cons e tr ih =>
      obtain ⟨he, htr⟩ := List.forall_mem_cons.mp h
      refine ⟨?_, ih htr⟩
      rintro size d rfl
      exact absurd rfl (he size)

theorem writeFails_append {fd : ℤ} :
    WriteFails fd (tr ++ tr') ↔ WriteFails fd tr ∨ WriteFails fd tr' := by
  constructor
  · rintro ⟨data, r, hmem, hr⟩
    rcases List.mem_append.mp hmem with hmem | hmem
    · exact Or.inl ⟨data, r, hmem, hr⟩
    · exact Or.inr ⟨data, r, hmem, hr⟩
  · rintro (⟨data, r, hmem, hr⟩ | ⟨data, r, hmem, hr⟩)
    · exact ⟨data, r, List.mem_append_left _ hmem, hr⟩
    · exact ⟨data, r, List.mem_append_right _ hmem, hr⟩

end Traces

/-- What is forwarded, and no write to the child that fails. -/
structure Clean (s₀ : State) (tr : Events) : Prop where
  forwards : ∀ p ∈ outputs s₀, 0 ≤ p.1 → Forwards p.1 p.2 tr
  writes : ¬ WriteFails s₀.io.slaveWriteFd tr

theorem Clean.append {s₀ : State} {tr tr' : Events} (h : Clean s₀ tr) (h' : Clean s₀ tr') :
    Clean s₀ (tr ++ tr') where
  forwards := by
    intro p hp hpos
    exact forwards_append (h.forwards p hp hpos) (h'.forwards p hp hpos)
  writes := by
    rw [writeFails_append]
    exact not_or.mpr ⟨h.writes, h'.writes⟩

/-- The calls that neither read nor write what the claims are about. -/
theorem clean_of_elsewhere {s₀ : State} {tr : Events}
    (hread : ∀ p ∈ outputs s₀, 0 ≤ p.1 → ∀ e ∈ tr, ∀ size, e.1 ≠ .read p.1 size)
    (hwrite : ∀ e ∈ tr, ∀ data, e.1 ≠ .write s₀.io.slaveWriteFd data) : Clean s₀ tr where
  forwards := by
    intro p hp hpos
    exact forwards_of_unread (hread p hp hpos)
  writes := by
    rintro ⟨data, r, hmem, -⟩
    exact hwrite _ hmem data rfl

/-! The parts of `handle_io`. -/

/-- The calls of `copyChild`, and the descriptor that it leaves. -/
inductive Copies (slaveFd masterFd : ℤ) : Events → ℤ → Prop
  | idle : Copies slaveFd masterFd [] slaveFd
  | ended (x : Option { d : Bytes // d.length ≤ bufsiz }) (hfd : 0 ≤ slaveFd)
      (hx : ∀ d, x = some d → d.val = []) :
      Copies slaveFd masterFd [⟨.read slaveFd bufsiz, x⟩] (-1)
  | forwarded (d : { d : Bytes // d.length ≤ bufsiz }) (total : ℕ) (hfd : 0 ≤ slaveFd)
      (hd : d.val ≠ []) :
      Copies slaveFd masterFd
        [⟨.read slaveFd bufsiz, some d⟩,
          ⟨.writeAll masterFd d.val total, some (Fin.last d.val.length)⟩] slaveFd

theorem copyChild_copies {reads : FdSet} {slaveFd masterFd : ℤ} {total : ℕ} {tr : Events}
    {r : ℤ × ℕ} (h : Runs (copyChild reads slaveFd masterFd total) tr (.returned r)) :
    Copies slaveFd masterFd tr r.1 := by
  unfold copyChild at h
  by_cases hready : fdsIsset reads slaveFd = true
  · have hfd : 0 ≤ slaveFd := by
      obtain ⟨n, hn, -⟩ := exists_of_fdsIsset hready
      omega
    rw [if_neg (not_not.mpr hready)] at h
    obtain ⟨x, rest, rfl, hx⟩ := returns_op_bind.mp h
    cases x with
    | none =>
        obtain ⟨rfl, rfl⟩ := returns_ret.mp hx
        exact .ended none hfd fun d hd => by cases hd
    | some d =>
        change Runs (ite _ _ _) rest _ at hx
        by_cases hnil : d.val = []
        · rw [if_pos hnil] at hx
          obtain ⟨rfl, rfl⟩ := returns_ret.mp hx
          refine .ended (some d) hfd ?_
          rintro d' ⟨⟩
          exact hnil
        · rw [if_neg hnil] at hx
          obtain ⟨t, t₁, t₂, rfl, hwrite, hret⟩ := returns_bind.mp hx
          obtain ⟨rfl, rfl⟩ := returns_ret.mp hret
          rw [xwriteAll, if_neg hnil] at hwrite
          obtain ⟨n, rest, rfl, hn⟩ := returns_op_bind.mp hwrite
          cases n with
          | none => exact (returns_die hn).elim
          | some n =>
              change Runs (ite _ _ _) rest _ at hn
              by_cases hshort : n.val ≠ d.val.length
              · rw [if_pos hshort] at hn
                exact (returns_die hn).elim
              · rw [if_neg hshort] at hn
                obtain ⟨rfl, -⟩ := returns_ret.mp hn
                have hall : n = Fin.last d.val.length := Fin.ext (not_not.mp hshort)
                rw [hall]
                exact .forwarded d total hfd hnil
  · rw [if_pos hready] at h
    obtain ⟨rfl, rfl⟩ := returns_ret.mp h
    exact .idle

/-- What the handling of the child's input leaves alone. -/
theorem writeChild_cases {writes : FdSet} {s : State} {tr : Events} {r : Option State}
    (h : Runs (writeChild writes s) tr (.returned r)) :
    (∃ b total, r = some { s with totalBytesRead := total, io := { s.io with masterBuf := b } } ∧
      ∀ e ∈ tr, ∃ (data : Bytes) (x : Option (Fin (data.length + 1))),
        e = ⟨.write s.io.slaveWriteFd data, x⟩ ∧ x.elim 0 Fin.val ≠ 0) ∨
      (r = none ∧ fdsIsset writes s.io.slaveWriteFd = true ∧
        ∃ (data : Bytes) (x : Option (Fin (data.length + 1))),
          tr = [⟨.write s.io.slaveWriteFd data, x⟩] ∧ x.elim 0 Fin.val = 0) := by
  unfold writeChild at h
  by_cases hready : s.io.masterBuf.avail ≠ 0 ∧ fdsIsset writes s.io.slaveWriteFd = true
  · rw [if_pos hready] at h
    obtain ⟨x, rest, rfl, hx⟩ := returns_op_bind.mp h
    cases x with
    | none =>
        obtain ⟨rfl, rfl⟩ := returns_ret.mp hx
        exact Or.inr ⟨rfl, hready.2, _, none, rfl, rfl⟩
    | some n =>
        change Runs (ite _ _ _) rest _ at hx
        by_cases hzero : n.val = 0
        · rw [if_pos hzero] at hx
          obtain ⟨rfl, rfl⟩ := returns_ret.mp hx
          exact Or.inr ⟨rfl, hready.2, _, some n, rfl, hzero⟩
        · rw [if_neg hzero] at hx
          obtain ⟨rfl, rfl⟩ := returns_ret.mp hx
          refine Or.inl ⟨_, _, rfl, ?_⟩
          intro e he
          exact ⟨_, some n, List.mem_singleton.mp he, hzero⟩
  · rw [if_neg hready] at h
    obtain ⟨rfl, rfl⟩ := returns_ret.mp h
    refine Or.inl ⟨s.io.masterBuf, s.totalBytesRead, rfl, ?_⟩
    intro e he
    cases he

theorem readTty_cases {reads : FdSet} {s t : State} {tr : Events}
    (h : Runs (readTty reads s) tr (.returned t)) :
    (∀ e ∈ tr, e.1 = .read s.io.masterReadFd bufsiz) ∧
      ∃ b fd, (fd = s.io.masterReadFd ∨ fd = -1) ∧
        t = { s with io := { s.io with masterBuf := b, masterReadFd := fd } } := by
  unfold readTty at h
  by_cases hready : s.io.masterBuf.avail = 0 ∧ fdsIsset reads s.io.masterReadFd = true
  · rw [if_pos hready] at h
    obtain ⟨x, rest, rfl, hx⟩ := returns_op_bind.mp h
    cases x with
    | none =>
        obtain ⟨rfl, rfl⟩ := returns_ret.mp hx
        refine ⟨?_, _, _, Or.inr rfl, rfl⟩
        intro e he
        rw [List.mem_singleton.mp he]
    | some d =>
        obtain ⟨rfl, rfl⟩ := returns_ret.mp hx
        refine ⟨?_, _, _, Or.inl rfl, rfl⟩
        intro e he
        rw [List.mem_singleton.mp he]
  · rw [if_neg hready] at h
    obtain ⟨rfl, rfl⟩ := returns_ret.mp h
    refine ⟨?_, _, _, Or.inl rfl, rfl⟩
    intro e he
    cases he

/-! What holds between two calls of `handle_io`. -/

/-- Different outputs have different descriptors, behind the standard ones. -/
structure Plugged (s₀ : State) : Prop where
  different : ∀ p ∈ outputs s₀, ∀ q ∈ outputs s₀, 0 ≤ p.1 → p.1 = q.1 → p.2 = q.2
  behind : ∀ p ∈ outputs s₀, p.1 = -1 ∨ 2 < p.1
  terminal : s₀.io.masterReadFd ≤ 0

/-- The descriptor is there, or it has been forgotten at its end. -/
def Watched (fd₀ fd : ℤ) (tr : Events) : Prop := fd = fd₀ ∨ (fd = -1 ∧ Ends fd₀ tr)

theorem Watched.append {fd₀ fd : ℤ} {tr : Events} (h : Watched fd₀ fd tr) (tr' : Events) :
    Watched fd₀ fd (tr ++ tr') := by
  rcases h with h | ⟨hfd, hends⟩
  · exact Or.inl h
  · exact Or.inr ⟨hfd, ends_append.mpr (Or.inl hends)⟩

structure Draining (c : Setup) (s₀ s : State) (t : Table) (tr : Events) : Prop where
  apart : Apart c s t
  spared : ∀ n ∈ kept s₀, Spared c s t n
  err : Watched s₀.io.slaveReadErrFd s.io.slaveReadErrFd tr
  out : Watched s₀.io.slaveReadOutFd s.io.slaveReadOutFd tr
  input : s.io.slaveWriteFd = s₀.io.slaveWriteFd
  terminal : s.io.masterReadFd ≤ 0
  stderr : s.io.masterWriteErrFd = s₀.io.masterWriteErrFd
  stdout : s.io.masterWriteOutFd = s₀.io.masterWriteOutFd
  clean : Clean s₀ tr

section Steps

variable {c : Setup} {s₀ s : State} {t t' : Table} {hist : Events} {reads writes : FdSet}

theorem Copies.step {slaveFd masterFd fd₀ fd : ℤ} {tr : Events} (hplugged : Plugged s₀)
    (hp : (fd₀, masterFd) ∈ outputs s₀) (hfd : Watched fd₀ slaveFd hist)
    (h : Copies slaveFd masterFd tr fd) : Clean s₀ tr ∧ Watched fd₀ fd (hist ++ tr) := by
  cases h with
  | idle =>
      refine ⟨clean_of_elsewhere ?_ ?_, hfd.append []⟩
      · intro p _ _ e he
        cases he
      · intro e he
        cases he
  | ended x hpos hx =>
      have hsame : slaveFd = fd₀ := hfd.resolve_right fun hend => by omega
      subst hsame
      refine ⟨⟨?_, ?_⟩, Or.inr ⟨rfl, ends_append.mpr (Or.inr ?_)⟩⟩
      · rintro ⟨fd, master⟩ _ _
        refine ⟨?_, trivial⟩
        intro size d he hd
        cases he
        exact absurd (hx d rfl) hd
      · rintro ⟨data, r, hmem, -⟩
        cases List.mem_singleton.mp hmem
      · exact ⟨bufsiz, x, List.mem_singleton_self _, hx⟩
  | forwarded d total hpos hd =>
      have hsame : slaveFd = fd₀ := hfd.resolve_right fun hend => by omega
      subst hsame
      refine ⟨⟨?_, ?_⟩, Or.inl rfl⟩
      · rintro ⟨fd, master⟩ hq hq0
        refine ⟨?_, ?_, trivial⟩
        · intro size d' he hd'
          cases he
          obtain rfl : master = masterFd := hplugged.different _ hq _ hp hq0 rfl
          exact ⟨total, [], rfl⟩
        · intro size d' he
          cases he
      · rintro ⟨data, r, hmem, -⟩
        rcases List.mem_cons.mp hmem with he | hmem
        · cases he
        · cases List.mem_singleton.mp hmem

/-- The calls that are about data. -/
def Moving : IoOp → Prop
  | .read _ _ | .write _ _ | .writeAll _ _ _ => True
  | _ => False

theorem table_of_moving {α : Type} {p : IoProg α} {tr : List (Step Table IoRes)} {out : Outcome α}
    (h : Exec (· = ·) Answers p t tr out t') (hmoving : ∀ e ∈ tr.map Step.event, Moving e.1) :
    t' = t := by
  induction h with
  | ret a w => rfl
  | die why w => rfl
  | cut p w => rfl
  | @call o k w v v' w' r tr out ha hs h ih =>
      subst ha
      rw [List.map_cons] at hmoving
      obtain ⟨ho, hrest⟩ := List.forall_mem_cons.mp hmoving
      rw [ih hrest]
      cases o with
      | read fd size => exact hs
      | write fd data => exact hs
      | writeAll fd data total => exact hs
      | _ => exact ho.elim

theorem Copies.moving {slaveFd masterFd fd : ℤ} {tr : Events}
    (h : Copies slaveFd masterFd tr fd) : ∀ e ∈ tr, Moving e.1 := by
  intro e he
  cases h with
  | idle => cases he
  | ended x _ _ =>
      rw [List.mem_singleton.mp he]
      trivial
  | forwarded d total _ _ =>
      rcases List.mem_cons.mp he with rfl | he
      · trivial
      · rw [List.mem_singleton.mp he]
        trivial

theorem mem_kept_of_output {p : ℤ × ℤ} (hp : p ∈ outputs s₀) {n : ℕ} (hn : p.1 = n) :
    n ∈ kept s₀ := by
  have hnumber : n ∈ number p.1 := by
    rw [hn, number_natCast]
    exact List.mem_singleton_self n
  rcases List.mem_cons.mp hp with rfl | hp
  · exact List.mem_append_left _ hnumber
  · obtain rfl := List.mem_singleton.mp hp
    exact List.mem_append_right _ (List.mem_append_left _ hnumber)

theorem mem_kept_of_input {n : ℕ} (hn : s₀.io.slaveWriteFd = n) : n ∈ kept s₀ := by
  have hnumber : n ∈ number s₀.io.slaveWriteFd := by
    rw [hn, number_natCast]
    exact List.mem_singleton_self n
  exact List.mem_append_right _ (List.mem_append_right _ (List.mem_append_left _ hnumber))

/-- The other handlers leave the child's descriptors alone. -/
theorem handleOthers_clean {s' : State} {tr : List (Step Table IoRes)}
    (howns : Owns t (owned c s)) (hspared : ∀ n ∈ kept s₀, n ∉ owned c s)
    (h : Exec (· = ·) Answers (handleOthers c reads writes s) t tr (.returned s') t') :
    Clean s₀ (tr.map Step.event) ∧ s'.io = s.io := by
  obtain ⟨hsteps, hpost⟩ := (handleOthers_actsOn howns).exec h
  have hevents : ∀ e ∈ tr.map Step.event, ∀ d fd, acted e.1 = some (d, fd) →
      ∃ n ∈ owned c s, fd = n := by
    intro e he
    obtain ⟨u, hu, rfl⟩ := List.mem_map.mp he
    exact hsteps u hu
  refine ⟨clean_of_elsewhere ?_ ?_, (hpost s' rfl).2⟩
  · intro p hp _ e he size hread
    obtain ⟨n, hn, hfd⟩ := hevents e he .reads p.1 (by rw [hread]; rfl)
    exact hspared n (mem_kept_of_output hp hfd) hn
  · intro e he data hwrite
    obtain ⟨n, hn, hfd⟩ := hevents e he .writes s₀.io.slaveWriteFd (by rw [hwrite]; rfl)
    exact hspared n (mem_kept_of_input hfd) hn

/-- Writes to the child that do not fail. -/
theorem clean_of_written {tr : Events} (h : ∀ e ∈ tr, ∃ (data : Bytes)
    (x : Option (Fin (data.length + 1))),
      e = ⟨.write s₀.io.slaveWriteFd data, x⟩ ∧ x.elim 0 Fin.val ≠ 0) :
    Clean s₀ tr ∧ ∀ e ∈ tr, Moving e.1 := by
  refine ⟨⟨fun p _ _ => forwards_of_unread ?_, ?_⟩, ?_⟩
  · intro e he size hread
    obtain ⟨data, x, rfl, -⟩ := h e he
    cases hread
  · rintro ⟨data, x, hmem, hx⟩
    obtain ⟨data', x', heq, hx'⟩ := h _ hmem
    cases heq
    exact hx' hx
  · intro e he
    obtain ⟨data, x, rfl, -⟩ := h e he
    trivial

/-- Reads from the terminal. -/
theorem clean_of_terminal {fd : ℤ} {tr : Events} (hplugged : Plugged s₀) (hfd : fd ≤ 0)
    (h : ∀ e ∈ tr, e.1 = .read fd bufsiz) : Clean s₀ tr ∧ ∀ e ∈ tr, Moving e.1 := by
  refine ⟨clean_of_elsewhere ?_ ?_, ?_⟩
  · intro p hp hpos e he size hread
    rw [h e he] at hread
    have hsame : fd = p.1 := by
      injection hread
    have hbehind := hplugged.behind p hp
    omega
  · intro e he data hwrite
    rw [h e he] at hwrite
    cases hwrite
  · intro e he
    rw [h e he]
    trivial

theorem handleReady_draining {tr : List (Step Table IoRes)} {r : Option State}
    (hplugged : Plugged s₀) (hs : Draining c s₀ s t hist)
    (h : Exec (· = ·) Answers (handleReady c reads writes s) t tr (.returned r) t') :
    (∃ s', r = some s' ∧ Draining c s₀ s' t' (hist ++ tr.map Step.event)) ∨
      (r = none ∧ fdsIsset writes s₀.io.slaveWriteFd = true ∧
        WriteFails s₀.io.slaveWriteFd (tr.map Step.event)) := by
  have hmoves := ((handleReady_acts hs.apart).exec h).2 r rfl
  rw [handleReady_eq] at h
  obtain ⟨⟨err, total₁⟩, tr₁, _, v₁, rfl, hcopy₁, hrest₁⟩ := exec_bind h
  obtain ⟨⟨out, total₂⟩, tr₂, _, v₂, rfl, hcopy₂, hrest₂⟩ := exec_bind hrest₁
  obtain ⟨written, tr₃, _, v₃, rfl, hwrite, hrest₃⟩ := exec_bind hrest₂
  have herr := copyChild_copies hcopy₁.runs
  have hout := copyChild_copies hcopy₂.runs
  obtain rfl := table_of_moving hcopy₁ herr.moving
  obtain rfl := table_of_moving hcopy₂ hout.moving
  rw [hs.stderr] at herr
  rw [hs.stdout] at hout
  obtain ⟨hclean₁, herr₁⟩ := herr.step hplugged List.mem_cons_self hs.err
  obtain ⟨hclean₂, hout₂⟩ := hout.step hplugged (List.mem_cons_of_mem _ List.mem_cons_self)
    (hs.out.append (tr₁.map Step.event))
  rcases writeChild_cases hwrite.runs with ⟨b, total, rfl, hevents⟩ | ⟨rfl, hset, data, x, heq, hx⟩
  · have hwritten : ∀ e ∈ tr₃.map Step.event, ∃ (data : Bytes) (x : Option (Fin (data.length + 1))),
        e = ⟨.write s₀.io.slaveWriteFd data, x⟩ ∧ x.elim 0 Fin.val ≠ 0 := by
      rw [← hs.input]
      exact hevents
    obtain ⟨hclean₃, hmoving₃⟩ := clean_of_written hwritten
    obtain rfl := table_of_moving hwrite hmoving₃
    obtain ⟨s₂, tr₄, _, v₄, rfl, hread, hrest₄⟩ := exec_bind hrest₃
    obtain ⟨s₃, tr₅, _, v₅, rfl, hothers, hend⟩ := exec_bind hrest₄
    obtain ⟨rfl, rfl, rfl⟩ := exec_ret hend
    obtain ⟨hterminal, b', fd, hfd, hs₂⟩ := readTty_cases hread.runs
    obtain ⟨hclean₄, hmoving₄⟩ := clean_of_terminal hplugged hs.terminal hterminal
    obtain rfl := table_of_moving hread hmoving₄
    have howned : owned c s₂ = owned c s := by
      rw [hs₂]
      rfl
    have howns : Owns v₄ (owned c s₂) := by
      rw [howned]
      exact hs.apart.owns
    have hspared : ∀ n ∈ kept s₀, n ∉ owned c s₂ := by
      intro n hn
      rw [howned]
      exact (hs.spared n hn).other
    obtain ⟨hclean₅, hio⟩ := handleOthers_clean howns hspared hothers
    rw [hs₂] at hio
    obtain ⟨hmoved, hkept⟩ := hmoves s₃ rfl
    have htrace : hist ++ (tr₁ ++ (tr₂ ++ (tr₃ ++ (tr₄ ++ (tr₅ ++ []))))).map Step.event =
        hist ++ tr₁.map Step.event ++ tr₂.map Step.event ++ tr₃.map Step.event ++
          tr₄.map Step.event ++ tr₅.map Step.event := by
      simp only [List.map_append, List.append_nil, List.append_assoc]
    rw [htrace]
    refine Or.inl ⟨s₃, rfl, hs.apart.moves hmoved hkept, ?_, ?_, ?_, ?_, ?_, ?_, ?_, ?_⟩
    · intro n hn
      exact (hs.spared n hn).moves hmoved
    · rw [hio]
      exact (((herr₁.append _).append _).append _).append _
    · rw [hio]
      exact ((hout₂.append _).append _).append _
    · rw [hio]
      exact hs.input
    · rw [hio]
      rcases hfd with rfl | rfl
      · exact hs.terminal
      · show (-1 : ℤ) ≤ 0
        omega
    · rw [hio]
      exact hs.stderr
    · rw [hio]
      exact hs.stdout
    · exact ((((hs.clean.append hclean₁).append hclean₂).append hclean₃).append hclean₄).append
        hclean₅
  · obtain ⟨rfl, hnone, -⟩ := exec_ret hrest₃
    have hwritten : tr₃.map Step.event = [⟨.write s₀.io.slaveWriteFd data, x⟩] := by
      rw [← hs.input]
      exact heq
    rw [List.append_nil, List.map_append, List.map_append, hwritten]
    refine Or.inr ⟨hnone, ?_, ?_⟩
    · rw [← hs.input]
      exact hset
    · refine writeFails_append.mpr (Or.inr (writeFails_append.mpr (Or.inr ?_)))
      exact ⟨data, x, List.mem_singleton_self _, hx⟩

end Steps

/-! What is selected. -/

section Sets

variable {sets : Sets}

theorem le_addRead (fd : ℤ) (sets : Sets) :
    sets.maxFd ≤ (sets.addRead fd).maxFd ∧ (0 ≤ fd → fd ≤ (sets.addRead fd).maxFd) := by
  unfold Sets.addRead
  split_ifs with hneg hgreater
  · exact ⟨le_rfl, fun hpos => by omega⟩
  · exact ⟨hgreater.le, fun _ => le_rfl⟩
  · exact ⟨le_rfl, fun _ => not_lt.mp hgreater⟩

theorem le_addWrite (fd : ℤ) (sets : Sets) : sets.maxFd ≤ (sets.addWrite fd).maxFd := by
  unfold Sets.addWrite
  split_ifs with hneg hgreater
  · exact le_rfl
  · exact hgreater.le
  · exact le_rfl

theorem le_fdsAddLog (l : List ℤ) (sets : Sets) : sets.maxFd ≤ (fdsAddLog l sets).maxFd := by
  induction l generalizing sets with
  | nil => exact le_rfl
  | cons fd l ih => exact (le_addRead fd sets).1.trans (ih _)

theorem le_addFds (io : IoX11) (sets : Sets) : sets.maxFd ≤ (io.addFds sets).maxFd := by
  unfold IoX11.addFds
  dsimp only
  split_ifs
  · exact (le_addWrite _ _).trans (le_addWrite _ _)
  · exact (le_addRead _ _).1.trans (le_addWrite _ _)
  · exact (le_addWrite _ _).trans (le_addRead _ _).1
  · exact (le_addRead _ _).1.trans (le_addRead _ _).1

theorem le_fdsAddX11 (l : IoX11List) (sets : Sets) : sets.maxFd ≤ (fdsAddX11 l sets).maxFd := by
  induction l generalizing sets with
  | nil => exact le_rfl
  | cons entry l ih =>
      cases entry with
      | none => exact ih sets
      | some io => exact (le_addFds io sets).trans (ih _)

/-- With so few descriptors there is no output of the child to wait for. -/
theorem forgotten_of_maxFd {s : State} (h : (lastingFds s).maxFd ≤ 1) :
    s.io.slaveReadErrFd ≤ 1 ∧ s.io.slaveReadOutFd ≤ 1 := by
  have hout := le_addRead s.io.slaveReadOutFd {}
  have herr := le_addRead s.io.slaveReadErrFd (({} : Sets).addRead s.io.slaveReadOutFd)
  have hlog := le_fdsAddLog s.fdList
    ((({} : Sets).addRead s.io.slaveReadOutFd).addRead s.io.slaveReadErrFd)
  have hx11 : _ ≤ (lastingFds s).maxFd := le_fdsAddX11 s.x11List _
  constructor
  · by_cases hpos : 0 ≤ s.io.slaveReadErrFd
    · have hle := herr.2 hpos
      omega
    · omega
  · by_cases hpos : 0 ≤ s.io.slaveReadOutFd
    · have hle := hout.2 hpos
      omega
    · omega

theorem fdsAddLog_writes (l : List ℤ) (sets : Sets) :
    (fdsAddLog l sets).writes = sets.writes := by
  induction l generalizing sets with
  | nil => rfl
  | cons fd l ih => exact (ih _).trans (Sets.addRead_writes fd sets)

theorem addFds_writes {io : IoX11} {n : ℕ} (h : n ∈ (io.addFds sets).writes) :
    n ∈ sets.writes ∨ n ∈ ioNumbers io := by
  have hmaster : io.masterFd = n → n ∈ ioNumbers io := by
    intro hn
    apply List.mem_append_left
    rw [hn, number_natCast]
    exact List.mem_singleton_self n
  have hslave : io.slaveFd = n → n ∈ ioNumbers io := by
    intro hn
    apply List.mem_append_right
    rw [hn, number_natCast]
    exact List.mem_singleton_self n
  unfold IoX11.addFds at h
  dsimp only at h
  split_ifs at h
  · rcases Sets.mem_addWrite.mp h with h | h
    · exact (Sets.mem_addWrite.mp h).imp_right hmaster
    · exact Or.inr (hslave h)
  · rw [Sets.mem_addWrite, Sets.addRead_writes] at h
    exact h.imp_right hslave
  · rw [Sets.addRead_writes] at h
    exact (Sets.mem_addWrite.mp h).imp_right hmaster
  · rw [Sets.addRead_writes, Sets.addRead_writes] at h
    exact Or.inl h

theorem fdsAddX11_writes {l : IoX11List} {n : ℕ} (h : n ∈ (fdsAddX11 l sets).writes) :
    n ∈ sets.writes ∨ n ∈ x11Numbers l := by
  induction l generalizing sets with
  | nil => exact Or.inl h
  | cons entry l ih =>
      rcases ih h with h | h
      · cases entry with
        | none => exact Or.inl h
        | some io => exact (addFds_writes h).imp_right (List.mem_append_left _)
      · exact Or.inr (List.mem_append_right _ h)

/-- Without the child, only X11 connections are selected for writing. -/
theorem lastingFds_writes {s : State} {n : ℕ} (h : n ∈ (lastingFds s).writes) :
    n ∈ x11Numbers s.x11List := by
  rcases fdsAddX11_writes h with h | h
  · rw [fdsAddLog_writes, Sets.addRead_writes, Sets.addRead_writes] at h
    cases h
  · exact h

end Sets

/-! One turn. -/

section Turn

variable {c : Setup} {s₀ s : State} {t t' : Table} {hist : Events} {tr : List (Step Table IoRes)}

/-- The calls that come before the handlers. -/
theorem clean_of_plain {tr : Events} (h : ∀ e ∈ tr, Plain e.1) : Clean s₀ tr := by
  apply clean_of_elsewhere
  · intro p _ _ e he size hread
    have hplain := h e he
    rw [hread] at hplain
    exact hplain
  · intro e he data hwrite
    have hplain := h e he
    rw [hwrite] at hplain
    exact hplain

theorem Draining.plain (hs : Draining c s₀ s t hist) {tr : Events} (h : ∀ e ∈ tr, Plain e.1) :
    Draining c s₀ s t (hist ++ tr) :=
  { hs with
    err := hs.err.append tr
    out := hs.out.append tr
    clean := hs.clean.append (clean_of_plain h) }

/-- How a turn comes out that ends the loop: without the child and with nothing to wait for, or with
the child and a write to it that fails. `SIGCHLD` is blocked after `pselect` has answered. -/
def Ended (s₀ s : State) (tr : Events) : Prop :=
  ((⟨.childPid, false⟩ : Event IoRes) ∈ tr ∧ (lastingFds s).maxFd ≤ 1 ∧ ∀ e ∈ tr, Plain e.1) ∨
    ((⟨.childPid, false⟩ : Event IoRes) ∉ tr ∧ WriteFails s₀.io.slaveWriteFd tr)

theorem handleReady_childPid {reads writes : FdSet} {tr : Events} {out : Outcome (Option State)}
    (h : Runs (handleReady c reads writes s) tr out) :
    (⟨.childPid, false⟩ : Event IoRes) ∉ tr := by
  have huses : (handleReady c reads writes s).Uses fun o => o ≠ .childPid := by
    apply handleReady_uses
    · rintro o ho rfl
      exact ho
    · intro fd data total hne
      cases hne
  intro hmem
  exact h.uses huses _ hmem rfl

/-- The input of the child is selected only when there is a child. -/
theorem alive_of_input {tr : Events} {sets : Sets} (hs : Draining c s₀ s t hist)
    (h : Runs (selectFds c s) tr (.returned (some sets)))
    (hset : fdsIsset sets.writes s₀.io.slaveWriteFd = true) :
    (⟨.childPid, false⟩ : Event IoRes) ∉ tr := by
  obtain ⟨before, hresizes, ⟨rfl, -⟩ | ⟨-, hr⟩⟩ := selectFds_cases h
  · intro hmem
    rcases List.mem_append.mp hmem with hmem | hmem
    · exact hresizes _ hmem
    · cases List.mem_singleton.mp hmem
  · split_ifs at hr
    obtain rfl := Option.some.inj hr
    obtain ⟨n, hn, hmem⟩ := exists_of_fdsIsset hset
    have howned : n ∈ owned c s := List.mem_append_left _ (lastingFds_writes hmem)
    exact absurd howned (hs.spared n (mem_kept_of_input hn)).other

theorem handleIo_draining {r : Option State} (hplugged : Plugged s₀)
    (hs : Draining c s₀ s t hist)
    (hselect : ∀ reads writes timeout,
      (⟨.pselect reads writes timeout, .failed⟩ : Event IoRes) ∉ tr.map Step.event)
    (h : Exec (· = ·) Answers (handleIo c s) t tr (.returned r) t') :
    (∃ s', r = some s' ∧ Draining c s₀ s' t' (hist ++ tr.map Step.event)) ∨
      (r = none ∧ Ended s₀ s (tr.map Step.event)) := by
  obtain ⟨selected, t₁, t₂, v, rfl, hselected, hrest⟩ := exec_bind h
  have hplain : (selectFds c s).Uses Plain :=
    selectFds_uses trivial (fun _ => trivial) trivial c s
  have hbefore : ∀ e ∈ t₁.map Step.event, Plain e.1 := hselected.runs.uses hplain
  have hsame : Acts t [] [] (selectFds c s) (fun _ t' => t' = t) t := plain_acts hplain
  obtain rfl := (hsame.exec hselected).2 selected rfl
  cases selected with
  | none =>
      obtain ⟨rfl, rfl, rfl⟩ := exec_ret hrest
      rw [List.append_nil]
      refine Or.inr ⟨rfl, Or.inl ?_⟩
      obtain ⟨before, -, ⟨-, hr⟩ | ⟨htr, hr⟩⟩ := selectFds_cases hselected.runs
      · cases hr
      · split_ifs at hr with hfew
        refine ⟨?_, hfew, hbefore⟩
        rw [htr]
        exact List.mem_append_right _ (List.mem_singleton_self _)
  | some sets =>
      obtain ⟨v₁, v₂, answer, rest, rfl, rfl, hsem, hanswered⟩ := exec_call hrest
      obtain rfl : v₂ = v := hsem
      have htrace : (t₁ ++ ⟨v₂, ⟨.pselect sets.reads sets.writes c.wlimit.timeIdle, answer⟩, v₂⟩ ::
          rest).map Step.event = t₁.map Step.event ++
            ([⟨.pselect sets.reads sets.writes c.wlimit.timeIdle, answer⟩] ++
              rest.map Step.event) := List.map_append
      rw [htrace] at hselect ⊢
      have hasked : ∀ e ∈ ([⟨.pselect sets.reads sets.writes c.wlimit.timeIdle, answer⟩] : Events),
          Plain e.1 := by
        intro e he
        rw [List.mem_singleton.mp he]
        trivial
      have hs' := (hs.plain hbefore).plain hasked
      rw [← List.append_assoc, ← List.append_assoc]
      cases answer with
      | timeout => cases hanswered
      | interrupted =>
          obtain ⟨rfl, rfl, rfl⟩ := exec_ret hanswered
          refine Or.inl ⟨s, rfl, ?_⟩
          rw [List.map_nil, List.append_nil]
          exact hs'
      | failed =>
          refine absurd ?_ (hselect sets.reads sets.writes c.wlimit.timeIdle)
          exact List.mem_append_right _ (List.mem_append_left _ (List.mem_singleton_self _))
      | ready r w =>
          rcases handleReady_draining hplugged hs' hanswered with hgoes | ⟨rfl, hset, hfails⟩
          · exact Or.inl hgoes
          · refine Or.inr ⟨rfl, Or.inr ⟨?_, ?_⟩⟩
            · intro hmem
              rcases List.mem_append.mp hmem with hmem | hmem
              · refine alive_of_input hs hselected.runs ?_ hmem
                obtain ⟨n, hn, hready⟩ := exists_of_fdsIsset hset
                rw [hn]
                exact fdsIsset_natCast.mpr (w.property hready)
              · rcases List.mem_append.mp hmem with hmem | hmem
                · cases List.mem_singleton.mp hmem
                · exact handleReady_childPid hanswered.runs hmem
            · refine writeFails_append.mpr (Or.inr ?_)
              exact writeFails_append.mpr (Or.inr hfails)

theorem Ended.prepend {before tr : Events} (h : Ended s₀ s tr)
    (hbefore : ∀ e ∈ before, e.1 = .sigalrmArrived) : Ended s₀ s (before ++ tr) := by
  rcases h with ⟨hmem, hfew, hplain⟩ | ⟨halive, hfails⟩
  · refine Or.inl ⟨List.mem_append_right _ hmem, hfew, ?_⟩
    intro e he
    rcases List.mem_append.mp he with he | he
    · rw [hbefore e he]
      trivial
    · exact hplain e he
  · refine Or.inr ⟨?_, writeFails_append.mpr (Or.inr hfails)⟩
    intro hmem
    rcases List.mem_append.mp hmem with hmem | hmem
    · cases hbefore _ hmem
    · exact halive hmem

theorem turn_draining {r : State ⊕ Unit} (hplugged : Plugged s₀)
    (hs : Draining c s₀ s t hist)
    (hselect : ∀ reads writes timeout,
      (⟨.pselect reads writes timeout, .failed⟩ : Event IoRes) ∉ tr.map Step.event)
    (h : Exec (· = ·) Answers (turn c s) t tr (.returned r) t') :
    (∃ s', r = .inl s' ∧ Draining c s₀ s' t' (hist ++ tr.map Step.event)) ∨
      (r = .inr () ∧ Ended s₀ s (tr.map Step.event)) := by
  obtain ⟨_, t₁, t₂, v, rfl, hlimits, hrest⟩ := exec_bind h
  obtain ⟨answer, t₃, t₄, v', rfl, hio, hend⟩ := exec_bind hrest
  have hplain : (workLimitsOk c.wlimit s.totalBytesRead s.totalBytesWritten).Uses Plain :=
    workLimitsOk_uses trivial _ _ _
  have hasked : (workLimitsOk c.wlimit s.totalBytesRead s.totalBytesWritten).Uses
      fun o => o = .sigalrmArrived := by
    apply workLimitsOk_uses
    rfl
  have hsame : Acts t [] [] (workLimitsOk c.wlimit s.totalBytesRead s.totalBytesWritten)
      (fun _ t' => t' = t) t := plain_acts hplain
  obtain rfl := (hsame.exec hlimits).2 () rfl
  have hs' := hs.plain (hlimits.runs.uses hplain)
  have hselect' : ∀ reads writes timeout,
      (⟨.pselect reads writes timeout, .failed⟩ : Event IoRes) ∉ t₃.map Step.event := by
    intro reads writes timeout hmem
    apply hselect reads writes timeout
    rw [List.map_append, List.map_append]
    exact List.mem_append_right _ (List.mem_append_left _ hmem)
  have hcases := handleIo_draining hplugged hs' hselect' hio
  cases answer with
  | none =>
      obtain ⟨rfl, rfl, rfl⟩ := exec_ret hend
      rcases hcases with ⟨s', hs', -⟩ | ⟨-, hended⟩
      · cases hs'
      · rw [List.append_nil, List.map_append]
        exact Or.inr ⟨rfl, hended.prepend (hlimits.runs.uses hasked)⟩
  | some s₁ =>
      obtain ⟨rfl, rfl, rfl⟩ := exec_ret hend
      rcases hcases with ⟨s', hs', hgoes⟩ | ⟨hnone, -⟩
      · obtain rfl := Option.some.inj hs'
        rw [List.append_nil, List.map_append, ← List.append_assoc]
        exact Or.inl ⟨s₁, rfl, hgoes⟩
      · cases hnone

end Turn

/-! Whole runs. -/

/-- What has been called in the turns. -/
def called (turns : List (State × List (Step Table IoRes))) : Events :=
  turns.flatMap fun e => e.2.map Step.event

theorem turns_draining {c : Setup} {s₀ s s' : State} {t t' : Table} {hist : Events}
    {turns : List (State × List (Step Table IoRes))} (hplugged : Plugged s₀)
    (hs : Draining c s₀ s t hist)
    (hselect : ∀ reads writes timeout,
      (⟨.pselect reads writes timeout, .failed⟩ : Event IoRes) ∉ called turns)
    (h : Turns Answers (turn c) s t turns s' t') : Draining c s₀ s' t' (hist ++ called turns) := by
  induction h generalizing hist with
  | none s t =>
      rw [called, List.flatMap_nil, List.append_nil]
      exact hs
  | @next s u s' t v t' tr turns hturn hturns ih =>
      have hcalled : called ((s, tr) :: turns) = tr.map Step.event ++ called turns := rfl
      rw [hcalled] at hselect ⊢
      have hturn' : ∀ reads writes timeout,
          (⟨.pselect reads writes timeout, .failed⟩ : Event IoRes) ∉ tr.map Step.event := by
        intro reads writes timeout hmem
        exact hselect reads writes timeout (List.mem_append_left _ hmem)
      have hturns' : ∀ reads writes timeout,
          (⟨.pselect reads writes timeout, .failed⟩ : Event IoRes) ∉ called turns := by
        intro reads writes timeout hmem
        exact hselect reads writes timeout (List.mem_append_right _ hmem)
      rw [← List.append_assoc]
      rcases turn_draining hplugged hs hturn' hturn with ⟨s₁, hs₁, hgoes⟩ | ⟨hend, -⟩
      · obtain rfl := Sum.inl.inj hs₁
        exact ih hgoes hturns'
      · cases hend

/-- A run of the loop up to its end, in which `pselect` fails only when it is interrupted. The
limits have not been exceeded and the output has been written, or the loop would not have ended. -/
structure Finished (c : Setup) (method : Option ConnectMethod) (pipeOut pipeErr ctlFd : ℤ)
    (turns : List (State × List (Step Table IoRes))) (last : List (Step Table IoRes)) : Prop where
  pty : c.usePty = true → 2 < c.ptyFd
  pipes : c.usePty = false → 2 < pipeOut ∧ 2 < pipeErr ∧ pipeOut ≠ pipeErr
  select : ∀ reads writes timeout,
    (⟨.pselect reads writes timeout, .failed⟩ : Event IoRes) ∉ called turns ++ last.map Step.event
  run : ∃ (s : State) (t₀ t t' : Table), Apart c (start c method pipeOut pipeErr ctlFd) t₀ ∧
    Turns Answers (turn c) (start c method pipeOut pipeErr ctlFd) t₀ turns s t ∧
    Exec (· = ·) Answers (turn c s) t last (.returned (.inr ())) t'

section Finished

variable {c : Setup} {method : Option ConnectMethod} {pipeOut pipeErr ctlFd : ℤ}
  {turns : List (State × List (Step Table IoRes))} {last : List (Step Table IoRes)}

theorem plugged_of_ne {s₀ : State} (herr : s₀.io.slaveReadErrFd = -1 ∨ 2 < s₀.io.slaveReadErrFd)
    (hout : s₀.io.slaveReadOutFd = -1 ∨ 2 < s₀.io.slaveReadOutFd)
    (hne : s₀.io.slaveReadErrFd ≠ s₀.io.slaveReadOutFd) (hterminal : s₀.io.masterReadFd ≤ 0) :
    Plugged s₀ where
  different := by
    intro p hp q hq _ hsame
    rcases List.mem_cons.mp hp with rfl | hp
    · rcases List.mem_cons.mp hq with rfl | hq
      · rfl
      · obtain rfl := List.mem_singleton.mp hq
        exact absurd hsame hne
    · obtain rfl := List.mem_singleton.mp hp
      rcases List.mem_cons.mp hq with rfl | hq
      · exact absurd hsame.symm hne
      · obtain rfl := List.mem_singleton.mp hq
        rfl
  behind := by
    intro p hp
    rcases List.mem_cons.mp hp with rfl | hp
    · exact herr
    · obtain rfl := List.mem_singleton.mp hp
      exact hout
  terminal := hterminal

theorem start_terminal : (start c method pipeOut pipeErr ctlFd).io.masterReadFd ≤ 0 := by
  show (if c.usePty then 0 else -1 : ℤ) ≤ 0
  split_ifs <;> omega

theorem Finished.plugged (h : Finished c method pipeOut pipeErr ctlFd turns last) :
    Plugged (start c method pipeOut pipeErr ctlFd) := by
  have herr : (start c method pipeOut pipeErr ctlFd).io.slaveReadErrFd =
      if c.usePty then -1 else pipeErr := rfl
  have hout : (start c method pipeOut pipeErr ctlFd).io.slaveReadOutFd =
      if c.usePty then c.ptyFd else pipeOut := rfl
  cases hmode : c.usePty with
  | true =>
      have hpty := h.pty hmode
      rw [hmode, if_pos rfl] at herr hout
      apply plugged_of_ne
      · exact Or.inl herr
      · exact Or.inr (by omega)
      · omega
      · exact start_terminal
  | false =>
      obtain ⟨hpipeOut, hpipeErr, hne⟩ := h.pipes hmode
      rw [hmode, if_neg Bool.false_ne_true] at herr hout
      apply plugged_of_ne
      · exact Or.inr (by omega)
      · exact Or.inr (by omega)
      · omega
      · exact start_terminal

theorem start_draining {t₀ : Table} (h : Apart c (start c method pipeOut pipeErr ctlFd) t₀) :
    Draining c (start c method pipeOut pipeErr ctlFd) (start c method pipeOut pipeErr ctlFd) t₀ [] where
  apart := h
  spared := by
    intro n hn
    obtain ⟨hother, hopen⟩ := h.others n hn
    exact ⟨hother, hopen⟩
  err := Or.inl rfl
  out := Or.inl rfl
  input := rfl
  terminal := start_terminal
  stderr := rfl
  stdout := rfl
  clean := by
    apply clean_of_plain
    intro e he
    cases he

/-- An output that is not watched any more has ended. -/
theorem ended_of_watched {fd₀ fd : ℤ} {tr : Events} (h : Watched fd₀ fd tr) (hfew : fd ≤ 1)
    (hpos : 0 ≤ fd₀) (hbehind : fd₀ = -1 ∨ 2 < fd₀) : Ends fd₀ tr := by
  rcases h with rfl | ⟨-, hends⟩
  · omega
  · exact hends

theorem Draining.drained {s₀ s : State} {t : Table} {hist last : Events} (hplugged : Plugged s₀)
    (hs : Draining c s₀ s t hist) (hreaped : (⟨.childPid, false⟩ : Event IoRes) ∈ last)
    (hfew : (lastingFds s).maxFd ≤ 1) (hplain : ∀ e ∈ last, Plain e.1) :
    Drained s₀ (hist ++ last) last where
  reaped := hreaped
  ended := by
    obtain ⟨herr, hout⟩ := forgotten_of_maxFd hfew
    have hclean := hs.clean.append (clean_of_plain hplain)
    intro p hp hpos
    refine ⟨ends_append.mpr (Or.inl ?_), hclean.forwards p hp hpos⟩
    have hbehind := hplugged.behind p hp
    rcases List.mem_cons.mp hp with rfl | hp
    · exact ended_of_watched hs.err herr hpos hbehind
    · obtain rfl := List.mem_singleton.mp hp
      exact ended_of_watched hs.out hout hpos hbehind

/-- The output of the child has been drained when the loop ends if and only if no write to the
child has failed. -/
theorem output_drained_iff (h : Finished c method pipeOut pipeErr ctlFd turns last) :
    Drained (start c method pipeOut pipeErr ctlFd) (called turns ++ last.map Step.event)
        (last.map Step.event) ↔
      ¬ WriteFails (start c method pipeOut pipeErr ctlFd).io.slaveWriteFd
        (called turns ++ last.map Step.event) := by
  obtain ⟨s, t₀, t, t', hapart, hturns, hlast⟩ := h.run
  have hturns' : ∀ reads writes timeout,
      (⟨.pselect reads writes timeout, .failed⟩ : Event IoRes) ∉ called turns := by
    intro reads writes timeout hmem
    exact h.select reads writes timeout (List.mem_append_left _ hmem)
  have hlast' : ∀ reads writes timeout,
      (⟨.pselect reads writes timeout, .failed⟩ : Event IoRes) ∉ last.map Step.event := by
    intro reads writes timeout hmem
    exact h.select reads writes timeout (List.mem_append_right _ hmem)
  have hs := turns_draining h.plugged (start_draining hapart) hturns' hturns
  rw [List.nil_append] at hs
  rcases turn_draining h.plugged hs hlast' hlast with ⟨s', hgoes, -⟩ | ⟨-, hended⟩
  · cases hgoes
  · rcases hended with ⟨hreaped, hfew, hplain⟩ | ⟨halive, hfails⟩
    · have hclean := hs.clean.append (clean_of_plain hplain)
      have hdrained := hs.drained h.plugged hreaped hfew hplain
      constructor
      · intro _
        exact hclean.writes
      · intro _
        exact hdrained
    · constructor
      · intro hdrained
        exact absurd hdrained.reaped halive
      · intro hworks
        exact absurd (writeFails_append.mpr (Or.inr hfails)) hworks

end Finished

/-! A child without a terminal: a byte of output, and then both pipes end. -/

private def pipeSetup : Setup :=
  { wlimit := {}, usePty := false, ptyFd := -1, logFd := -1, x11Key := [], x11DataLen := 0
    scanHex := fun _ => none }

private def pipeStart : State := start pipeSetup none 3 4 (-1)

private def forwardedState : State :=
  { pipeStart with totalBytesWritten := 1, io := { pipeStart.io with slaveReadErrFd := -1 } }

private def endedState : State :=
  { forwardedState with io := { forwardedState.io with slaveReadOutFd := -1 } }

private def openBelow (limit : ℕ) : Table where
  files := fun n => if n < limit then some n else none
  next := limit
  fresh := by
    intro n f h
    split_ifs at h with hn
    obtain rfl := Option.some.inj h
    exact hn

private def idleStep (o : IoOp) (r : IoRes o) : Step Table IoRes :=
  ⟨openBelow 5, ⟨o, r⟩, openBelow 5⟩

private def forwardedTurn : List (Step Table IoRes) :=
  [idleStep .sigalrmArrived false, idleStep .sigwinchArrived false, idleStep .childPid true,
    idleStep (.pselect [4, 3] [] 0) (.ready ⟨[4, 3], by simp⟩ noneReady),
    idleStep (.read 4 bufsiz) (some ⟨[], by decide⟩),
    idleStep (.read 3 bufsiz) (some ⟨[104], by decide⟩),
    idleStep (.writeAll 1 [104] 0) (some 1)]

private def endedTurn : List (Step Table IoRes) :=
  [idleStep .sigalrmArrived false, idleStep .sigwinchArrived false, idleStep .childPid true,
    idleStep (.pselect [3] [] 0) (.ready ⟨[3], by simp⟩ noneReady),
    idleStep (.read 3 bufsiz) none]

private def reapedTurn : List (Step Table IoRes) :=
  [idleStep .sigalrmArrived false, idleStep .sigwinchArrived false, idleStep .childPid false]

private theorem pipes_finished : Finished pipeSetup none 3 4 (-1)
    [(pipeStart, forwardedTurn), (forwardedState, endedTurn)] reapedTurn where
  pty := by
    intro hmode
    cases hmode
  pipes := by
    intro _
    decide
  select := by
    intro reads writes timeout hmem
    simp [called, forwardedTurn, endedTurn, reapedTurn, idleStep] at hmem
    obtain ⟨⟨rfl, rfl, rfl⟩, hsame⟩ | ⟨⟨rfl, rfl, rfl⟩, hsame⟩ := hmem
    · cases eq_of_heq hsame
    · cases eq_of_heq hsame
  run := by
    have hforwarded : Runs (turn pipeSetup pipeStart) (forwardedTurn.map Step.event)
        (.returned (.inl forwardedState)) := Prog.runs_of_replay rfl
    have hended : Runs (turn pipeSetup forwardedState) (endedTurn.map Step.event)
        (.returned (.inl endedState)) := Prog.runs_of_replay rfl
    have hreaped : Runs (turn pipeSetup endedState) (reapedTurn.map Step.event)
        (.returned (.inr ())) := Prog.runs_of_replay rfl
    have hapart : Apart pipeSetup pipeStart (openBelow 5) :=
      ⟨⟨by decide, by decide⟩, by decide⟩
    have hfirst : Chained (· = ·) Answers (openBelow 5) forwardedTurn (openBelow 5) :=
      ⟨rfl, rfl, rfl, rfl, rfl, rfl, rfl, rfl, rfl, rfl, rfl, rfl, rfl, rfl, rfl⟩
    have hsecond : Chained (· = ·) Answers (openBelow 5) endedTurn (openBelow 5) :=
      ⟨rfl, rfl, rfl, rfl, rfl, rfl, rfl, rfl, rfl, rfl, rfl⟩
    have hthird : Chained (· = ·) Answers (openBelow 5) reapedTurn (openBelow 5) :=
      ⟨rfl, rfl, rfl, rfl, rfl, rfl, rfl⟩
    exact ⟨endedState, openBelow 5, openBelow 5, openBelow 5, hapart,
      .next (hforwarded.exec hfirst) (.next (hended.exec hsecond) (.none _ _)),
      hreaped.exec hthird⟩

/-- The byte has been forwarded, and both pipes have ended. -/
theorem output_drained_iff_sample :
    Drained pipeStart (called [(pipeStart, forwardedTurn), (forwardedState, endedTurn)] ++
      reapedTurn.map Step.event) (reapedTurn.map Step.event) := by
  refine (output_drained_iff pipes_finished).mpr ?_
  rintro ⟨data, r, hmem, -⟩
  simp [called, forwardedTurn, endedTurn, reapedTurn, idleStep] at hmem

/-! A child with a terminal that has closed it, with output that is still to be read: the byte of
input cannot be written any more. -/

/-- The loop never ends before all output has been forwarded. -/
def AlwaysDrains : Prop :=
  ∀ (c : Setup) (method : Option ConnectMethod) (pipeOut pipeErr ctlFd : ℤ)
    (turns : List (State × List (Step Table IoRes))) (last : List (Step Table IoRes)),
    Finished c method pipeOut pipeErr ctlFd turns last →
    Drained (start c method pipeOut pipeErr ctlFd) (called turns ++ last.map Step.event)
      (last.map Step.event)

private def terminalSetup : Setup := { pipeSetup with usePty := true, ptyFd := 4 }

private def terminalStart : State := start terminalSetup none (-1) (-1) (-1)

private def typedState : State :=
  { terminalStart with
    io := { terminalStart.io with masterBuf := Buffer.empty.fill ⟨[97], by decide⟩ } }

private def typedTurn : List (Step Table IoRes) :=
  [idleStep .sigalrmArrived false, idleStep .sigwinchArrived false, idleStep .childPid true,
    idleStep (.pselect [0, 4] [] 0) (.ready ⟨[0], by simp⟩ noneReady),
    idleStep (.read 0 bufsiz) (some ⟨[97], by decide⟩)]

private def refusedTurn : List (Step Table IoRes) :=
  [idleStep .sigalrmArrived false, idleStep .sigwinchArrived false, idleStep .childPid true,
    idleStep (.pselect [4] [4] 0) (.ready ⟨[4], by simp⟩ ⟨[4], by simp⟩),
    idleStep (.read 4 bufsiz) (some ⟨[98], by decide⟩), idleStep (.writeAll 1 [98] 0) (some 1),
    idleStep (.write 4 [97]) none]

private theorem terminal_finished : Finished terminalSetup none (-1) (-1) (-1)
    [(terminalStart, typedTurn)] refusedTurn where
  pty := by
    intro _
    decide
  pipes := by
    intro hmode
    cases hmode
  select := by
    intro reads writes timeout hmem
    simp [called, typedTurn, refusedTurn, idleStep] at hmem
    obtain ⟨⟨rfl, rfl, rfl⟩, hsame⟩ | ⟨⟨rfl, rfl, rfl⟩, hsame⟩ := hmem
    · cases eq_of_heq hsame
    · cases eq_of_heq hsame
  run := by
    have htyped : Runs (turn terminalSetup terminalStart) (typedTurn.map Step.event)
        (.returned (.inl typedState)) := Prog.runs_of_replay rfl
    have hrefused : Runs (turn terminalSetup typedState) (refusedTurn.map Step.event)
        (.returned (.inr ())) := Prog.runs_of_replay rfl
    have hapart : Apart terminalSetup terminalStart (openBelow 5) :=
      ⟨⟨by decide, by decide⟩, by decide⟩
    have hfirst : Chained (· = ·) Answers (openBelow 5) typedTurn (openBelow 5) :=
      ⟨rfl, rfl, rfl, rfl, rfl, rfl, rfl, rfl, rfl, rfl, rfl⟩
    have hsecond : Chained (· = ·) Answers (openBelow 5) refusedTurn (openBelow 5) :=
      ⟨rfl, rfl, rfl, rfl, rfl, rfl, rfl, rfl, rfl, rfl, rfl, rfl, rfl, rfl, rfl⟩
    exact ⟨typedState, openBelow 5, openBelow 5, openBelow 5, hapart,
      .next (htyped.exec hfirst) (.none _ _), hrefused.exec hsecond⟩

/-- The loop ends although the child is there and its output has not ended. -/
theorem output_not_always_drained : ¬ AlwaysDrains := by
  intro h
  have hdrained := h terminalSetup none (-1) (-1) (-1) _ _ terminal_finished
  have hreaped := hdrained.reaped
  simp [refusedTurn, idleStep] at hreaped

end HasherPriv.IoLoop.Drain
