/- GID: HasherPriv/IoLoop/Connections
   layer: input and output loop
   source: io_x11.c
   digest: All X11 connections of a process, each with the history of its own two descriptors. -/

import HasherPriv.Foundations.Answers
import HasherPriv.IoLoop.Descriptors
import HasherPriv.IoLoop.Relay
import Mathlib.Data.List.DropRight

set_option autoImplicit false
set_option relaxedAutoImplicit false

namespace HasherPriv.IoLoop.Connections

open Foundations.Answers (Lives Returning)
open Foundations.ByteString (Bytes)
open Foundations.Contracts
open Foundations.Handles
open Foundations.Program
open Calls
open Descriptors
open Relay
open X11

/-! The history of a descriptor in the trace of the process. -/

/-- The call gives the process the descriptor. -/
def opens (fd : ℤ) : Event IoRes → Bool
  | ⟨.accept _, some n⟩ | ⟨.socket, some n⟩ => decide ((n : ℤ) = fd)
  | ⟨.fdRecv _ _, r⟩ => r.fd.any fun n => decide ((n : ℤ) = fd)
  | _ => false

/-- What has happened since the process got the descriptor. -/
def since (tr : Events) : History := fun fd => tr.rtakeWhile fun e => !opens fd e

section Since

variable {fd : ℤ} {tr part : Events}

/-- As long as the process does not get the descriptor again, its history goes on. -/
theorem since_append (h : ∀ e ∈ part, opens fd e = false) :
    since (tr ++ part) fd = since tr fd ++ part := by
  induction part using List.reverseRecOn with
  | nil => simp
  | append_singleton part e ih =>
      have he : opens fd e = false := h e (by simp)
      have hpart : ∀ e ∈ part, opens fd e = false := fun e he => h e (List.mem_append_left _ he)
      unfold since at ih ⊢
      rw [← List.append_assoc, List.rtakeWhile_concat_pos _ _ _ (by rw [he]; rfl), ih hpart,
        List.append_assoc]

/-- When the process gets the descriptor, a history begins. -/
theorem since_subset (h : ∃ e ∈ part, opens fd e = true) : since (tr ++ part) fd ⊆ part := by
  induction part using List.reverseRecOn with
  | nil =>
      obtain ⟨e, he, -⟩ := h
      cases he
  | append_singleton part e ih =>
      unfold since at ih ⊢
      rw [← List.append_assoc]
      by_cases he : opens fd e = true
      · rw [List.rtakeWhile_concat_neg _ _ _ (by rw [he]; decide)]
        exact List.nil_subset _
      · rw [List.rtakeWhile_concat_pos _ _ _ (by simpa using he)]
        obtain ⟨e', he', hopens⟩ := h
        have hmem : e' ∈ part := by
          rcases List.mem_append.mp he' with hmem | hmem
          · exact hmem
          · rw [List.mem_singleton.mp hmem] at hopens
            exact (he hopens).elim
        exact List.append_subset.mpr ⟨fun x hx => List.mem_append_left _ (ih ⟨e', hmem, hopens⟩ hx),
          fun x hx => List.mem_append_right _ hx⟩

end Since

/-! Calls that leave a descriptor alone. -/

/-- The call reads from the descriptor or writes to it. -/
def Touches (fd : ℤ) : IoOp → Prop
  | .read fd' _ | .write fd' _ => fd' = fd
  | _ => False

theorem acted_of_touches {fd : ℤ} {o : IoOp} (h : Touches fd o) : ∃ d, acted o = some (d, fd) := by
  cases o with
  | read fd' size =>
      obtain rfl : fd' = fd := h
      exact ⟨.reads, rfl⟩
  | write fd' data =>
      obtain rfl : fd' = fd := h
      exact ⟨.writes, rfl⟩
  | _ => exact h.elim

/-- Nothing is read from the descriptor or written to it. -/
def Spares (fd : ℤ) (tr : Events) : Prop := ∀ e ∈ tr, ¬ Touches fd e.1

section Spares

variable {fd : ℤ} {tr tr' : Events}

theorem Spares.append (h : Spares fd tr) (h' : Spares fd tr') : Spares fd (tr ++ tr') := by
  intro e he
  rcases List.mem_append.mp he with he | he
  · exact h e he
  · exact h' e he

theorem Spares.written (h : Spares fd tr) : written fd tr = [] := by
  apply List.flatMap_eq_nil_iff.mpr
  rintro ⟨o, r⟩ he
  cases o with
  | write fd' data =>
      cases r with
      | none => rfl
      | some n => exact if_neg (h _ he)
  | _ => rfl

theorem Spares.chunks (h : Spares fd tr) : chunks fd tr = [] := by
  apply List.filterMap_eq_nil_iff.mpr
  rintro ⟨o, r⟩ he
  cases o with
  | read fd' size =>
      cases r with
      | none => rfl
      | some d => exact if_neg fun hread => h _ he hread.1
  | _ => rfl

theorem Spares.not_ends (h : Spares fd tr) : ¬ Ends fd tr := by
  rintro ⟨size, r, he, -⟩
  exact h _ he rfl

end Spares

/-- The calls of a part that acts on descriptors of its own. -/
theorem spares_of_actsOn {α : Type} {p : IoProg α} {post : α → Table → Prop} {a : List ℕ}
    {t t' : Table} {tr : List (Step Table IoRes)} {out : Outcome α} {n : ℕ}
    (h : Ensures Answers (ActsOn a) p post t) (hrun : Exec (· = ·) Answers p t tr out t')
    (hn : n ∉ a) : Spares n (tr.map Step.event) := by
  intro e he htouches
  obtain ⟨s, hs, rfl⟩ := List.mem_map.mp he
  obtain ⟨d, hacted⟩ := acted_of_touches htouches
  obtain ⟨m, hm, heq⟩ := (h.exec hrun).1 s hs d n hacted
  obtain rfl : n = m := by exact_mod_cast heq
  exact hn hm

/-! One call of `x11_handle_select`. -/

/-- Of all that is done for the connections, one part is done for this one, and the rest leaves
its descriptors alone. -/
theorem x11HandleSelect_slot {auth : Option Auth} {reads writes : FdSet} {l l' : IoX11List}
    {t t' : Table} {tr : List (Step Table IoRes)} {i : ℕ} {io : IoX11}
    (h : Exec (· = ·) Answers (x11HandleSelect auth reads writes l) t tr (.returned l') t')
    (howns : Owns t (x11Numbers l)) (hio : l[i]? = some (some io)) :
    ∃ (pre part post : Events) (r : Option IoX11), tr.map Step.event = pre ++ part ++ post ∧
      l'[i]? = some r ∧ Runs (relay auth reads writes io) part (.returned r) ∧
      ∀ n ∈ ioNumbers io, Spares n pre ∧ Spares n post := by
  induction l generalizing l' t tr i with
  | nil => cases hio
  | cons entry l ih =>
      cases entry with
      | none =>
          obtain ⟨l₁, t₁, t₂, v, rfl, h₁, h₂⟩ := exec_bind h
          obtain ⟨rfl, rfl, rfl⟩ := exec_ret h₂
          cases i with
          | zero => cases hio
          | succ i =>
              obtain ⟨pre, part, post, r, htr, hr, hrun, hspares⟩ := ih h₁ howns (i := i) hio
              exact ⟨pre, part, post, r, by rw [List.append_nil, htr], hr, hrun, hspares⟩
      | some io₀ =>
          have howns' : Owns t (ioNumbers io₀ ++ x11Numbers l) := howns
          obtain ⟨r, t₁, t₂, v, rfl, hrelay, h₂⟩ := exec_bind h
          obtain ⟨l₁, t₃, t₄, v', rfl, hrest, h₄⟩ := exec_bind h₂
          obtain ⟨rfl, rfl, rfl⟩ := exec_ret h₄
          have hacts : Ensures Answers (ActsOn (ioNumbers io₀)) (relay auth reads writes io₀)
              (fun r t' => Moves t t' (ioNumbers io₀) (entryNumbers r)) t :=
            actsOn_of_acts howns'.left fun hheld => relay_acts hheld
          have hmoves := (hacts.exec hrelay).2 r rfl
          have howns₁ : Owns v (x11Numbers l) := ((hmoves.frame (x11Numbers l)).owns howns').right
          cases i with
          | zero =>
              obtain rfl : io₀ = io := Option.some.inj (Option.some.inj hio)
              have hothers : Ensures Answers (ActsOn (x11Numbers l))
                  (x11HandleSelect auth reads writes l)
                  (fun l' t' => Moves v t' (x11Numbers l) (x11Numbers l')) v :=
                actsOn_of_acts howns₁ fun hheld => x11HandleSelect_acts hheld howns₁
              refine ⟨[], t₁.map Step.event, t₃.map Step.event, r, by simp, rfl, hrelay.runs, ?_⟩
              intro n hn
              have hnotMem : n ∉ x11Numbers l := fun hl => howns'.notMem_left hl hn
              exact ⟨fun e he => (List.not_mem_nil he).elim,
                spares_of_actsOn hothers hrest hnotMem⟩
          | succ i =>
              obtain ⟨pre, part, post, r', htr, hr', hrun, hspares⟩ := ih hrest howns₁ hio
              refine ⟨t₁.map Step.event ++ pre, part, post, r', by simp [htr], hr', hrun, ?_⟩
              intro n hn
              obtain ⟨hpre, hpost⟩ := hspares n hn
              have hmem : n ∈ x11Numbers l := by
                refine List.mem_flatMap.mpr ⟨some io, List.mem_of_getElem? hio, hn⟩
              exact ⟨(spares_of_actsOn hacts hrelay (howns'.notMem_left hmem)).append hpre, hpost⟩

/-- A connection that is there afterwards was there before. -/
theorem x11HandleSelect_live {auth : Option Auth} {reads writes : FdSet} {l l' : IoX11List}
    {tr : Events} {i : ℕ} {io : IoX11}
    (h : Runs (x11HandleSelect auth reads writes l) tr (.returned l'))
    (hio : l'[i]? = some (some io)) : ∃ io₀, l[i]? = some (some io₀) := by
  induction l generalizing l' tr i with
  | nil =>
      obtain ⟨rfl, rfl⟩ := returns_ret.mp h
      cases hio
  | cons entry l ih =>
      cases entry with
      | none =>
          obtain ⟨l₁, t₁, t₂, rfl, h₁, h₂⟩ := returns_bind.mp h
          obtain ⟨rfl, rfl⟩ := returns_ret.mp h₂
          cases i with
          | zero => cases hio
          | succ i => exact ih h₁ (i := i) hio
      | some io₀ =>
          cases i with
          | zero => exact ⟨io₀, rfl⟩
          | succ i =>
              obtain ⟨r, t₁, t₂, rfl, h₁, h₂⟩ := returns_bind.mp h
              obtain ⟨l₁, t₃, t₄, rfl, h₃, h₄⟩ := returns_bind.mp h₂
              obtain ⟨rfl, rfl⟩ := returns_ret.mp h₄
              exact ih h₃ (i := i) hio

theorem x11HandleSelect_opens {auth : Option Auth} {reads writes : FdSet} {l : IoX11List}
    {tr : Events} {out : Foundations.Program.Outcome IoX11List}
    (h : Runs (x11HandleSelect auth reads writes l) tr out) (fd : ℤ) :
    ∀ e ∈ tr, opens fd e = false := by
  have huses : (x11HandleSelect auth reads writes l).Uses fun o => ∀ r, opens fd ⟨o, r⟩ = false :=
    x11HandleSelect_uses (fun _ _ _ => rfl) (fun _ _ _ => rfl) (fun _ _ => rfl) auth reads writes l
  exact fun e he => h.uses huses e he e.2

private theorem orFree_lives {io : IoX11} {step : IoProg (Option IoX11)}
    {next : IoX11 → IoProg (Option IoX11)} (hstep : Lives step) (hnext : ∀ io, Lives (next io)) :
    Lives (orFree io step next) := by
  have xclose_lives : ∀ fd, Lives (xclose fd) := by
    intro fd
    rw [xclose]
    split_ifs
    · trivial
    · exact fun _ => trivial
  refine hstep.bind fun r => ?_
  cases r with
  | none =>
      exact Prog.Dies.bind ((xclose_lives io.masterFd).bind fun _ => xclose_lives io.slaveFd)
        fun _ => trivial
  | some io' => exact hnext io'

private theorem writeOut_lives (fd : ℤ) (b : Buffer) : Lives (writeOut fd b) := by
  intro r
  cases r with
  | none => trivial
  | some n =>
      change Lives (ite _ _ _)
      split_ifs <;> trivial

private theorem readIn_lives (fd : ℤ) (b : Buffer) : Lives (readIn fd b) := by
  intro r
  cases r with
  | none => trivial
  | some d =>
      change Lives (ite _ _ _)
      split_ifs <;> trivial

/-- No answer of the kernel makes the relaying die. -/
theorem x11HandleSelect_lives (auth : Option Auth) (reads writes : FdSet) (l : IoX11List) :
    Lives (x11HandleSelect auth reads writes l) := by
  have hrelay : ∀ io, Lives (relay auth reads writes io) := by
    intro io
    refine orFree_lives ?_ fun io => orFree_lives ?_ fun io => orFree_lives ?_ fun io =>
      orFree_lives ?_ fun io => trivial
    · unfold writeSlave
      split_ifs
      · exact (writeOut_lives _ _).bind fun _ => trivial
      · trivial
    · unfold readMaster
      split_ifs
      · exact (readIn_lives _ _).bind fun _ => trivial
      · trivial
    · unfold writeMaster
      split_ifs
      · exact (writeOut_lives _ _).bind fun _ => trivial
      · trivial
    · unfold readSlave
      split_ifs
      · exact (readIn_lives _ _).bind fun _ => trivial
      · trivial
  induction l with
  | nil => trivial
  | cons entry l ih =>
      cases entry with
      | none => exact ih.bind fun _ => trivial
      | some io => exact (hrelay io).bind fun _ => ih.bind fun _ => trivial

/-! New descriptors. -/

/-- What is open is not given to the process. -/
theorem not_opens_of_open {o : IoOp} {t t' : Table} {r : IoRes o} {n f : ℕ}
    (h : Answers o t r t') (hn : t.files n = some f) : opens n ⟨o, r⟩ = false := by
  have hfree : ∀ m : ℕ, t.files m = none → (m : ℤ) ≠ n := by
    intro m hm hmn
    obtain rfl : m = n := by exact_mod_cast hmn
    rw [hm] at hn
    cases hn
  cases o with
  | accept fd =>
      cases r with
      | none => rfl
      | some m => exact decide_eq_false (hfree m h.1)
  | socket =>
      cases r with
      | none => rfl
      | some m => exact decide_eq_false (hfree m h.1)
  | fdRecv fd len =>
      show (r.fd.any fun m => decide ((m : ℤ) = n)) = false
      cases hr : r.fd with
      | none => rfl
      | some m => exact decide_eq_false (hfree m (h.2 m hr).1)
  | _ => rfl

theorem exec_ends_later {α : Type} {p : IoProg α} {t t' : Table} {tr : List (Step Table IoRes)}
    {out : Foundations.Program.Outcome α} (h : Exec (· = ·) Answers p t tr out t') :
    Later t t' := by
  induction h with
  | ret a w => exact Later.refl w
  | die why w => exact Later.refl w
  | cut p w => exact Later.refl w
  | call hadv hsem hrest ih =>
      subst hadv
      exact (later_of_answers hsem).trans ih

/-- A descriptor that has the same file before and after has not been given to the process. -/
theorem exec_not_opens {α : Type} {p : IoProg α} {t t' : Table} {tr : List (Step Table IoRes)}
    {out : Foundations.Program.Outcome α} {n f : ℕ} (h : Exec (· = ·) Answers p t tr out t')
    (hn : t.files n = some f) (hn' : t'.files n = some f) :
    ∀ e ∈ tr.map Step.event, opens n e = false := by
  induction h with
  | ret a w => exact fun e he => (List.not_mem_nil he).elim
  | die why w => exact fun e he => (List.not_mem_nil he).elim
  | cut p w => exact fun e he => (List.not_mem_nil he).elim
  | call hadv hsem hrest ih =>
      subst hadv
      have hmid := (later_of_answers hsem).between (exec_ends_later hrest) hn hn'
      intro e he
      rcases List.mem_cons.mp he with rfl | he
      · exact not_opens_of_open hsem hn
      · exact ih hmid hn' e he

private theorem x11ConnectAddress_socket {n : ℕ} {tr : Events} {c : ℕ}
    (h : Runs (x11ConnectAddress n) tr (.returned (some c))) :
    (⟨.socket, some c⟩ : Event IoRes) ∈ tr := by
  induction n generalizing tr with
  | zero =>
      obtain ⟨-, hc⟩ := returns_ret.mp h
      cases hc
  | succ n ih =>
      obtain ⟨fd, rest, rfl, hfd⟩ := returns_op_bind.mp h
      cases fd with
      | none => exact List.mem_cons_of_mem _ (ih hfd)
      | some fd =>
          obtain ⟨ok, rest, rfl, hok⟩ := returns_op_bind.mp hfd
          change Runs (ite _ _ _) _ _ at hok
          split_ifs at hok with htrue
          · obtain ⟨rfl, hc⟩ := returns_ret.mp hok
            obtain rfl := Option.some.inj hc
            exact List.mem_cons_self
          · obtain ⟨_, t₁, t₂, rfl, h₁, h₂⟩ := returns_bind.mp hok
            refine List.mem_cons_of_mem _ (List.mem_cons_of_mem _ ?_)
            exact List.mem_append_right _ (ih h₂)

private theorem x11Connect_socket {method : Option ConnectMethod} {tr : Events} {c : ℕ}
    (h : Runs (x11Connect method) tr (.returned (some c))) :
    (⟨.socket, some c⟩ : Event IoRes) ∈ tr := by
  match method with
  | none =>
      obtain ⟨-, hc⟩ := returns_ret.mp h
      cases hc
  | some .inet =>
      obtain ⟨addresses, rest, rfl, ha⟩ := returns_op_bind.mp h
      cases addresses with
      | none =>
          obtain ⟨-, hc⟩ := returns_ret.mp ha
          cases hc
      | some n => exact List.mem_cons_of_mem _ (x11ConnectAddress_socket ha)
  | some (.unix dirFd) =>
      obtain ⟨fd, t₁, t₂, rfl, h₁, h₂⟩ := returns_bind.mp h
      obtain ⟨_, rest, rfl, h₃⟩ := returns_op_bind.mp h₂
      obtain ⟨rfl, rfl⟩ := returns_ret.mp h₃
      refine List.mem_append_left _ ?_
      obtain ⟨ok, rest, rfl, hok⟩ := returns_op_bind.mp h₁
      refine List.mem_cons_of_mem _ ?_
      change Runs (ite _ _ _) _ _ at hok
      split_ifs at hok with htrue
      · obtain ⟨fd, rest, rfl, hfd⟩ := returns_op_bind.mp hok
        cases fd with
        | none =>
            obtain ⟨-, hc⟩ := returns_ret.mp hfd
            cases hc
        | some fd =>
            obtain ⟨connected, rest, rfl, hconnected⟩ := returns_op_bind.mp hfd
            cases connected with
            | true =>
                obtain ⟨-, hc⟩ := returns_ret.mp hconnected
                obtain rfl := Option.some.inj hc
                exact List.mem_cons_self
            | false =>
                obtain ⟨_, t₁, t₂, rfl, h₁, h₂⟩ := returns_bind.mp hconnected
                obtain ⟨-, hc⟩ := returns_ret.mp h₂
                cases hc
      · obtain ⟨-, hc⟩ := returns_ret.mp hok
        cases hc

/-- `x11_handle_new` adds one connection between what it has connected and what it has accepted,
or leaves the table as it is. -/
theorem returns_x11HandleNew {method : Option ConnectMethod} {x11Fd : ℤ} {reads : FdSet}
    {l l' : IoX11List} {tr : Events}
    (h : Runs (x11HandleNew method x11Fd reads l) tr (.returned l')) :
    l' = l ∨ ∃ c a : ℕ, (⟨.accept x11Fd, some a⟩ : Event IoRes) ∈ tr ∧
      (⟨.socket, some c⟩ : Event IoRes) ∈ tr ∧
      l' = insertFirst { masterFd := c, slaveFd := a } l := by
  unfold x11HandleNew at h
  split_ifs at h with hset
  · obtain ⟨fd, rest, rfl, hfd⟩ := returns_op_bind.mp h
    cases fd with
    | none => exact .inl (returns_ret.mp hfd).2
    | some a =>
        obtain ⟨connected, t₁, t₂, rfl, h₁, h₂⟩ := returns_bind.mp hfd
        cases connected with
        | none =>
            obtain ⟨_, t₃, t₄, rfl, h₃, h₄⟩ := returns_bind.mp h₂
            exact .inl (returns_ret.mp h₄).2
        | some c =>
            obtain ⟨_, t₃, t₄, rfl, h₃, h₄⟩ := returns_bind.mp h₂
            obtain ⟨_, t₅, t₆, rfl, h₅, h₆⟩ := returns_bind.mp h₄
            refine .inr ⟨c, a, List.mem_cons_self, ?_, (returns_ret.mp h₆).2⟩
            exact List.mem_cons_of_mem _ (List.mem_append_left _ (x11Connect_socket h₁))
  · exact .inl (returns_ret.mp h).2

/-! Runs of the handlers of the connections, in a process that also does other things. -/

/-- The call neither writes to these descriptors nor reads from them, and closes none of them. -/
structure Elsewhere (a : List ℕ) (o : IoOp) : Prop where
  touches : ∀ n ∈ a, ¬ Touches n o
  writesAll : ∀ n ∈ a, ∀ data total, o ≠ .writeAll n data total
  closes : ∀ fd, o = .close fd → fd.toNat ∉ a

/-- The tables that calls of the two handlers lead to, with the descriptors and the trace of the
process; other calls of the process come anywhere between. -/
inductive Reach (auth : Option Auth) : IoX11List → Table → Events → Prop
  | init (t : Table) (tr : Events) : Reach auth [] t tr
  | select {l l' : IoX11List} {t t' : Table} {tr : Events} {part : List (Step Table IoRes)}
      {reads writes : FdSet} (h : Reach auth l t tr)
      (hrun : Exec (· = ·) Answers (x11HandleSelect auth reads writes l) t part (.returned l') t') :
      Reach auth l' t' (tr ++ part.map Step.event)
  | new {l l' : IoX11List} {t t' : Table} {tr : Events} {part : List (Step Table IoRes)}
      {method : Option ConnectMethod} {x11Fd : ℤ} {reads : FdSet} (h : Reach auth l t tr)
      (hrun : Exec (· = ·) Answers (x11HandleNew method x11Fd reads l) t part (.returned l') t') :
      Reach auth l' t' (tr ++ part.map Step.event)
  | other {l : IoX11List} {t t' : Table} {tr : Events} {o : IoOp} {r : IoRes o}
      (h : Reach auth l t tr) (hother : Elsewhere (x11Numbers l) o) (hsem : Answers o t r t') :
      Reach auth l t' (tr ++ [⟨o, r⟩])

/-- What holds between the calls. -/
structure Connected (auth : Option Auth) (l : IoX11List) (t : Table) (tr : Events) : Prop where
  owns : Owns t (x11Numbers l)
  each : ∀ (i : ℕ) (io : IoX11), l[i]? = some (some io) → (∃ m s : ℕ, io.masterFd = m ∧ io.slaveFd = s) ∧
    Faithful auth io (since tr)

section Connected

variable {auth : Option Auth} {l l' : IoX11List} {t t' : Table} {tr : Events}

theorem ioNumbers_sublist {i : ℕ} {io : IoX11} (h : l[i]? = some (some io)) :
    (ioNumbers io).Sublist (x11Numbers l) := by
  have hslot : [some io].Sublist l := List.singleton_sublist.mpr (List.mem_of_getElem? h)
  have hsub := hslot.flatMap entryNumbers
  rwa [List.flatMap_singleton] at hsub

theorem ioNumbers_eq {io : IoX11} {m s : ℕ} (hm : io.masterFd = m) (hs : io.slaveFd = s) :
    ioNumbers io = [m, s] := by
  rw [ioNumbers, hm, hs, number_natCast, number_natCast]
  rfl

/-- A part of the trace in which a connection only keeps its descriptors. -/
theorem idle_faithful {io : IoX11} {part : Events} (h : Faithful auth io (since tr))
    (hidle : ∀ fd, fd = io.masterFd ∨ fd = io.slaveFd →
      Spares fd part ∧ ∀ e ∈ part, opens fd e = false) :
    Faithful auth io (since (tr ++ part)) := by
  refine h.congr fun fd hfd => ?_
  obtain ⟨hspares, hopens⟩ := hidle fd hfd
  rw [since_append hopens, written_append, chunks_append, hspares.written, hspares.chunks,
    List.append_nil, List.append_nil]
  exact ⟨rfl, rfl⟩

/-- What `x11_handle_select` does for a connection is what its `relay` does. -/
theorem select_outcome (h : Connected auth l t tr) {reads writes : FdSet}
    {part : List (Step Table IoRes)} {i : ℕ} {io : IoX11}
    (hrun : Exec (· = ·) Answers (x11HandleSelect auth reads writes l) t part (.returned l') t')
    (hio : l[i]? = some (some io)) :
    ∃ r, l'[i]? = some r ∧ match r with
      | some io' => Faithful auth io' (since (tr ++ part.map Step.event)) ∧
          io'.masterFd = io.masterFd ∧ io'.slaveFd = io.slaveFd
      | none => Drained auth io (since tr) (part.map Step.event) := by
  obtain ⟨⟨m, s, hm, hs⟩, hf⟩ := h.each i io hio
  obtain ⟨pre, mid, post, r, htr, hr, hrelay, hspares⟩ := x11HandleSelect_slot hrun h.owns hio
  have hmid : ∀ fd, fd = io.masterFd ∨ fd = io.slaveFd → Spares fd pre ∧ Spares fd post := by
    rw [ioNumbers_eq hm hs] at hspares
    rintro fd (rfl | rfl)
    · rw [hm]
      exact hspares m (by simp)
    · rw [hs]
      exact hspares s (by simp)
  have hbytes : ∀ fd, fd = io.masterFd ∨ fd = io.slaveFd → ∀ hist : Events,
      written fd (hist ++ part.map Step.event) = written fd (hist ++ mid) ∧
        chunks fd (hist ++ part.map Step.event) = chunks fd (hist ++ mid) ∧
        (Ends fd (part.map Step.event) → Ends fd mid) := by
    intro fd hfd hist
    obtain ⟨hpre, hpost⟩ := hmid fd hfd
    rw [htr]
    refine ⟨?_, ?_, fun hends => ?_⟩
    · simp [hpre.written, hpost.written]
    · simp [hpre.chunks, hpost.chunks]
    · rcases ends_append.mp hends with hends | hends
      · exact (ends_append.mp hends).resolve_left hpre.not_ends
      · exact (hpost.not_ends hends).elim
  refine ⟨r, hr, ?_⟩
  have hout := relay_outcome hf hrelay
  cases r with
  | none =>
      refine ⟨fun hends => ?_, fun hends => ?_⟩
      · obtain ⟨-, hchunks, hmids⟩ := hbytes io.masterFd (Or.inl rfl) (since tr io.masterFd)
        rw [hchunks, (hbytes io.slaveFd (Or.inr rfl) _).1]
        exact hout.master (hmids hends)
      · obtain ⟨-, hchunks, hmids⟩ := hbytes io.slaveFd (Or.inr rfl) (since tr io.slaveFd)
        rw [hchunks, (hbytes io.masterFd (Or.inl rfl) _).1]
        exact hout.slave (hmids hends)
  | some io' =>
      obtain ⟨hf', hmaster, hslave, -⟩ := hout
      refine ⟨hf'.congr fun fd hfd => ?_, hmaster, hslave⟩
      rw [hmaster, hslave] at hfd
      obtain ⟨hwritten, hchunks, -⟩ := hbytes fd hfd (since tr fd)
      rw [since_append (x11HandleSelect_opens hrun.runs fd), hwritten, hchunks]
      exact ⟨rfl, rfl⟩

theorem Connected.select (h : Connected auth l t tr) {reads writes : FdSet}
    {part : List (Step Table IoRes)}
    (hrun : Exec (· = ·) Answers (x11HandleSelect auth reads writes l) t part (.returned l') t') :
    Connected auth l' t' (tr ++ part.map Step.event) where
  owns := by
    have hacts : Acts t reads writes (x11HandleSelect auth reads writes l)
        (fun l' t' => Moves t t' (x11Numbers l) (x11Numbers l')) t :=
      x11HandleSelect_acts h.owns.held h.owns
    exact ((hacts.exec hrun).2 l' rfl).owns h.owns
  each := by
    intro i io' hio'
    obtain ⟨io, hio⟩ := x11HandleSelect_live hrun.runs hio'
    obtain ⟨⟨m, s, hm, hs⟩, -⟩ := h.each i io hio
    obtain ⟨r, hr, hout⟩ := select_outcome h hrun hio
    rw [hr] at hio'
    obtain rfl := Option.some.inj hio'
    obtain ⟨hf, hmaster, hslave⟩ := hout
    exact ⟨⟨m, s, hmaster.trans hm, hslave.trans hs⟩, hf⟩

/-- A slot of the table with one more connection. -/
theorem getElem?_insertFirst {new io : IoX11} {i : ℕ}
    (h : (insertFirst new l)[i]? = some (some io)) : io = new ∨ l[i]? = some (some io) := by
  induction l generalizing i with
  | nil =>
      cases i with
      | zero => exact Or.inl (Option.some.inj (Option.some.inj h)).symm
      | succ i => cases h
  | cons entry l ih =>
      cases entry with
      | none =>
          cases i with
          | zero => exact Or.inl (Option.some.inj (Option.some.inj h)).symm
          | succ i => exact Or.inr h
      | some io₀ =>
          cases i with
          | zero => exact Or.inr h
          | succ i => exact ih (i := i) h

/-- The descriptors of the connections stay as they are while another connection is made. -/
private theorem new_keeps (h : Connected auth l t tr) {method : Option ConnectMethod} {x11Fd : ℤ}
    {reads : FdSet} {part : List (Step Table IoRes)}
    (hrun : Exec (· = ·) Answers (x11HandleNew method x11Fd reads l) t part (.returned l') t') :
    Owns t' (x11Numbers l') ∧
      ∀ n ∈ x11Numbers l, ∀ e ∈ part.map Step.event, opens n e = false := by
  have hgains : Ensures Answers (fun _ _ _ _ => True) (x11HandleNew method x11Fd reads l)
      (Gains l t []) t :=
    @x11HandleNew_ensures t t reads [] _ method x11Fd l (fun _ _ _ => trivial)
      fun _ _ _ _ _ => trivial
  obtain ⟨new, hmoves, hperm⟩ := (hgains.exec hrun).2 l' rfl
  refine ⟨((hmoves.frame (x11Numbers l)).owns h.owns).perm hperm, ?_⟩
  intro n hn
  obtain ⟨f, hf⟩ := Option.isSome_iff_exists.mp (h.owns.2 n hn)
  have hf' : t'.files n = some f := by
    rw [hmoves.others n (List.not_mem_nil) (h.owns.2 n hn), hf]
  exact exec_not_opens hrun hf hf'

theorem Connected.new (h : Connected auth l t tr) {method : Option ConnectMethod} {x11Fd : ℤ}
    {reads : FdSet} {part : List (Step Table IoRes)}
    (hrun : Exec (· = ·) Answers (x11HandleNew method x11Fd reads l) t part (.returned l') t') :
    Connected auth l' t' (tr ++ part.map Step.event) := by
  obtain ⟨howns, hopens⟩ := new_keeps h hrun
  have hspares : ∀ fd, Spares fd (part.map Step.event) := by
    intro fd e he htouches
    have hconnecting := hrun.runs.uses (x11HandleNew_connecting method x11Fd reads l) e he
    obtain ⟨o, r⟩ := e
    cases o with
    | read fd' size => exact hconnecting
    | write fd' data => exact hconnecting
    | _ => exact htouches
  have hold : ∀ (i : ℕ) (io : IoX11), l[i]? = some (some io) →
      (∃ m s : ℕ, io.masterFd = m ∧ io.slaveFd = s) ∧
        Faithful auth io (since (tr ++ part.map Step.event)) := by
    intro i io hio
    obtain ⟨⟨m, s, hm, hs⟩, hf⟩ := h.each i io hio
    have hsub := (ioNumbers_sublist hio).subset
    rw [ioNumbers_eq hm hs] at hsub
    refine ⟨⟨m, s, hm, hs⟩, idle_faithful hf ?_⟩
    rintro fd (rfl | rfl)
    · rw [hm]
      exact ⟨hspares m, hopens m (hsub (by simp))⟩
    · rw [hs]
      exact ⟨hspares s, hopens s (hsub (by simp))⟩
  refine ⟨howns, ?_⟩
  obtain rfl | ⟨c, a, haccept, hsocket, rfl⟩ := returns_x11HandleNew hrun.runs
  · exact hold
  · intro i io hio
    rcases getElem?_insertFirst hio with rfl | hio'
    · refine ⟨⟨c, a, rfl, rfl⟩, ?_⟩
      have hnodup := howns.1.sublist (ioNumbers_sublist hio)
      rw [ioNumbers_eq (m := c) (s := a) rfl rfl] at hnodup
      have hempty : ∀ fd : ℤ, (∃ e ∈ part.map Step.event, opens fd e = true) →
          written fd (since (tr ++ part.map Step.event) fd) = [] ∧
            chunks fd (since (tr ++ part.map Step.event) fd) = [] := by
        intro fd hopened
        have hsilent : Spares fd (since (tr ++ part.map Step.event) fd) :=
          fun e he => hspares fd e (since_subset hopened he)
        exact ⟨hsilent.written, hsilent.chunks⟩
      obtain ⟨hcw, hcc⟩ := hempty c ⟨_, hsocket, decide_eq_true rfl⟩
      obtain ⟨haw, hac⟩ := hempty a ⟨_, haccept, decide_eq_true rfl⟩
      refine ⟨?_, ?_, ?_, ?_⟩
      · show (c : ℤ) ≠ a
        simpa using hnodup
      · show written c _ ++ [] = substituted auth (chunks a _)
        rw [hcw, hac]
        rfl
      · show written a _ ++ [] = (chunks c _).flatten
        rw [haw, hcc]
        rfl
      · show false = true ↔ chunks a _ ≠ []
        rw [hac]
        simp
    · exact hold i io hio'

theorem Connected.other (h : Connected auth l t tr) {o : IoOp} {r : IoRes o}
    (hother : Elsewhere (x11Numbers l) o) (hsem : Answers o t r t') :
    Connected auth l t' (tr ++ [⟨o, r⟩]) := by
  have hkeeps : ∀ n ∈ x11Numbers l, (t'.files n).isSome ∧ opens n ⟨o, r⟩ = false := by
    intro n hn
    obtain ⟨f, hf⟩ := Option.isSome_iff_exists.mp (h.owns.2 n hn)
    refine ⟨?_, not_opens_of_open hsem hf⟩
    cases o with
    | accept fd =>
        cases r with
        | none =>
            obtain rfl : t' = t := hsem
            exact h.owns.2 n hn
        | some m =>
            obtain ⟨hfree, rfl⟩ : t.files m = none ∧ t' = t.opened m := hsem
            rw [(grows_opened hfree).keeps n f hf]
            rfl
    | socket =>
        cases r with
        | none =>
            obtain rfl : t' = t := hsem
            exact h.owns.2 n hn
        | some m =>
            obtain ⟨hfree, rfl⟩ : t.files m = none ∧ t' = t.opened m := hsem
            rw [(grows_opened hfree).keeps n f hf]
            rfl
    | close fd =>
        obtain rfl : t' = t.close fd.toNat := hsem
        have hne : n ≠ fd.toNat := by
          rintro rfl
          exact hother.closes fd rfl hn
        rw [Table.close_of_ne hne, hf]
        rfl
    | fdRecv fd len =>
        rw [hsem.1.keeps n f hf]
        rfl
    | _ =>
        obtain rfl : t' = t := hsem
        exact h.owns.2 n hn
  refine ⟨⟨h.owns.1, fun n hn => (hkeeps n hn).1⟩, ?_⟩
  intro i io hio
  obtain ⟨⟨m, s, hm, hs⟩, hf⟩ := h.each i io hio
  have hsub := (ioNumbers_sublist hio).subset
  rw [ioNumbers_eq hm hs] at hsub
  refine ⟨⟨m, s, hm, hs⟩, idle_faithful hf ?_⟩
  have hidle : ∀ n ∈ [m, s], Spares n [⟨o, r⟩] ∧
      ∀ e ∈ [(⟨o, r⟩ : Event IoRes)], opens n e = false := by
    intro n hn
    refine ⟨fun e he => ?_, fun e he => ?_⟩
    · rw [List.mem_singleton.mp he]
      exact hother.touches n (hsub hn)
    · rw [List.mem_singleton.mp he]
      exact (hkeeps n (hsub hn)).2
  rintro fd (rfl | rfl)
  · rw [hm]
    exact hidle m (by simp)
  · rw [hs]
    exact hidle s (by simp)

theorem Reach.connected (h : Reach auth l t tr) : Connected auth l t tr := by
  induction h with
  | init t tr => exact ⟨⟨List.nodup_nil, fun n hn => (List.not_mem_nil hn).elim⟩, nofun⟩
  | select h hrun ih => exact ih.select hrun
  | new h hrun ih => exact ih.new hrun
  | other h hother hsem ih => exact ih.other hother hsem

end Connected

/-- In every run, and for every connection in the table: what has been written to each end and what
is in the buffer for it is what has been read from the other end, with the first chunk of the client
checked for the cookie. Whatever its calls answer, `x11_handle_select` returns; and if it drops
the connection after the end of one side, all that has been read there has been written. -/
theorem x11_relay_faithful {auth : Option Auth} {l : IoX11List} {t : Table} {tr : Events}
    (h : Reach auth l t tr) {i : ℕ} {io : IoX11} (hio : l[i]? = some (some io)) :
    (written io.masterFd (since tr io.masterFd) ++ io.slaveBuf.data =
        substituted auth (chunks io.slaveFd (since tr io.slaveFd)) ∧
      written io.slaveFd (since tr io.slaveFd) ++ io.masterBuf.data =
        (chunks io.masterFd (since tr io.masterFd)).flatten ∧
      io.slaveBuf.avail ≤ bufsiz ∧ io.masterBuf.avail ≤ bufsiz) ∧
    ∀ reads writes : FdSet, Returning (x11HandleSelect auth reads writes l) ∧
      ∀ (part : List (Step Table IoRes)) (l' : IoX11List) (t' : Table),
        Exec (· = ·) Answers (x11HandleSelect auth reads writes l) t part (.returned l') t' →
        l'[i]? = some none →
          (Ends io.masterFd (part.map Step.event) →
            written io.slaveFd (since (tr ++ part.map Step.event) io.slaveFd) =
              (chunks io.masterFd (since (tr ++ part.map Step.event) io.masterFd)).flatten) ∧
          (Ends io.slaveFd (part.map Step.event) →
            written io.masterFd (since (tr ++ part.map Step.event) io.masterFd) =
              substituted auth
                (chunks io.slaveFd (since (tr ++ part.map Step.event) io.slaveFd))) := by
  have hconnected := h.connected
  obtain ⟨-, hf⟩ := hconnected.each i io hio
  refine ⟨⟨hf.toMaster, hf.toSlave, io.slaveBuf.le, io.masterBuf.le⟩, ?_⟩
  intro reads writes
  refine ⟨(x11HandleSelect_lives auth reads writes l).returning, ?_⟩
  intro part l' t' hrun hdrop
  obtain ⟨r, hr, hout⟩ := select_outcome hconnected hrun hio
  rw [hr] at hdrop
  obtain rfl := Option.some.inj hdrop
  have hopens := x11HandleSelect_opens hrun.runs
  rw [since_append (hopens _), since_append (hopens _)]
  exact ⟨hout.master, hout.slave⟩

/-! Descriptor 7 is accepted and 8 connected. The client sends a setup packet with the fake cookie,
which goes on in two writes; the server answers, and the client ends the connection. -/

private def sampleAuth : Auth := { saved := [0xbb], fake := [0xaa], same := rfl }

private def sampleSetup (cookie : UInt8) : Bytes :=
  [0x6c, 0, 11, 0, 0, 0, 0, 0, 1, 0, 0, 0, cookie, 0, 0, 0]

def sampleTable : Table where
  files := fun n => if n < 7 then some n else none
  next := 7
  fresh := by
    intro n f h
    split_ifs at h with hn
    obtain rfl := Option.some.inj h
    exact hn

def acceptedTable : Table := sampleTable.opened 7

def connectedTable : Table := acceptedTable.opened 8

def sampleNew : List (Step Table IoRes) :=
  [⟨sampleTable, ⟨.accept 4, some (7 : ℕ)⟩, acceptedTable⟩,
    ⟨acceptedTable, ⟨.getaddrinfo, some (1 : ℕ)⟩, acceptedTable⟩,
    ⟨acceptedTable, ⟨.socket, some (8 : ℕ)⟩, connectedTable⟩,
    ⟨connectedTable, ⟨.connect 8, true⟩, connectedTable⟩,
    ⟨connectedTable, ⟨.unblockFd 8, true⟩, connectedTable⟩,
    ⟨connectedTable, ⟨.unblockFd 7, true⟩, connectedTable⟩]

def newIo : IoX11 := { masterFd := 8, slaveFd := 7 }

theorem sampleNew_exec :
    Exec (· = ·) Answers (x11HandleNew (some .inet) 4 [4] []) sampleTable sampleNew
      (.returned [some newIo]) connectedTable :=
  (Prog.runs_of_replay rfl).exec
    ⟨rfl, ⟨rfl, rfl⟩, rfl, rfl, rfl, ⟨rfl, rfl⟩, rfl, rfl, rfl, rfl, rfl, rfl, rfl⟩

private def sampleRead : List (Step Table IoRes) :=
  [⟨connectedTable, ⟨.read 7 bufsiz, some ⟨sampleSetup 0xaa, by decide⟩⟩, connectedTable⟩]

private def sampleWrite : List (Step Table IoRes) :=
  [⟨connectedTable, ⟨.write 8 (sampleSetup 0xbb), some ⟨10, by decide⟩⟩, connectedTable⟩]

private def sampleBoth : List (Step Table IoRes) :=
  [⟨connectedTable, ⟨.read 8 bufsiz, some ⟨[9, 9], by decide⟩⟩, connectedTable⟩,
    ⟨connectedTable, ⟨.write 8 ((sampleSetup 0xbb).drop 10), some ⟨6, by decide⟩⟩, connectedTable⟩]

private def sampleDrop : List (Step Table IoRes) :=
  [⟨connectedTable, ⟨.write 7 [9, 9], some ⟨2, by decide⟩⟩, connectedTable⟩,
    ⟨connectedTable, ⟨.read 7 bufsiz, some ⟨[], Nat.zero_le bufsiz⟩⟩, connectedTable⟩,
    ⟨connectedTable, ⟨.close 8, ()⟩, connectedTable.close 8⟩,
    ⟨connectedTable.close 8, ⟨.close 7, ()⟩, (connectedTable.close 8).close 7⟩]

private def readIo : IoX11 :=
  { newIo with slaveBuf := newIo.slaveBuf.fill ⟨sampleSetup 0xaa, by decide⟩ }.checkAuthData
    (some sampleAuth)

private def writtenIo : IoX11 := { readIo with slaveBuf := readIo.slaveBuf.consume 10 }

private def answeredIo : IoX11 :=
  { writtenIo with
    masterBuf := writtenIo.masterBuf.fill ⟨[9, 9], by decide⟩
    slaveBuf := writtenIo.slaveBuf.consume 6 }

private def sampleTrace : Events :=
  [] ++ sampleNew.map Step.event ++ sampleRead.map Step.event ++ sampleWrite.map Step.event ++
    sampleBoth.map Step.event

private theorem sample_reach :
    Reach (some sampleAuth) [some answeredIo] connectedTable sampleTrace := by
  have hread : Exec (· = ·) Answers
      (x11HandleSelect (some sampleAuth) [7] [] [some newIo]) connectedTable sampleRead
      (.returned [some readIo]) connectedTable :=
    (Prog.runs_of_replay rfl).exec ⟨rfl, rfl, rfl⟩
  have hwrite : Exec (· = ·) Answers
      (x11HandleSelect (some sampleAuth) [] [8] [some readIo]) connectedTable sampleWrite
      (.returned [some writtenIo]) connectedTable :=
    (Prog.runs_of_replay rfl).exec ⟨rfl, rfl, rfl⟩
  have hboth : Exec (· = ·) Answers
      (x11HandleSelect (some sampleAuth) [8] [8] [some writtenIo]) connectedTable sampleBoth
      (.returned [some answeredIo]) connectedTable :=
    (Prog.runs_of_replay rfl).exec ⟨rfl, rfl, rfl, rfl, rfl⟩
  have hstart : Reach (some sampleAuth) [some newIo] connectedTable ([] ++ sampleNew.map Step.event) :=
    .new (.init sampleTable []) sampleNew_exec
  exact ((hstart.select hread).select hwrite).select hboth

private theorem sampleDrop_exec : Exec (· = ·) Answers
    (x11HandleSelect (some sampleAuth) [7] [7] [some answeredIo]) connectedTable sampleDrop
    (.returned [none]) ((connectedTable.close 8).close 7) :=
  (Prog.runs_of_replay rfl).exec ⟨rfl, rfl, rfl, rfl, rfl, rfl, rfl, rfl, rfl⟩

theorem x11_relay_faithful_sample :
    written 7 (since sampleTrace 7) ++ answeredIo.masterBuf.data = [9, 9] ∧
    chunks 7 (since sampleTrace 7) = [sampleSetup 0xaa] ∧
    written 8 (since (sampleTrace ++ sampleDrop.map Step.event) 8) = sampleSetup 0xbb := by
  obtain ⟨⟨-, hslave, -⟩, hselect⟩ := x11_relay_faithful sample_reach (i := 0) rfl
  obtain ⟨-, hdrop⟩ := hselect [7] [7]
  obtain ⟨-, hends⟩ := hdrop sampleDrop [none] _ sampleDrop_exec rfl
  refine ⟨hslave.trans (by decide), by decide, ?_⟩
  have hread : Ends 7 (sampleDrop.map Step.event) := by
    refine ⟨bufsiz, some ⟨[], Nat.zero_le bufsiz⟩, by simp [sampleDrop], ?_⟩
    rintro d ⟨⟩
    rfl
  exact (hends hread).trans (by decide)

end HasherPriv.IoLoop.Connections
