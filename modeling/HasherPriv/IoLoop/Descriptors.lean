/- GID: HasherPriv/IoLoop/Descriptors
   layer: input and output loop
   source: parent.c, io_x11.c, io_log.c
   digest: A descriptor that is acted on is still the one that was found ready. -/

import HasherPriv.Foundations.Contracts
import HasherPriv.Foundations.Handles
import HasherPriv.IoLoop.Parent
import Mathlib.Data.List.Flatten
import Mathlib.Data.List.GetD

set_option autoImplicit false
set_option relaxedAutoImplicit false

namespace HasherPriv.IoLoop.Descriptors

open Foundations.ByteString (Bytes)
open Foundations.Program
open Foundations.Contracts
open Foundations.Handles
open Calls
open Log
open X11
open Parent

/-! The kernel's table of descriptors. -/

/-- How the calls answer and what they do to the table. A new descriptor gets any free number;
what arrives at the control socket may bring more than the one that is kept. -/
def Answers : (o : IoOp) → Table → IoRes o → Table → Prop
  | .accept _, t, none, t' | .socket, t, none, t' => t' = t
  | .accept _, t, some n, t' | .socket, t, some n, t' => t.files n = none ∧ t' = t.opened n
  | .close fd, t, _, t' => t' = t.close fd.toNat
  | .fdRecv _ _, t, r, t' =>
      Grows t t' ∧ ∀ n, r.fd = some n → t.files n = none ∧ (t'.files n).isSome
  | _, t, _, t' => t' = t

theorem later_of_answers {o : IoOp} {t t' : Table} {r : IoRes o} (h : Answers o t r t') :
    Later t t' := by
  cases o with
  | accept fd =>
      rcases r with _ | n
      · obtain rfl : t' = t := h
        exact Later.refl _
      · obtain ⟨-, rfl⟩ : _ ∧ t' = t.opened n := h
        exact later_opened t n
  | socket =>
      rcases r with _ | n
      · obtain rfl : t' = t := h
        exact Later.refl _
      · obtain ⟨-, rfl⟩ : _ ∧ t' = t.opened n := h
        exact later_opened t n
  | close fd =>
      obtain rfl : t' = t.close fd.toNat := h
      exact later_close t _
  | fdRecv fd len => exact h.1.later
  | _ =>
      obtain rfl : t' = t := h
      exact Later.refl _

/-! What is acted on. -/

inductive Direction
  | reads
  | writes

/-- The descriptors that the handlers read, receive from, accept on and write to, but for the
standard output and error. -/
def acted : IoOp → Option (Direction × ℤ)
  | .read fd _ | .accept fd | .fdRecv fd _ => some (.reads, fd)
  | .write fd _ => some (.writes, fd)
  | _ => none

def chosen (reads writes : FdSet) : Direction → FdSet
  | .reads => reads
  | .writes => writes

/-- The descriptor acted on was found ready, and has the file that it had then. -/
def Current (t₀ : Table) (reads writes : FdSet) (o : IoOp) (t : Table) (_ : IoRes o)
    (_ : Table) : Prop :=
  ∀ d fd, acted o = some (d, fd) →
    ∃ n : ℕ, fd = n ∧ n ∈ chosen reads writes d ∧ ∃ f, t₀.files n = some f ∧ t.files n = some f

/-- The calls that neither act on a descriptor nor change the table. -/
def Plain : IoOp → Prop
  | .read _ _ | .write _ _ | .accept _ | .fdRecv _ _ | .socket | .close _ => False
  | _ => True

/-! Who owns which descriptors. -/

/-- The number behind a variable; a negative one has none. -/
def number (fd : ℤ) : List ℕ := if fd < 0 then [] else [fd.toNat]

@[simp] theorem number_neg_one : number (-1) = [] := rfl

@[simp] theorem number_natCast (n : ℕ) : number n = [n] := by simp [number]

def ioNumbers (io : IoX11) : List ℕ := number io.masterFd ++ number io.slaveFd

def entryNumbers (entry : Option IoX11) : List ℕ := entry.elim [] ioNumbers

def x11Numbers (l : IoX11List) : List ℕ := l.flatMap entryNumbers

def logNumbers (l : List ℤ) : List ℕ := l.flatMap number

def dirNumbers : Option ConnectMethod → List ℕ
  | some (.unix dirFd) => number dirFd
  | _ => []

/-- What `handle_x11_ctl` is about: the listener, the control socket and the directory. -/
def ctlNumbers (s : State) : List ℕ :=
  number s.x11Fd ++ (number s.ctlFd ++ dirNumbers s.method)

/-- The descriptors that are closed at some time, and the listeners. -/
def owned (c : Setup) (s : State) : List ℕ :=
  x11Numbers s.x11List ++ (logNumbers s.fdList ++ (number c.logFd ++ ctlNumbers s))

/-- The descriptors of the child and of the terminal, which are only forgotten. -/
def kept (s : State) : List ℕ :=
  number s.io.slaveReadErrFd ++ (number s.io.slaveReadOutFd ++
    (number s.io.slaveWriteFd ++ number s.io.masterReadFd))

/-- No descriptor has two owners, and all of them are open. -/
structure Apart (c : Setup) (s : State) (t : Table) : Prop where
  owns : Owns t (owned c s)
  others : ∀ n ∈ kept s, n ∉ owned c s ∧ (t.files n).isSome

/-! Single calls. -/

section Calls

variable {t₀ t : Table} {reads writes : FdSet}

/-- What a part of the loop does after `pselect` has answered with these sets at `t₀`. -/
abbrev Acts {α : Type} (t₀ : Table) (reads writes : FdSet) (p : IoProg α)
    (post : α → Table → Prop) (t : Table) : Prop :=
  Ensures Answers (Current t₀ reads writes) p post t

theorem current_of_acted {o : IoOp} {d : Direction} {fd : ℤ} {r : IoRes o} {t' : Table}
    (ho : acted o = some (d, fd)) (hready : fdsIsset (chosen reads writes d) fd = true)
    (hheld : Held t₀ t (number fd)) : Current t₀ reads writes o t r t' := by
  intro d' fd' ho'
  obtain ⟨rfl, rfl⟩ := Prod.mk.inj (Option.some.inj (ho.symm.trans ho'))
  obtain ⟨n, rfl, hn⟩ := exists_of_fdsIsset hready
  exact ⟨n, rfl, hn, hheld n (by simp)⟩

theorem current_of_not_acted {o : IoOp} {r : IoRes o} {t' : Table} (ho : acted o = none) :
    Current t₀ reads writes o t r t' := by
  intro d fd h
  rw [ho] at h
  cases h

theorem acted_of_plain {o : IoOp} (h : Plain o) : acted o = none := by
  cases o with
  | read fd size => exact h.elim
  | write fd data => exact h.elim
  | accept fd => exact h.elim
  | fdRecv fd len => exact h.elim
  | _ => rfl

theorem table_of_plain {o : IoOp} (h : Plain o) {r : IoRes o} {t' : Table}
    (hsem : Answers o t r t') : t' = t := by
  cases o with
  | accept fd => exact h.elim
  | fdRecv fd len => exact h.elim
  | socket => exact h.elim
  | close fd => exact h.elim
  | _ => exact hsem

theorem plain_acts {α : Type} {p : IoProg α} (hp : p.Uses Plain) :
    Acts t₀ reads writes p (fun _ t' => t' = t) t := by
  refine ensures_of_uses (I := (· = t)) hp rfl ?_
  rintro o v r v' ho rfl hsem
  exact ⟨current_of_not_acted (acted_of_plain ho), table_of_plain ho hsem⟩

theorem xclose_acts (fd : ℤ) :
    Acts t₀ reads writes (xclose fd) (fun _ t' => Moves t t' (number fd) []) t := by
  rw [xclose, number]
  split_ifs with hneg
  · exact Moves.refl t []
  · intro r t' hsem
    obtain rfl : t' = t.close fd.toNat := hsem
    exact ⟨current_of_not_acted rfl, moves_close t fd.toNat⟩

theorem unblockFd_acts (fd : ℤ) :
    Acts t₀ reads writes (unblockFd fd) (fun _ t' => t' = t) t :=
  plain_acts ((uses_op trivial).bind fun r => by cases r <;> trivial)

theorem xwriteAll_acts (fd : ℤ) (buffer : Bytes) (total : ℕ) :
    Acts t₀ reads writes (xwriteAll fd buffer total) (fun _ t' => t' = t) t :=
  plain_acts (xwriteAll_uses (fun _ _ => trivial) buffer total)

theorem accept_moves {fd : ℤ} {r : Option ℕ} {t' : Table} (h : Answers (.accept fd) t r t') :
    Moves t t' [] r.toList := by
  rcases r with _ | n
  · obtain rfl : t' = t := h
    exact Moves.refl _ []
  · obtain ⟨hfree, rfl⟩ : t.files n = none ∧ t' = t.opened n := h
    exact moves_opened hfree

theorem socket_moves {r : Option ℕ} {t' : Table} (h : Answers .socket t r t') :
    Moves t t' [] r.toList := by
  rcases r with _ | n
  · obtain rfl : t' = t := h
    exact Moves.refl _ []
  · obtain ⟨hfree, rfl⟩ : t.files n = none ∧ t' = t.opened n := h
    exact moves_opened hfree

theorem fdRecv_moves {fd : ℤ} {len : ℕ} {r : Received len} {t' : Table}
    (h : Answers (.fdRecv fd len) t r t') : Moves t t' [] r.fd.toList := by
  obtain ⟨hgrows, hfd⟩ := h
  cases hr : r.fd with
  | none => exact hgrows.moves_nil
  | some n =>
      obtain ⟨hfree, hopen⟩ := hfd n hr
      exact hgrows.moves hfree hopen

end Calls

/-! The handlers. Each acts on descriptors of its own, closes only them, and opens only free ones. -/

section Handlers

variable {t₀ t : Table} {reads writes : FdSet}

theorem copyChild_acts {slaveFd masterFd : ℤ} {total : ℕ}
    (hheld : Held t₀ t (number slaveFd)) :
    Acts t₀ reads writes (copyChild reads slaveFd masterFd total)
      (fun r t' => t' = t ∧ (r.1 = slaveFd ∨ r.1 = -1)) t := by
  unfold copyChild
  by_cases hready : fdsIsset reads slaveFd = true
  · rw [if_neg (not_not.mpr hready)]
    intro r t' hsem
    obtain rfl : t' = t := hsem
    refine ⟨current_of_acted (d := .reads) rfl hready hheld, ?_⟩
    cases r with
    | none => exact ⟨rfl, .inr rfl⟩
    | some data =>
        change Ensures _ _ (ite _ _ _) _ _
        split_ifs with hnil
        · exact ⟨rfl, .inr rfl⟩
        · exact (xwriteAll_acts masterFd data.val total).bind fun _ t'' ht'' => ⟨ht'', .inl rfl⟩
  · rw [if_pos hready]
    exact ⟨rfl, .inl rfl⟩

/-- Of everything but the buffer and the counters, the handling of the input leaves what it finds,
or forgets a descriptor. -/
structure SameDescriptors (s s' : State) : Prop where
  method : s'.method = s.method
  x11Fd : s'.x11Fd = s.x11Fd
  ctlFd : s'.ctlFd = s.ctlFd
  x11List : s'.x11List = s.x11List
  fdList : s'.fdList = s.fdList
  kept : kept s' ⊆ kept s

theorem writeChild_acts {s : State} (hheld : Held t₀ t (number s.io.slaveWriteFd)) :
    Acts t₀ reads writes (writeChild writes s)
      (fun r t' => t' = t ∧ ∀ s', r = some s' → SameDescriptors s s') t := by
  have hsame : ∀ s' : State, some s = some s' → SameDescriptors s s' := by
    rintro s' ⟨⟩
    exact ⟨rfl, rfl, rfl, rfl, rfl, fun _ hn => hn⟩
  unfold writeChild
  split_ifs with hready
  · intro r t' hsem
    obtain rfl : t' = t := hsem
    refine ⟨current_of_acted (d := .writes) rfl hready.2 hheld, ?_⟩
    cases r with
    | none => exact ⟨rfl, fun _ hs' => by cases hs'⟩
    | some n =>
        change Ensures _ _ (ite _ _ _) _ _
        split_ifs
        · exact ⟨rfl, fun _ hs' => by cases hs'⟩
        · refine ⟨rfl, ?_⟩
          rintro s' ⟨⟩
          exact ⟨rfl, rfl, rfl, rfl, rfl, fun _ hn => hn⟩
  · exact ⟨rfl, hsame⟩

theorem readTty_acts {s : State} (hheld : Held t₀ t (number s.io.masterReadFd)) :
    Acts t₀ reads writes (readTty reads s) (fun s' t' => t' = t ∧ SameDescriptors s s') t := by
  unfold readTty
  split_ifs with hready
  · intro r t' hsem
    obtain rfl : t' = t := hsem
    refine ⟨current_of_acted (d := .reads) rfl hready.2 hheld, ?_⟩
    cases r with
    | none =>
        refine ⟨rfl, rfl, rfl, rfl, rfl, rfl, fun n hn => ?_⟩
        simp only [kept, number_neg_one, List.append_nil, List.mem_append] at hn ⊢
        exact hn.imp_right fun h => h.imp_right .inl
    | some data => exact ⟨rfl, rfl, rfl, rfl, rfl, rfl, fun _ hn => hn⟩
  · exact ⟨rfl, rfl, rfl, rfl, rfl, rfl, fun _ hn => hn⟩

/-! A forwarded connection. -/

theorem writeOut_acts {fd : ℤ} {b : Buffer} (hready : fdsIsset writes fd = true)
    (hheld : Held t₀ t (number fd)) :
    Acts t₀ reads writes (writeOut fd b) (fun _ t' => t' = t) t := by
  intro r t' hsem
  obtain rfl : t' = t := hsem
  refine ⟨current_of_acted (d := .writes) rfl hready hheld, ?_⟩
  rcases r with _ | n
  · rfl
  · change Ensures _ _ (ite _ _ _) _ _
    split_ifs <;> rfl

theorem readIn_acts {fd : ℤ} {b : Buffer} (hready : fdsIsset reads fd = true)
    (hheld : Held t₀ t (number fd)) :
    Acts t₀ reads writes (readIn fd b) (fun _ t' => t' = t) t := by
  intro r t' hsem
  obtain rfl : t' = t := hsem
  refine ⟨current_of_acted (d := .reads) rfl hready hheld, ?_⟩
  rcases r with _ | data
  · rfl
  · change Ensures _ _ (ite _ _ _) _ _
    split_ifs <;> rfl

/-- A half-step leaves the table, and the descriptors of the connection. -/
abbrev HalfStep (io : IoX11) (t : Table) (r : Option IoX11) (t' : Table) : Prop :=
  t' = t ∧ ∀ io', r = some io' → ioNumbers io' = ioNumbers io

theorem halfStep_map {io : IoX11} {p : IoProg (Option Buffer)} {f : Buffer → IoX11}
    (hp : Acts t₀ reads writes p (fun _ t' => t' = t) t)
    (hf : ∀ b, ioNumbers (f b) = ioNumbers io) :
    Acts t₀ reads writes (p.bind fun b => .ret (b.map f)) (HalfStep io t) t := by
  refine hp.bind fun b t' ht' => ⟨ht', fun io' hio' => ?_⟩
  obtain ⟨b', -, rfl⟩ := Option.map_eq_some_iff.mp hio'
  exact hf b'

theorem writeSlave_acts {io : IoX11} (hheld : Held t₀ t (ioNumbers io)) :
    Acts t₀ reads writes (writeSlave writes io) (HalfStep io t) t := by
  unfold writeSlave
  split_ifs with hready
  · exact halfStep_map (writeOut_acts hready.2 (hheld.subset (List.subset_append_right _ _)))
      fun _ => rfl
  · exact ⟨rfl, fun io' hio' => by cases hio'; rfl⟩

theorem readMaster_acts {io : IoX11} (hheld : Held t₀ t (ioNumbers io)) :
    Acts t₀ reads writes (readMaster reads io) (HalfStep io t) t := by
  unfold readMaster
  split_ifs with hready
  · exact halfStep_map (readIn_acts hready.2 (hheld.subset (List.subset_append_left _ _)))
      fun _ => rfl
  · exact ⟨rfl, fun io' hio' => by cases hio'; rfl⟩

theorem writeMaster_acts {io : IoX11} (hheld : Held t₀ t (ioNumbers io)) :
    Acts t₀ reads writes (writeMaster writes io) (HalfStep io t) t := by
  unfold writeMaster
  split_ifs with hready
  · exact halfStep_map (writeOut_acts hready.2 (hheld.subset (List.subset_append_left _ _)))
      fun _ => rfl
  · exact ⟨rfl, fun io' hio' => by cases hio'; rfl⟩

theorem readSlave_acts {auth : Option Auth} {io : IoX11} (hheld : Held t₀ t (ioNumbers io)) :
    Acts t₀ reads writes (readSlave auth reads io) (HalfStep io t) t := by
  unfold readSlave
  split_ifs with hready
  · refine halfStep_map (readIn_acts hready.2 (hheld.subset (List.subset_append_right _ _)))
      fun b => ?_
    rw [ioNumbers, IoX11.checkAuthData_masterFd, IoX11.checkAuthData_slaveFd]
    rfl
  · exact ⟨rfl, fun io' hio' => by cases hio'; rfl⟩

theorem ioX11Free_acts (io : IoX11) :
    Acts t₀ reads writes (ioX11Free io) (fun _ t' => Moves t t' (ioNumbers io) []) t := by
  refine (xclose_acts io.masterFd).bind fun _ t₁ hmaster => ?_
  refine (xclose_acts io.slaveFd).mono fun _ t₂ hslave => ?_
  exact (hmaster.frame (number io.slaveFd)).trans hslave

theorem orFree_acts {io : IoX11} {a : List ℕ} {step : IoProg (Option IoX11)}
    {next : IoX11 → IoProg (Option IoX11)} (hio : ioNumbers io = a)
    (hstep : Acts t₀ reads writes step (HalfStep io t) t)
    (hnext : ∀ io', ioNumbers io' = a →
      Acts t₀ reads writes (next io') (fun r t' => Moves t t' a (entryNumbers r)) t) :
    Acts t₀ reads writes (orFree io step next) (fun r t' => Moves t t' a (entryNumbers r)) t := by
  refine hstep.bind fun r t' hpost => ?_
  obtain ⟨rfl, hsame⟩ := hpost
  cases r with
  | none =>
      refine (ioX11Free_acts io).bind fun _ t'' hfree => ?_
      rw [hio] at hfree
      exact hfree
  | some io' => exact hnext io' ((hsame io' rfl).trans hio)

theorem relay_acts {auth : Option Auth} {io : IoX11} (hheld : Held t₀ t (ioNumbers io)) :
    Acts t₀ reads writes (relay auth reads writes io)
      (fun r t' => Moves t t' (ioNumbers io) (entryNumbers r)) t := by
  have hheld' : ∀ io', ioNumbers io' = ioNumbers io → Held t₀ t (ioNumbers io') := by
    intro io' h
    rw [h]
    exact hheld
  refine orFree_acts rfl (writeSlave_acts hheld) fun io₁ h₁ => ?_
  refine orFree_acts h₁ (readMaster_acts (hheld' io₁ h₁)) fun io₂ h₂ => ?_
  refine orFree_acts h₂ (writeMaster_acts (hheld' io₂ h₂)) fun io₃ h₃ => ?_
  refine orFree_acts h₃ (readSlave_acts (hheld' io₃ h₃)) fun io₄ h₄ => ?_
  change Moves t t (ioNumbers io) (ioNumbers io₄)
  rw [h₄]
  exact Moves.refl t _

/-- A connection is acted on only before it is dropped, and the others do not notice. -/
theorem x11HandleSelect_acts {auth : Option Auth} {l : IoX11List}
    (hheld : Held t₀ t (x11Numbers l)) (howns : Owns t (x11Numbers l)) :
    Acts t₀ reads writes (x11HandleSelect auth reads writes l)
      (fun l' t' => Moves t t' (x11Numbers l) (x11Numbers l')) t := by
  induction l generalizing t with
  | nil => exact Moves.refl t _
  | cons entry l ih =>
      cases entry with
      | none => exact (ih hheld howns).bind fun l' t' hmoves => hmoves
      | some io =>
          have howns' : Owns t (ioNumbers io ++ x11Numbers l) := howns
          have hheld' : Held t₀ t (ioNumbers io ++ x11Numbers l) := hheld
          refine (relay_acts (hheld'.subset (List.subset_append_left _ _))).bind
            fun entry' t₁ hrelay => ?_
          have hrest : Held t₀ t₁ (x11Numbers l) :=
            (hheld'.subset (List.subset_append_right _ _)).moves hrelay
              fun _ hn => howns'.notMem_left hn
          have hframe := hrelay.frame (x11Numbers l)
          refine (ih hrest (hframe.owns howns').right).bind fun l' t₂ hmoves => ?_
          exact hframe.trans (hmoves.frame_left (entryNumbers entry'))

/-! A new forwarded connection. -/

theorem x11ConnectAddress_acts (n : ℕ) :
    Acts t₀ reads writes (x11ConnectAddress n) (fun fd t' => Moves t t' [] fd.toList) t := by
  induction n generalizing t with
  | zero => exact Moves.refl t []
  | succ n ih =>
      intro fd t₁ hsem
      refine ⟨current_of_not_acted rfl, ?_⟩
      have hopened := socket_moves hsem
      rcases fd with _ | fd
      · exact ih.mono fun fd t₂ hmoves => hopened.trans hmoves
      · intro connected t₂ hconnect
        obtain rfl : t₂ = t₁ := hconnect
        refine ⟨current_of_not_acted rfl, ?_⟩
        cases connected with
        | true => exact hopened
        | false =>
            refine (xclose_acts fd).bind fun _ t₃ hclosed => ?_
            rw [number_natCast] at hclosed
            exact ih.mono fun fd' t₄ hmoves => (hopened.trans hclosed).trans hmoves

theorem x11Connect_acts (method : Option ConnectMethod) :
    Acts t₀ reads writes (x11Connect method) (fun fd t' => Moves t t' [] fd.toList) t := by
  rcases method with _ | ⟨dirFd⟩ | _
  · exact Moves.refl t []
  · refine Ensures.bind (Q := fun fd t' => Moves t t' [] fd.toList) ?_ fun fd t₁ hmoves => ?_
    · intro entered t₁ hentered
      obtain rfl : t₁ = t := hentered
      refine ⟨current_of_not_acted rfl, ?_⟩
      cases entered with
      | false => exact Moves.refl t₁ []
      | true =>
          intro fd t₂ hsem
          refine ⟨current_of_not_acted rfl, ?_⟩
          have hopened := socket_moves hsem
          rcases fd with _ | fd
          · exact hopened
          · intro connected t₃ hconnect
            obtain rfl : t₃ = t₂ := hconnect
            refine ⟨current_of_not_acted rfl, ?_⟩
            cases connected with
            | true => exact hopened
            | false =>
                refine (xclose_acts fd).bind fun _ t₄ hclosed => ?_
                rw [number_natCast] at hclosed
                exact hopened.trans hclosed
    · intro r t₂ hsem
      obtain rfl : t₂ = t₁ := hsem
      exact ⟨current_of_not_acted rfl, hmoves⟩
  · intro addresses t₁ hsem
    obtain rfl : t₁ = t := hsem
    refine ⟨current_of_not_acted rfl, ?_⟩
    cases addresses with
    | none => exact Moves.refl t₁ []
    | some n => exact x11ConnectAddress_acts n

theorem x11Numbers_insertFirst (io : IoX11) (l : IoX11List) :
    (ioNumbers io ++ x11Numbers l).Perm (x11Numbers (insertFirst io l)) := by
  induction l with
  | nil => exact .refl _
  | cons entry l ih =>
      cases entry with
      | none => exact .refl _
      | some io' =>
          have hswap := List.perm_append_comm_assoc (ioNumbers io) (ioNumbers io') (x11Numbers l)
          exact hswap.trans (ih.append_left _)

/-- The table has one more connection between new descriptors, or none. -/
abbrev Gains (l : IoX11List) (t : Table) (a : List ℕ) (l' : IoX11List) (t' : Table) : Prop :=
  ∃ new, Moves t t' a new ∧ (new ++ x11Numbers l).Perm (x11Numbers l')

/-- What follows the `accept`. -/
theorem x11HandleNew_rest {method : Option ConnectMethod} {l : IoX11List} (acceptFd : ℕ) :
    Acts t₀ reads writes ((x11Connect method).bind fun
      | some connectFd => ioX11New connectFd acceptFd l
      | none => (xclose acceptFd).bind fun _ => .ret l) (Gains l t [acceptFd]) t := by
  refine (x11Connect_acts method).bind fun fd t₁ hconnected => ?_
  have hboth : Moves t t₁ [acceptFd] (fd.toList ++ [acceptFd]) := hconnected.frame [acceptFd]
  cases fd with
  | none =>
      refine (xclose_acts acceptFd).bind fun _ t₂ hclosed => ?_
      rw [number_natCast] at hclosed
      exact ⟨[], hboth.trans hclosed, .refl _⟩
  | some connectFd =>
      refine (unblockFd_acts connectFd).bind fun _ t₂ ht₂ => ?_
      subst ht₂
      refine (unblockFd_acts acceptFd).bind fun _ t₃ ht₃ => ?_
      subst ht₃
      have hnew := x11Numbers_insertFirst { masterFd := connectFd, slaveFd := acceptFd } l
      rw [ioNumbers, number_natCast, number_natCast] at hnew
      exact ⟨_, hboth, hnew⟩

theorem x11HandleNew_ensures {check : (o : IoOp) → Table → IoRes o → Table → Prop}
    {method : Option ConnectMethod} {x11Fd : ℤ} {l : IoX11List}
    (haccept : fdsIsset reads x11Fd = true → ∀ r t', check (.accept x11Fd) t r t')
    (hrest : ∀ o v r v', Current t₀ reads writes o v r v' → check o v r v') :
    Ensures Answers check (x11HandleNew method x11Fd reads l) (Gains l t []) t := by
  unfold x11HandleNew
  by_cases hready : fdsIsset reads x11Fd = true
  · rw [if_neg (not_not.mpr hready)]
    intro fd t₁ hsem
    refine ⟨haccept hready fd t₁, ?_⟩
    have haccepted := accept_moves hsem
    cases fd with
    | none => exact ⟨[], haccepted, .refl _⟩
    | some acceptFd =>
        refine ((x11HandleNew_rest acceptFd).mono_check hrest).mono fun l' t' hgains => ?_
        obtain ⟨new, hmoves, hperm⟩ := hgains
        exact ⟨new, haccepted.trans hmoves, hperm⟩
  · rw [if_pos hready]
    exact ⟨[], Moves.refl t [], .refl _⟩

theorem x11HandleNew_acts {method : Option ConnectMethod} {x11Fd : ℤ} {l : IoX11List}
    (hheld : Held t₀ t (number x11Fd)) :
    Acts t₀ reads writes (x11HandleNew method x11Fd reads l)
      (fun l' t' => Moves t t' (x11Numbers l) (x11Numbers l')) t := by
  refine (x11HandleNew_ensures (fun hready r t' => ?_) fun _ _ _ _ h => h).mono ?_
  · exact current_of_acted (d := .reads) rfl hready hheld
  · rintro l' t' ⟨new, hmoves, hperm⟩
    exact (hmoves.frame (x11Numbers l)).perm (.refl _) hperm

/-! The log connections. -/

theorem logNumbers_replace {fd : ℤ} {l : List ℤ} (h : fd ∈ l) :
    (logNumbers l).Perm (number fd ++ logNumbers (l.replace fd (-1))) := by
  induction l with
  | nil => cases h
  | cons fd' l ih =>
      by_cases heq : fd = fd'
      · subst heq
        rw [List.replace_cons_self]
        exact .refl _
      · have hmem : fd ∈ l := (List.mem_cons.mp h).resolve_left heq
        have hkept : (fd' :: l).replace fd (-1) = fd' :: l.replace fd (-1) := by
          rw [List.replace_cons, beq_false_of_ne heq]
        have hswap := List.perm_append_comm_assoc (number fd') (number fd)
          (logNumbers (l.replace fd (-1)))
        rw [hkept]
        exact ((ih hmem).append_left _).trans hswap

theorem logNumbers_drop_replace (fd : ℤ) (l : List ℤ) (i : ℕ) :
    logNumbers ((l.replace fd (-1)).drop i) ⊆ logNumbers (l.drop i) := by
  induction l generalizing i with
  | nil => exact fun _ hn => hn
  | cons fd' l ih =>
      rw [List.replace_cons]
      cases i with
      | zero =>
          split
          · exact List.subset_append_right (number fd') (logNumbers l)
          · intro n hn
            exact List.mem_append.mpr ((List.mem_append.mp hn).imp_right fun h => ih 0 h)
      | succ i =>
          split
          · exact fun _ hn => hn
          · exact ih i

theorem logNumbers_insertFd (fd : ℤ) (l : List ℤ) :
    (number fd ++ logNumbers l).Perm (logNumbers (insertFd fd l)) := by
  induction l with
  | nil => exact .refl _
  | cons fd' l ih =>
      rw [insertFd]
      split_ifs with hfree
      · have hnone : logNumbers (fd' :: l) = logNumbers l := by
          change number fd' ++ logNumbers l = logNumbers l
          rw [number, if_pos hfree]
          rfl
        rw [hnone]
        exact .refl _
      · have hswap := List.perm_append_comm_assoc (number fd) (number fd') (logNumbers l)
        exact hswap.trans (ih.append_left _)

theorem fdFree_acts (fd : ℤ) (l : List ℤ) :
    Acts t₀ reads writes (fdFree fd l)
      (fun l' t' => fd ∈ l ∧ l' = l.replace fd (-1) ∧ Moves t t' (number fd) []) t := by
  rw [fdFree]
  split_ifs with hmem
  · exact (xclose_acts fd).bind fun _ t' hclosed => ⟨hmem, rfl, hclosed⟩
  · trivial

/-- A connection stays, or it is closed and its entry freed. -/
abbrev Copied (fd : ℤ) (l : List ℤ) (t : Table) (l' : List ℤ) (t' : Table) : Prop :=
  (l' = l ∧ t' = t) ∨ (fd ∈ l ∧ l' = l.replace fd (-1) ∧ Moves t t' (number fd) [])

theorem copyLog_acts {fd : ℤ} {l : List ℤ} {total : ℕ} (hready : fdsIsset reads fd = true)
    (hheld : Held t₀ t (number fd)) :
    Acts t₀ reads writes (copyLog fd l total) (fun r t' => Copied fd l t r.1 t') t := by
  have hfree : Acts t₀ reads writes ((fdFree fd l).bind fun l => .ret (l, total))
      (fun r t' => Copied fd l t r.1 t') t := by
    refine (fdFree_acts fd l).bind fun l' t' hpost => ?_
    obtain ⟨hmem, rfl, hclosed⟩ := hpost
    exact .inr ⟨hmem, rfl, hclosed⟩
  intro r t' hsem
  obtain rfl : t' = t := hsem
  refine ⟨current_of_acted (d := .reads) rfl hready hheld, ?_⟩
  cases r with
  | none => exact hfree
  | some data =>
      change Ensures _ _ (ite _ _ _) _ _
      split_ifs with hnil
      · exact hfree
      · exact (xwriteAll_acts 2 (logText data.val) total).bind fun _ t'' ht'' =>
          Or.inl ⟨rfl, ht''⟩

/-- The entries that are still to come keep their files while others are dropped. -/
theorem logSelectFrom_acts {count i : ℕ} {l : List ℤ} {total : ℕ}
    (hheld : Held t₀ t (logNumbers (l.drop i))) (howns : Owns t (logNumbers l)) :
    Acts t₀ reads writes (logSelectFrom reads count i l total)
      (fun r t' => Moves t t' (logNumbers l) (logNumbers r.1)) t := by
  induction count generalizing i l total t with
  | zero => exact Moves.refl t _
  | succ count ih =>
      have hnext : logNumbers (l.drop (i + 1)) ⊆ logNumbers (l.drop i) := by
        rw [← List.drop_drop]
        exact ((List.drop_sublist 1 (l.drop i)).flatMap number).subset
      rw [logSelectFrom]
      split_ifs with hready
      · have hfd : number (l.getD i (-1)) ⊆ logNumbers (l.drop i) := by
          obtain ⟨n, hn, -⟩ := exists_of_fdsIsset hready
          have hi : i < l.length := by
            by_contra hlong
            rw [List.getD_eq_default l (-1) (by omega)] at hn
            omega
          rw [List.getD_eq_getElem l (-1) hi, List.drop_eq_getElem_cons hi]
          exact List.subset_append_left _ _
        refine (copyLog_acts hready (hheld.subset hfd)).bind fun r t₁ hcopied => ?_
        obtain ⟨l₁, total₁⟩ := r
        rcases hcopied with ⟨rfl, rfl⟩ | ⟨hmem, rfl, hclosed⟩
        · exact ih (hheld.subset hnext) howns
        · have hperm := logNumbers_replace hmem
          have howns' := howns.perm hperm
          have hmoves := (hclosed.frame (logNumbers (l.replace _ (-1)))).perm hperm.symm (.refl _)
          have hsub := logNumbers_drop_replace (l.getD i (-1)) l (i + 1)
          have hrest : Held t₀ t₁ (logNumbers ((l.replace (l.getD i (-1)) (-1)).drop (i + 1))) := by
            refine (hheld.subset fun n hn => hnext (hsub hn)).moves hclosed fun n hn => ?_
            have hdrop := List.drop_sublist (i + 1) (l.replace (l.getD i (-1)) (-1))
            exact howns'.notMem_left ((hdrop.flatMap number).subset hn)
          refine (ih hrest (hmoves.owns howns)).mono fun r t₂ hmoves' => ?_
          exact hmoves.trans hmoves'
      · exact ih (hheld.subset hnext) howns

theorem logHandleSelect_acts {l : List ℤ} {total : ℕ} (hheld : Held t₀ t (logNumbers l))
    (howns : Owns t (logNumbers l)) :
    Acts t₀ reads writes (logHandleSelect reads l total)
      (fun r t' => Moves t t' (logNumbers l) (logNumbers r.1)) t :=
  logSelectFrom_acts hheld howns

theorem logHandleNew_acts {logFd : ℤ} {l : List ℤ} (hheld : Held t₀ t (number logFd)) :
    Acts t₀ reads writes (logHandleNew logFd reads l)
      (fun l' t' => Moves t t' (logNumbers l) (logNumbers l')) t := by
  unfold logHandleNew
  by_cases hready : fdsIsset reads logFd = true
  · rw [if_neg (not_not.mpr hready)]
    intro fd t₁ hsem
    refine ⟨current_of_acted (d := .reads) rfl hready hheld, ?_⟩
    have haccepted := accept_moves hsem
    rcases fd with _ | fd
    · exact haccepted.frame (logNumbers l)
    · refine (unblockFd_acts fd).bind fun _ t₂ ht₂ => ?_
      subst ht₂
      have hnew := logNumbers_insertFd fd l
      rw [number_natCast] at hnew
      exact (haccepted.frame (logNumbers l)).perm (.refl _) hnew
  · rw [if_pos hready]
    exact Moves.refl t _

/-! The control socket. -/

theorem x11CheckListen_acts (fd : ℕ) :
    Acts t₀ reads writes (x11CheckListen fd) (fun r t' => Moves t t' [fd] (number r)) t := by
  intro name t₁ hsem
  obtain rfl : t₁ = t := hsem
  refine ⟨current_of_not_acted rfl, ?_⟩
  cases name with
  | none =>
      refine (xclose_acts fd).bind fun _ t₂ hclosed => ?_
      rw [number_natCast] at hclosed
      exact hclosed
  | some expected =>
      cases expected with
      | true =>
          change Moves t₁ t₁ [fd] (number fd)
          rw [number_natCast]
          exact Moves.refl t₁ _
      | false => exact moves_sublist t₁ (List.nil_sublist _)

theorem handleX11Ctl_acts {c : Setup} {ctlFd : ℤ} (hready : fdsIsset reads ctlFd = true)
    (hheld : Held t₀ t (number ctlFd)) :
    Acts t₀ reads writes (handleX11Ctl c ctlFd) (fun r t' => Moves t t' [] (number r.1)) t := by
  unfold handleX11Ctl
  split
  · exact Moves.refl t []
  · intro received t₁ hsem
    refine ⟨current_of_acted (d := .reads) rfl hready hheld, ?_⟩
    have hreceived := fdRecv_moves hsem
    refine Ensures.bind (Q := fun fd t' => Moves t t' [] (number fd)) ?_ fun fd t₂ hfd => ?_
    · revert hreceived
      cases received.fd with
      | none => exact fun hreceived => hreceived
      | some fd =>
          intro hreceived
          exact (x11CheckListen_acts fd).mono fun r t₂ hmoves => hreceived.trans hmoves
    · change Ensures _ _ (ite _ _ _) _ _
      split_ifs with hsame
      · exact (xclose_acts fd).bind fun _ t₃ hclosed => hfd.trans hclosed
      · exact hfd

theorem x11Closedir_acts (method : Option ConnectMethod) :
    Acts t₀ reads writes (x11Closedir method)
      (fun method' t' => Moves t t' (dirNumbers method) (dirNumbers method')) t := by
  unfold x11Closedir
  split
  · exact (xclose_acts _).bind fun _ t' hclosed => hclosed
  · exact Moves.refl t _

theorem handleCtl_acts {c : Setup} {s : State} (hheld : Held t₀ t (number s.ctlFd)) :
    Acts t₀ reads writes (handleCtl c reads s)
      (fun s' t' => Moves t t' (ctlNumbers s) (ctlNumbers s') ∧ s'.x11List = s.x11List ∧
        s'.fdList = s.fdList ∧ s'.io = s.io) t := by
  unfold handleCtl
  by_cases hready : fdsIsset reads s.ctlFd = true
  · rw [if_neg (not_not.mpr hready)]
    refine (handleX11Ctl_acts hready hheld).bind fun found t₁ hfound => ?_
    obtain ⟨x11Fd, auth⟩ := found
    refine Ensures.bind (Q := fun method t' =>
      Moves t₁ t' (dirNumbers s.method) (dirNumbers method)) ?_ fun method t₂ hmethod => ?_
    · split_ifs
      · exact x11Closedir_acts s.method
      · exact Moves.refl t₁ _
    · refine (xclose_acts s.ctlFd).bind fun _ t₃ hclosed => ?_
      refine ⟨?_, rfl, rfl, rfl⟩
      -- the old listener is forgotten, the new one comes, and then the others go
      have hforgotten : Moves t t (ctlNumbers s) (number s.ctlFd ++ dirNumbers s.method) :=
        moves_sublist t (List.sublist_append_right _ _)
      have hnew := hfound.frame (number s.ctlFd ++ dirNumbers s.method)
      have hdir := (hmethod.frame_left (number s.ctlFd)).frame_left (number x11Fd)
      have hctl := (hclosed.frame (dirNumbers method)).frame_left (number x11Fd)
      exact ((hforgotten.trans hnew).trans hdir).trans hctl
  · rw [if_pos hready]
    exact ⟨Moves.refl t _, rfl, rfl, rfl⟩

/-! One call of `handle_io`. -/

theorem Apart.moves {c : Setup} {s s' : State} {t' : Table} (h : Apart c s t)
    (hmoves : Moves t t' (owned c s) (owned c s')) (hkept : kept s' ⊆ kept s) : Apart c s' t' where
  owns := hmoves.owns h.owns
  others := fun n hn => by
    obtain ⟨hother, hopen⟩ := h.others n (hkept hn)
    refine ⟨hmoves.spares hother hopen, ?_⟩
    rw [hmoves.others n hother hopen]
    exact hopen

/-- A descriptor that is open and belongs to no handler. -/
structure Spared (c : Setup) (s : State) (t : Table) (n : ℕ) : Prop where
  other : n ∉ owned c s
  isOpen : (t.files n).isSome

theorem Spared.moves {c : Setup} {s s' : State} {t t' : Table} {n : ℕ} (h : Spared c s t n)
    (hmoves : Moves t t' (owned c s) (owned c s')) : Spared c s' t' n where
  other := hmoves.spares h.other h.isOpen
  isOpen := by
    rw [hmoves.others n h.other h.isOpen]
    exact h.isOpen

theorem SameDescriptors.trans {s s' s'' : State} (h : SameDescriptors s s')
    (h' : SameDescriptors s' s'') : SameDescriptors s s'' where
  method := h'.method.trans h.method
  x11Fd := h'.x11Fd.trans h.x11Fd
  ctlFd := h'.ctlFd.trans h.ctlFd
  x11List := h'.x11List.trans h.x11List
  fdList := h'.fdList.trans h.fdList
  kept := fun _ hn => h.kept (h'.kept hn)

theorem SameDescriptors.owned {s s' : State} (h : SameDescriptors s s') (c : Setup) :
    owned c s' = owned c s := by
  rw [Descriptors.owned, Descriptors.owned, ctlNumbers, ctlNumbers, h.x11List, h.fdList, h.x11Fd,
    h.ctlFd, h.method]

theorem SameDescriptors.apart {c : Setup} {s s' : State} (h : SameDescriptors s s')
    (hs : Apart c s t) : Apart c s' t := by
  refine hs.moves ?_ h.kept
  rw [h.owned]
  exact Moves.refl t _

theorem Apart.held {c : Setup} {s : State} (h : Apart c s t) : Held t t (kept s) := fun n hn => by
  obtain ⟨f, hf⟩ := Option.isSome_iff_exists.mp (h.others n hn).2
  exact ⟨f, hf, hf⟩

/-- A descriptor of the child that may have been forgotten. -/
theorem number_of_copied {fd fd' : ℤ} (h : fd' = fd ∨ fd' = -1) : number fd' ⊆ number fd := by
  rcases h with rfl | rfl
  · exact fun _ hn => hn
  · exact List.nil_subset _

theorem sameDescriptors_of_copied {s : State} {err out : ℤ} (total : ℕ)
    (herr : err = s.io.slaveReadErrFd ∨ err = -1) (hout : out = s.io.slaveReadOutFd ∨ out = -1) :
    SameDescriptors s { s with
      totalBytesWritten := total
      io := { s.io with slaveReadErrFd := err, slaveReadOutFd := out } } := by
  refine ⟨rfl, rfl, rfl, rfl, rfl, fun n hn => ?_⟩
  simp only [kept, List.mem_append] at hn ⊢
  exact hn.imp (fun h => number_of_copied herr h) fun h =>
    h.imp_left fun h => number_of_copied hout h

/-- Every handler acts on descriptors that the handlers before it have left alone. -/
theorem handleOthers_acts {c : Setup} {s : State} (hheld : Held t₀ t (owned c s))
    (howns : Owns t (owned c s)) :
    Acts t₀ reads writes (handleOthers c reads writes s) (fun s' t' =>
      Moves t t' (owned c s) (owned c s') ∧ s'.io = s.io) t := by
  have howns' : Owns t (x11Numbers s.x11List ++ (logNumbers s.fdList ++
    (number c.logFd ++ ctlNumbers s))) := howns
  have hheld' : Held t₀ t (x11Numbers s.x11List ++ (logNumbers s.fdList ++
    (number c.logFd ++ ctlNumbers s))) := hheld
  unfold handleOthers
  refine (x11HandleSelect_acts (hheld'.subset (List.subset_append_left _ _))
    howns'.left).bind fun l₁ t₁ hx11 => ?_
  have hrest₁ := (hheld'.subset (List.subset_append_right _ _)).moves hx11
    fun _ hn => howns'.notMem_left hn
  have howns₁ := (hx11.frame _).owns howns'
  have hlistener : number s.x11Fd ⊆
      logNumbers s.fdList ++ (number c.logFd ++ ctlNumbers s) := fun n hn =>
    List.mem_append_right _ (List.mem_append_right _ (List.mem_append_left _ hn))
  refine (x11HandleNew_acts (hrest₁.subset hlistener)).bind fun l₂ t₂ hnew => ?_
  have hrest₂ := hrest₁.moves hnew fun _ hn => howns₁.notMem_left hn
  have howns₂ := (hnew.frame _).owns howns₁
  refine (logHandleSelect_acts (hrest₂.subset (List.subset_append_left _ _))
    howns₂.right.left).bind fun logs t₃ hlogs => ?_
  have hrest₃ := (hrest₂.subset (List.subset_append_right _ _)).moves hlogs
    fun _ hn => howns₂.right.notMem_left hn
  have howns₃ := (hlogs.frame _).owns howns₂.right
  refine (logHandleNew_acts (hrest₃.subset (List.subset_append_left _ _))).bind
    fun fdList t₄ hlog => ?_
  have hrest₄ := hrest₃.moves hlog fun _ hn => howns₃.notMem_left hn
  have hctl : number s.ctlFd ⊆ number c.logFd ++ ctlNumbers s := fun n hn =>
    List.mem_append_right _ (List.mem_append_right _ (List.mem_append_left _ hn))
  let s₃ : State := { s with x11List := l₂, fdList := fdList, totalBytesWritten := logs.2 }
  refine (handleCtl_acts (s := s₃) (hrest₄.subset hctl)).mono fun s₄ t₅ hpost => ?_
  obtain ⟨hmoved, hx11List, hfdList, hio⟩ := hpost
  refine ⟨?_, hio⟩
  rw [owned, owned, hx11List, hfdList]
  have hx11s := (hx11.trans hnew).frame (logNumbers s.fdList ++ (number c.logFd ++ ctlNumbers s))
  have hlists := ((hlogs.trans hlog).frame (number c.logFd ++ ctlNumbers s)).frame_left
    (x11Numbers l₂)
  have hctls := ((hmoved.frame_left (number c.logFd)).frame_left (logNumbers fdList)).frame_left
    (x11Numbers l₂)
  exact (hx11s.trans hlists).trans hctls

/-- The call acts on one of these. -/
def ActsOn (a : List ℕ) (o : IoOp) (_ : Table) (_ : IoRes o) (_ : Table) : Prop :=
  ∀ d fd, acted o = some (d, fd) → ∃ n ∈ a, fd = n

/-- A part that acts only on what it holds does the same when all other descriptors are hidden
from it. -/
theorem actsOn_of_acts {α : Type} {p : IoProg α} {post : α → Table → Prop} {a : List ℕ}
    (howns : Owns t a) (hacts : Held (t.only a) t a → Acts (t.only a) reads writes p post t) :
    Ensures Answers (ActsOn a) p post t := by
  refine (hacts howns.held_only).mono_check fun o v r v' hcurrent d fd ho => ?_
  obtain ⟨n, rfl, -, f, hf, -⟩ := hcurrent d fd ho
  exact ⟨n, mem_of_only hf, rfl⟩

theorem handleOthers_actsOn {c : Setup} {s : State} (howns : Owns t (owned c s)) :
    Ensures Answers (ActsOn (owned c s)) (handleOthers c reads writes s) (fun s' t' =>
      Moves t t' (owned c s) (owned c s') ∧ s'.io = s.io) t :=
  actsOn_of_acts howns fun hheld => handleOthers_acts hheld howns

theorem handleReady_acts {c : Setup} {s : State} (h : Apart c s t) :
    Acts t reads writes (handleReady c reads writes s) (fun r t' => ∀ s', r = some s' →
      Moves t t' (owned c s) (owned c s') ∧ kept s' ⊆ kept s) t := by
  rw [handleReady_eq]
  refine (copyChild_acts (h.held.subset (List.subset_append_left _ _))).bind fun err t₁ hpost => ?_
  obtain ⟨rfl, herr⟩ := hpost
  have hout : number s.io.slaveReadOutFd ⊆ kept s := fun n hn =>
    List.mem_append_right _ (List.mem_append_left _ hn)
  refine (copyChild_acts (h.held.subset hout)).bind fun out t₂ hpost => ?_
  obtain ⟨rfl, hout⟩ := hpost
  have hcopied := sameDescriptors_of_copied (s := s) out.2 herr hout
  have hinput : number s.io.slaveWriteFd ⊆ kept s := fun n hn =>
    List.mem_append_right _ (List.mem_append_right _ (List.mem_append_left _ hn))
  let s₀ : State :=
    { s with
      totalBytesWritten := out.2
      io := { s.io with slaveReadErrFd := err.1, slaveReadOutFd := out.1 } }
  refine (writeChild_acts (s := s₀) (h.held.subset hinput)).bind fun r t₃ hpost => ?_
  obtain ⟨rfl, hwritten⟩ := hpost
  cases r with
  | none => exact fun _ hs' => by cases hs'
  | some s₁ =>
      have hsame₁ := hcopied.trans (hwritten s₁ rfl)
      have htty : number s₁.io.masterReadFd ⊆ kept s₁ := fun n hn =>
        List.mem_append_right _ (List.mem_append_right _ (List.mem_append_right _ hn))
      refine (readTty_acts ((hsame₁.apart h).held.subset htty)).bind fun s₂ t₄ hpost => ?_
      obtain ⟨rfl, hsame₂⟩ := hpost
      have hsame := hsame₁.trans hsame₂
      have howns := (hsame.apart h).owns
      refine (handleOthers_acts howns.held howns).bind fun s₃ t₅ hpost => ?_
      obtain ⟨hmoves, hio⟩ := hpost
      rintro s' ⟨⟩
      rw [hsame.owned] at hmoves
      refine ⟨hmoves, ?_⟩
      unfold kept
      rw [hio]
      exact hsame.kept

end Handlers

/-! Runs. -/

section Runs

variable {c : Setup} {s : State} {t t' : Table} {tr : List (Step Table IoRes)}

theorem exec_later {α : Type} {p : IoProg α} {out : Outcome α}
    (h : Exec (· = ·) Answers p t tr out t') {u : Step Table IoRes} (hu : u ∈ tr) :
    Later t u.before ∧ Later u.before u.after := by
  induction h with
  | ret a w => cases hu
  | die why w => cases hu
  | cut p w => cases hu
  | call hadv hsem hrest ih =>
      subst hadv
      have hcall := later_of_answers hsem
      rcases List.mem_cons.mp hu with rfl | hu
      · exact ⟨Later.refl _, hcall⟩
      · obtain ⟨hlater, hstep⟩ := ih hu
        exact ⟨hcall.trans hlater, hstep⟩

/-- The calls of a run follow each other. -/
theorem exec_ordered {α : Type} {p : IoProg α} {out : Outcome α}
    {mid post : List (Step Table IoRes)} {act : Step Table IoRes}
    (h : Exec (· = ·) Answers p t (mid ++ act :: post) out t') {u : Step Table IoRes}
    (hu : u ∈ mid) : Later u.after act.before := by
  induction mid generalizing p t with
  | nil => cases hu
  | cons v mid ih =>
      cases h with
      | call hadv hsem hrest =>
          rcases List.mem_cons.mp hu with rfl | hu
          · exact (exec_later hrest (by simp)).1
          · exact ih hrest hu

/-- Before `pselect`, and where nothing is ready, nothing is acted on. -/
theorem handleIo_cases {out : Outcome (Option State)}
    (h : Exec (· = ·) Answers (handleIo c s) t tr out t') :
    ((∀ u ∈ tr, acted u.event.1 = none) ∧
        ∀ s', out = .returned (some s') → s' = s ∧ t' = t) ∨
      ∃ (before : List (Step Table IoRes)) (reads writes : FdSet) (timeout : ℕ)
        (r : { r : FdSet // r ⊆ reads }) (w : { w : FdSet // w ⊆ writes })
        (rest : List (Step Table IoRes)),
        tr = before ++ ⟨t, ⟨.pselect reads writes timeout, .ready r w⟩, t⟩ :: rest ∧
        (∀ u ∈ before, acted u.event.1 = none) ∧
        Exec (· = ·) Answers (handleReady c r.val w.val s) t rest out t' := by
  have hplain : (selectFds c s).Uses Plain :=
    selectFds_uses trivial (fun _ => trivial) trivial c s
  have hselect : ∀ {tr out t'}, Exec (· = ·) Answers (selectFds c s) t tr out t' →
      ∀ u ∈ tr, acted u.event.1 = none := fun hrun u hu =>
    acted_of_plain (hrun.runs.uses hplain u.event (List.mem_map_of_mem hu))
  rcases exec_bind_cases h with ⟨out', hrun, hout⟩ | ⟨sets, t₁, t₂, v, rfl, hrun, hrest⟩
  · exact .inl ⟨hselect hrun, fun s' hs' => absurd hs' (hout _)⟩
  · have hsame : Acts t [] [] (selectFds c s) (fun _ t' => t' = t) t := plain_acts hplain
    obtain rfl := (hsame.exec hrun).2 sets rfl
    have hbefore := hselect hrun
    cases sets with
    | none =>
        cases hrest with
        | ret => exact .inl ⟨by simpa using hbefore, fun s' hs' => by cases hs'⟩
        | cut => exact .inl ⟨by simpa using hbefore, fun s' hs' => by cases hs'⟩
    | some sets =>
        cases hrest with
        | cut => exact .inl ⟨by simpa using hbefore, fun s' hs' => by cases hs'⟩
        | @call _ _ _ _ t₂ _ answer rest _ hadv hsem hk =>
            subst hadv
            obtain rfl : t₂ = v := hsem
            have hnone : ∀ u ∈ t₁ ++ [(⟨t₂, ⟨.pselect sets.reads sets.writes c.wlimit.timeIdle,
                answer⟩, t₂⟩ : Step Table IoRes)], acted u.event.1 = none := by
              intro u hu
              rcases List.mem_append.mp hu with hu | hu
              · exact hbefore u hu
              · rw [List.mem_singleton.mp hu]
                rfl
            cases answer with
            | ready r w => exact .inr ⟨t₁, _, _, _, r, w, rest, rfl, hbefore, hk⟩
            | timeout =>
                cases hk with
                | die => exact .inl ⟨hnone, fun s' hs' => by cases hs'⟩
                | cut => exact .inl ⟨hnone, fun s' hs' => by cases hs'⟩
            | interrupted =>
                cases hk with
                | ret => exact .inl ⟨hnone, fun s' hs' => by cases hs'; exact ⟨rfl, rfl⟩⟩
                | cut => exact .inl ⟨hnone, fun s' hs' => by cases hs'⟩
            | failed =>
                cases hk with
                | ret => exact .inl ⟨hnone, fun s' hs' => by cases hs'⟩
                | cut => exact .inl ⟨hnone, fun s' hs' => by cases hs'⟩

/-- A turn is a call of `handle_io`, with nothing that is acted on before it. -/
theorem turn_cases {out : Outcome (State ⊕ Unit)}
    (h : Exec (· = ·) Answers (turn c s) t tr out t') :
    ((∀ u ∈ tr, acted u.event.1 = none) ∧ ∀ s', out ≠ .returned (.inl s')) ∨
      ∃ before rest out', tr = before ++ rest ∧ (∀ u ∈ before, acted u.event.1 = none) ∧
        Exec (· = ·) Answers (handleIo c s) t rest out' t' ∧
        ∀ s', out = .returned (.inl s') → out' = .returned (some s') := by
  have hplain : (workLimitsOk c.wlimit s.totalBytesRead s.totalBytesWritten).Uses Plain :=
    workLimitsOk_uses trivial _ _ _
  have hlimits : ∀ {tr out t'}, Exec (· = ·) Answers
      (workLimitsOk c.wlimit s.totalBytesRead s.totalBytesWritten) t tr out t' →
      ∀ u ∈ tr, acted u.event.1 = none := fun hrun u hu =>
    acted_of_plain (hrun.runs.uses hplain u.event (List.mem_map_of_mem hu))
  rcases exec_bind_cases h with ⟨out', hrun, hout⟩ | ⟨_, t₁, t₂, v, rfl, hrun, hrest⟩
  · exact .inl ⟨hlimits hrun, fun s' => hout _⟩
  · have hsame : Acts t [] [] (workLimitsOk c.wlimit s.totalBytesRead s.totalBytesWritten)
        (fun _ t' => t' = t) t := plain_acts hplain
    obtain rfl := (hsame.exec hrun).2 () rfl
    rcases exec_bind_cases hrest with ⟨out', hio, hout⟩ | ⟨r, t₃, t₄, v', rfl, hio, hend⟩
    · exact .inr ⟨t₁, t₂, out', rfl, hlimits hrun, hio, fun s' hs' => absurd hs' (hout _)⟩
    · refine .inr ⟨t₁, t₃ ++ t₄, .returned r, rfl, hlimits hrun, ?_⟩
      cases r with
      | none =>
          cases hend with
          | ret =>
              rw [List.append_nil]
              exact ⟨hio, fun s' hs' => by cases hs'⟩
          | cut =>
              rw [List.append_nil]
              exact ⟨hio, fun s' hs' => by cases hs'⟩
      | some s₁ =>
          cases hend with
          | ret =>
              rw [List.append_nil]
              exact ⟨hio, fun s' hs' => by cases hs'; rfl⟩
          | cut =>
              rw [List.append_nil]
              exact ⟨hio, fun s' hs' => by cases hs'⟩

/-- What a turn owns in the end it has owned before, or taken from what was free. -/
theorem turn_moves {s' : State} (hs : Apart c s t)
    (h : Exec (· = ·) Answers (turn c s) t tr (.returned (.inl s')) t') :
    Moves t t' (owned c s) (owned c s') ∧ kept s' ⊆ kept s := by
  rcases turn_cases h with ⟨-, hout⟩ | ⟨before, rest, out', -, -, hio, hout⟩
  · exact absurd rfl (hout s')
  · obtain rfl := hout s' rfl
    rcases handleIo_cases hio with ⟨-, hsame⟩ | ⟨_, reads, writes, _, r, w, _, -, -, hready⟩
    · obtain ⟨rfl, rfl⟩ := hsame s' rfl
      exact ⟨Moves.refl _ _, fun _ hn => hn⟩
    · exact ((handleReady_acts hs).exec hready).2 (some s') rfl s' rfl

theorem turn_apart {s' : State} (hs : Apart c s t)
    (h : Exec (· = ·) Answers (turn c s) t tr (.returned (.inl s')) t') : Apart c s' t' := by
  obtain ⟨hmoves, hkept⟩ := turn_moves hs h
  exact hs.moves hmoves hkept

/-- A call that acts on a descriptor comes after all of a part that acts on nothing. -/
theorem exists_split_of_acted {before rest pre post : List (Step Table IoRes)}
    {act : Step Table IoRes} {d : Direction} {fd : ℤ}
    (h : pre ++ act :: post = before ++ rest) (hnone : ∀ u ∈ before, acted u.event.1 = none)
    (hact : acted act.event.1 = some (d, fd)) :
    ∃ mid, pre = before ++ mid ∧ rest = mid ++ act :: post := by
  have hnotMem : act ∉ before := by
    intro hmem
    rw [hnone act hmem] at hact
    cases hact
  rcases List.append_eq_append_iff.mp h with ⟨more, hbefore, hrest⟩ | ⟨more, hpre, hrest⟩
  · cases more with
    | nil => exact ⟨[], by simpa using hbefore.symm, hrest.symm⟩
    | cons u more =>
        obtain ⟨rfl, -⟩ := List.cons.inj hrest
        exact absurd (by rw [hbefore]; simp) hnotMem
  · exact ⟨more, hpre, hrest⟩

/-- A call that acts on a descriptor comes after `pselect`, and acts on the file that was found
ready. -/
theorem handleIo_current {out : Outcome (Option State)} {pre post : List (Step Table IoRes)}
    {act : Step Table IoRes} {d : Direction} {fd : ℤ} (hs : Apart c s t)
    (h : Exec (· = ·) Answers (handleIo c s) t (pre ++ act :: post) out t')
    (hact : acted act.event.1 = some (d, fd)) :
    ∃ (n : ℕ) (before mid : List (Step Table IoRes)) (reads writes : FdSet) (timeout : ℕ)
      (r : { r : FdSet // r ⊆ reads }) (w : { w : FdSet // w ⊆ writes }),
      fd = n ∧ pre = before ++ ⟨t, ⟨.pselect reads writes timeout, .ready r w⟩, t⟩ :: mid ∧
      n ∈ chosen reads writes d ∧ n ∈ chosen r.val w.val d ∧
      ∃ f, t.files n = some f ∧ act.before.files n = some f ∧
        ∀ u ∈ mid, u.before.files n = some f ∧ u.after.files n = some f := by
  rcases handleIo_cases h with ⟨hnone, -⟩ | ⟨before, reads, writes, timeout, r, w, rest, htr,
    hbefore, hready⟩
  · rw [hnone act (by simp)] at hact
    cases hact
  · have hselect : pre ++ act :: post =
        (before ++ [⟨t, ⟨.pselect reads writes timeout, .ready r w⟩, t⟩]) ++ rest := by
      rw [htr, List.append_assoc, List.singleton_append]
    have hnone : ∀ u ∈ before ++ [⟨t, ⟨.pselect reads writes timeout, .ready r w⟩, t⟩],
        acted u.event.1 = none := by
      intro u hu
      rcases List.mem_append.mp hu with hu | hu
      · exact hbefore u hu
      · rw [List.mem_singleton.mp hu]
        rfl
    obtain ⟨mid, hpre, rfl⟩ := exists_split_of_acted hselect hnone hact
    rw [List.append_assoc, List.singleton_append] at hpre
    subst hpre
    have hsteps := ((handleReady_acts hs).exec hready).1
    obtain ⟨n, rfl, hn, f, hf, hact'⟩ := hsteps act (by simp) d fd hact
    refine ⟨n, before, mid, reads, writes, timeout, r, w, rfl, rfl, ?_, hn, f, hf, hact', ?_⟩
    · cases d with
      | reads => exact r.property hn
      | writes => exact w.property hn
    · intro u hu
      obtain ⟨hlater, hstep⟩ := exec_later hready (List.mem_append_left _ hu)
      have hafter := exec_ordered hready hu
      exact ⟨hlater.between (hstep.trans hafter) hf hact',
        (hlater.trans hstep).between hafter hf hact'⟩

end Runs

/-- In every run of the loop, from a start with open descriptors that are all different: each
`read`, `accept` and receive, and each write to the child or to an X11 connection, comes after a
`pselect` of the same turn that was asked about the descriptor and found it ready, and at every
moment since then the descriptor was open with the same file. -/
theorem acts_on_what_was_ready {c : Setup} {method : Option ConnectMethod}
    {pipeOut pipeErr ctlFd : ℤ} {s : State} {t₀ t t' : Table}
    {turns : List (State × List (Step Table IoRes))} {out : Outcome (State ⊕ Unit)}
    {pre post : List (Step Table IoRes)} {act : Step Table IoRes} {d : Direction} {fd : ℤ}
    (hstart : Apart c (start c method pipeOut pipeErr ctlFd) t₀)
    (hrun : Turns Answers (turn c) (start c method pipeOut pipeErr ctlFd) t₀ turns s t)
    (h : Exec (· = ·) Answers (turn c s) t (pre ++ act :: post) out t')
    (hact : acted act.event.1 = some (d, fd)) :
    ∃ (n : ℕ) (before mid : List (Step Table IoRes)) (reads writes : FdSet) (timeout : ℕ)
      (r : { r : FdSet // r ⊆ reads }) (w : { w : FdSet // w ⊆ writes }),
      fd = n ∧ pre = before ++ ⟨t, ⟨.pselect reads writes timeout, .ready r w⟩, t⟩ :: mid ∧
      n ∈ chosen reads writes d ∧ n ∈ chosen r.val w.val d ∧
      ∃ f, t.files n = some f ∧ act.before.files n = some f ∧
        ∀ u ∈ mid, u.before.files n = some f ∧ u.after.files n = some f := by
  have hs : Apart c s t := hrun.invariant (P := fun _ => True) (fun _ _ => trivial) hstart
    fun _ hs hturn => turn_apart hs hturn
  rcases turn_cases h with ⟨hnone, -⟩ | ⟨before, rest, out', htr, hbefore, hio, -⟩
  · rw [hnone act (by simp)] at hact
    cases hact
  · obtain ⟨mid, rfl, rfl⟩ := exists_split_of_acted htr hbefore hact
    obtain ⟨n, before', mid', reads, writes, timeout, r, w, hfd, rfl, hrest⟩ :=
      handleIo_current hs hio hact
    exact ⟨n, before ++ before', mid', reads, writes, timeout, r, w, hfd,
      (List.append_assoc _ _ _).symm, hrest⟩

/-! A log connection whose number is used again in the turn in which it is dropped. -/

private def reuseSetup : Setup :=
  { wlimit := {}, usePty := false, ptyFd := -1, logFd := 7, x11Key := [], x11DataLen := 0
    scanHex := fun _ => none }

private def reuseStart : State := start reuseSetup none 8 9 (-1)

private def reuseTable : Table where
  files := fun n => if n < 10 then some n else none
  next := 10
  fresh := by
    intro n f h
    split_ifs at h with hn
    obtain rfl := Option.some.inj h
    exact hn

private def connected : Table := reuseTable.opened 10

private def dropped : Table := connected.close 10

private def connectedTurn : List (Step Table IoRes) :=
  [⟨reuseTable, ⟨.sigalrmArrived, false⟩, reuseTable⟩,
    ⟨reuseTable, ⟨.sigwinchArrived, false⟩, reuseTable⟩,
    ⟨reuseTable, ⟨.childPid, true⟩, reuseTable⟩,
    ⟨reuseTable, ⟨.pselect [7, 9, 8] [] 0, .ready ⟨[7], by simp⟩ noneReady⟩, reuseTable⟩,
    ⟨reuseTable, ⟨.accept 7, some 10⟩, connected⟩,
    ⟨connected, ⟨.unblockFd 10, true⟩, connected⟩]

private def droppedTurn : List (Step Table IoRes) :=
  [⟨connected, ⟨.sigalrmArrived, false⟩, connected⟩,
    ⟨connected, ⟨.sigwinchArrived, false⟩, connected⟩,
    ⟨connected, ⟨.childPid, true⟩, connected⟩,
    ⟨connected, ⟨.pselect [7, 10, 9, 8] [] 0, .ready ⟨[10, 7], by simp⟩ noneReady⟩, connected⟩,
    ⟨connected, ⟨.read 10 8190, some ⟨[], by decide⟩⟩, connected⟩,
    ⟨connected, ⟨.close 10, ()⟩, dropped⟩]

private def acceptedAgain : Step Table IoRes := ⟨dropped, ⟨.accept 7, some 10⟩, dropped.opened 10⟩

private def unblockedAgain : List (Step Table IoRes) :=
  [⟨dropped.opened 10, ⟨.unblockFd 10, true⟩, dropped.opened 10⟩]

private theorem connectedTurn_runs : Turns Answers (turn reuseSetup) reuseStart reuseTable
    [(reuseStart, connectedTurn)] { reuseStart with fdList := [10] } connected := by
  have hruns : Runs (turn reuseSetup reuseStart) (connectedTurn.map Step.event)
      (.returned (.inl { reuseStart with fdList := [10] })) := Prog.runs_of_replay rfl
  refine .next (hruns.exec ?_) (.none _ _)
  exact ⟨rfl, rfl, rfl, rfl, rfl, rfl, rfl, rfl, rfl, ⟨rfl, rfl⟩, rfl, rfl, rfl⟩

private theorem droppedTurn_runs : Exec (· = ·) Answers
    (turn reuseSetup { reuseStart with fdList := [10] }) connected
    (droppedTurn ++ acceptedAgain :: unblockedAgain)
    (.returned (.inl { reuseStart with fdList := [10] })) (dropped.opened 10) := by
  have hruns : Runs (turn reuseSetup { reuseStart with fdList := [10] })
      ((droppedTurn ++ acceptedAgain :: unblockedAgain).map Step.event)
      (.returned (.inl { reuseStart with fdList := [10] })) := Prog.runs_of_replay rfl
  refine hruns.exec ?_
  exact ⟨rfl, rfl, rfl, rfl, rfl, rfl, rfl, rfl, rfl, rfl, rfl, rfl, rfl, ⟨rfl, rfl⟩, rfl, rfl, rfl⟩

/-- The listener is still the one that was found ready. -/
theorem acts_on_what_was_ready_sample :
    ∃ f, connected.files 7 = some f ∧ dropped.files 7 = some f := by
  have hstart : Apart reuseSetup reuseStart reuseTable :=
    ⟨⟨by decide, by decide⟩, by decide⟩
  obtain ⟨n, _, _, _, _, _, _, _, hfd, -, -, -, f, hselect, hact, -⟩ :=
    acts_on_what_was_ready hstart connectedTurn_runs droppedTurn_runs (d := .reads) rfl
  obtain rfl : 7 = n := by exact_mod_cast hfd
  exact ⟨f, hselect, hact⟩

end HasherPriv.IoLoop.Descriptors
