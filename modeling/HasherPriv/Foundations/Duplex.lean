/- GID: HasherPriv/Foundations/Duplex
   layer: library
   source: none
   digest: Two processes on a connection with descriptor passing, and all their interleavings. -/

import HasherPriv.Foundations.Descent
import HasherPriv.Foundations.Socket

set_option autoImplicit false
set_option relaxedAutoImplicit false

namespace HasherPriv.Foundations.Duplex

open ByteString (Bytes)
open Descent (Steps Commuting Final)
open Program
open Socket

variable {φ : Type}

/-! Descriptor tables. The lowest number that is free is given out first. -/

abbrev Table (φ : Type) := List (Option φ)

/-- The open file behind a number. -/
def Table.file (t : Table φ) (n : ℕ) : Option φ := (t[n]?).join

/-- Give a number to an open file. -/
def Table.install (f : φ) : Table φ → ℕ × Table φ
  | [] => (0, [some f])
  | none :: t => (0, some f :: t)
  | some g :: t => ((install f t).1 + 1, some g :: (install f t).2)

def Table.installAll : Table φ → List φ → List ℕ × Table φ
  | t, [] => ([], t)
  | t, f :: fs =>
      let r := installAll (t.install f).2 fs
      ((t.install f).1 :: r.1, r.2)

theorem Table.file_install (f : φ) (t : Table φ) :
    (t.install f).2.file (t.install f).1 = some f := by
  induction t with
  | nil => rfl
  | cons g t ih =>
      cases g with
      | none => rfl
      | some g => exact ih

/-- A number that is in use keeps its file. -/
theorem Table.file_install_of_open {f g : φ} {t : Table φ} {n : ℕ} (h : t.file n = some g) :
    (t.install f).2.file n = some g := by
  induction t generalizing n with
  | nil => simp [Table.file] at h
  | cons x t ih =>
      cases n with
      | zero =>
          cases x with
          | none => simp [Table.file] at h
          | some y => exact h
      | succ n =>
          cases x with
          | none => exact h
          | some y => exact ih h

theorem Table.file_installAll_of_open (fs : List φ) {t : Table φ} {n : ℕ} {g : φ}
    (h : t.file n = some g) : (t.installAll fs).2.file n = some g := by
  induction fs generalizing t with
  | nil => exact h
  | cons f fs ih => exact ih (file_install_of_open h)

/-- The numbers given out lead to the files they were given out for. -/
theorem Table.file_installAll (t : Table φ) (fs : List φ) :
    (t.installAll fs).1.map (t.installAll fs).2.file = fs.map some := by
  induction fs generalizing t with
  | nil => rfl
  | cons f fs ih =>
      have hfirst := file_installAll_of_open fs (file_install f t)
      simp only [Table.installAll, List.map_cons, hfirst, ih]

theorem Table.installAll_length (t : Table φ) (fs : List φ) :
    (t.installAll fs).1.length = fs.length := by
  induction fs generalizing t with
  | nil => rfl
  | cons f fs ih => simp [Table.installAll, ih]

/-! Packets. -/

/-- Bytes in flight with the open files attached to the first of them. -/
structure Packet (φ : Type) where
  bytes : Bytes
  files : List φ
  deriving DecidableEq

/-- The bytes of a queue. -/
def contents (q : List (Packet φ)) : Bytes := q.flatMap Packet.bytes

/-- Read exactly that many bytes, or wait. A read ends early behind bytes with files
attached: data is never glued together across them. -/
def takeBytes : ℕ → List (Packet φ) → Option (Bytes × List φ × List (Packet φ))
  | 0, q => some ([], [], q)
  | _ + 1, [] => none
  | n + 1, p :: q =>
      if n + 1 < p.bytes.length then
        some (p.bytes.take (n + 1), p.files, ⟨p.bytes.drop (n + 1), []⟩ :: q)
      else if p.files = [] then
        (takeBytes (n + 1 - p.bytes.length) q).map fun r => (p.bytes ++ r.1, r.2)
      else some (p.bytes, p.files, q)

/-- More packets behind the queue do not change a read that already succeeds. -/
theorem takeBytes_append {n : ℕ} {q q' : List (Packet φ)} {d : Bytes} {fs : List φ}
    (h : takeBytes n q = some (d, fs, q')) (more : List (Packet φ)) :
    takeBytes n (q ++ more) = some (d, fs, q' ++ more) := by
  induction q generalizing n d q' with
  | nil =>
      cases n with
      | zero =>
          obtain ⟨rfl, rfl, rfl⟩ : [] = d ∧ [] = fs ∧ [] = q' := by simpa [takeBytes] using h
          simp [takeBytes]
      | succ n => cases h
  | cons p q ih =>
      cases n with
      | zero =>
          obtain ⟨rfl, rfl, rfl⟩ : [] = d ∧ [] = fs ∧ p :: q = q' := by
            simpa [takeBytes] using h
          simp [takeBytes]
      | succ n =>
          simp only [takeBytes, List.cons_append] at h ⊢
          split_ifs at h ⊢ with hlt hplain
          · obtain ⟨rfl, rfl, rfl⟩ := Prod.mk.inj (Option.some.inj h) |>.imp_right Prod.mk.inj
            rfl
          · obtain ⟨⟨d', fs', q''⟩, hr, he⟩ := Option.map_eq_some_iff.mp h
            obtain ⟨rfl, rfl, rfl⟩ := Prod.mk.inj he |>.imp_right Prod.mk.inj
            rw [ih hr]
            rfl
          · obtain ⟨rfl, rfl, rfl⟩ := Prod.mk.inj (Option.some.inj h) |>.imp_right Prod.mk.inj
            rfl

theorem takeBytes_contents {n : ℕ} {q q' : List (Packet φ)} {d : Bytes} {fs : List φ}
    (h : takeBytes n q = some (d, fs, q')) : contents q = d ++ contents q' := by
  induction q generalizing n d q' with
  | nil =>
      cases n with
      | zero =>
          obtain ⟨rfl, rfl, rfl⟩ : [] = d ∧ [] = fs ∧ [] = q' := by simpa [takeBytes] using h
          rfl
      | succ n => cases h
  | cons p q ih =>
      cases n with
      | zero =>
          obtain ⟨rfl, rfl, rfl⟩ : [] = d ∧ [] = fs ∧ p :: q = q' := by
            simpa [takeBytes] using h
          rfl
      | succ n =>
          simp only [takeBytes] at h
          split_ifs at h with hlt hplain
          · obtain ⟨rfl, rfl, rfl⟩ := Prod.mk.inj (Option.some.inj h) |>.imp_right Prod.mk.inj
            simp [contents, ← List.append_assoc]
          · obtain ⟨⟨d', fs', q''⟩, hr, he⟩ := Option.map_eq_some_iff.mp h
            obtain ⟨rfl, rfl, rfl⟩ := Prod.mk.inj he |>.imp_right Prod.mk.inj
            have hrest := ih hr
            simp only [contents, List.flatMap_cons, List.append_assoc] at hrest ⊢
            rw [hrest]
          · obtain ⟨rfl, rfl, rfl⟩ := Prod.mk.inj (Option.some.inj h) |>.imp_right Prod.mk.inj
            simp [contents]

/-- Plain packets are read as the bytes they hold together. -/
theorem takeBytes_plain {bs : List Bytes} (h : ∀ b ∈ bs, b ≠ []) (q : List (Packet φ)) :
    takeBytes bs.flatten.length (bs.map (⟨·, []⟩) ++ q) = some (bs.flatten, [], q) := by
  induction bs with
  | nil => simp [takeBytes]
  | cons b bs ih =>
      obtain ⟨hb, hbs⟩ := List.forall_mem_cons.mp h
      obtain ⟨x, b, rfl⟩ := List.exists_cons_of_ne_nil hb
      have hlen : ((x :: b) :: bs).flatten.length = (b.length + bs.flatten.length) + 1 := by
        simp only [List.flatten_cons, List.length_append, List.length_cons]
        omega
      have hrest : b.length + bs.flatten.length + 1 - (x :: b).length = bs.flatten.length := by
        simp only [List.length_cons]
        omega
      rw [hlen, List.map_cons, List.cons_append, takeBytes, if_neg (by simp), if_pos rfl, hrest,
        ih hbs]
      rfl

/-! Calls on one end of the connection. -/

/-- What a call gives, leaves of the packets under way and adds to those of the other
direction. -/
structure Answer (φ : Type) (o : SockOp) where
  res : SockRes o
  inbox : List (Packet φ)
  table : Table φ
  sent : List (Packet φ)

/-- The descriptors that a control buffer of this size has room for. -/
def room (control : ℕ) : ℕ := (control - 16) / 4

/-- A message read from the queue, its files with new numbers; 1 and 1 are `SOL_SOCKET` and
`SCM_RIGHTS`. -/
def deliver (control : ℕ) (t : Table φ) (d : Bytes) (fs : List φ) : Message × Table φ :=
  let r := t.installAll (fs.take (room control))
  (⟨d, if r.1 = [] then [] else [⟨1, 1, r.1⟩]⟩, r.2)

/-- A call that does not fail, or `none` where it waits. A read that may end before `size`
bytes are there is answered for a single byte only. -/
def answer (q : List (Packet φ)) (t : Table φ) : (o : SockOp) → Option (Answer φ o)
  | .sendmsg data cmsgs =>
      ((cmsgs.flatMap Cmsg.fds).mapM t.file).map fun fs =>
        ⟨.ok data.length, q, t, if data = [] then [] else [⟨data, fs⟩]⟩
  | .recvmsg size control waitall =>
      if waitall ∨ size = 1 then
        (takeBytes size q).map fun r =>
          let m := deliver control t r.1 r.2.1
          ⟨some m.1, r.2.2, m.2, []⟩
      else none
  | .malloc _ => some ⟨true, q, t, []⟩
  | .calloc _ _ => some ⟨true, q, t, []⟩

private theorem answer_append {q : List (Packet φ)} {t : Table φ} {o : SockOp} {a : Answer φ o}
    (h : answer q t o = some a) (more : List (Packet φ)) :
    answer (q ++ more) t o = some { a with inbox := a.inbox ++ more } := by
  cases o with
  | sendmsg data cmsgs =>
      obtain ⟨fs, hfs, rfl⟩ := Option.map_eq_some_iff.mp h
      simp [answer, hfs]
  | recvmsg size control waitall =>
      simp only [answer] at h ⊢
      split_ifs at h ⊢
      obtain ⟨⟨d, fs, q'⟩, hr, rfl⟩ := Option.map_eq_some_iff.mp h
      rw [takeBytes_append hr more]
      rfl
  | malloc size =>
      obtain rfl := Option.some.inj h
      rfl
  | calloc nmemb size =>
      obtain rfl := Option.some.inj h
      rfl

/-! Two processes. -/

/-- What a process does next. -/
inductive Act (P : Type)
  | call (o : SockOp) (k : SockRes o → P)
  | turn (p : P)
  | halt

/-- A program by itself. -/
def progAct {α : Type} : SockProg α → Act (SockProg α)
  | .call o k => .call o k
  | .ret _ | .die _ => .halt

/-- A loop: a turn that answers `inl` is followed by the next one. -/
def loopAct {S R : Type} (body : S → SockProg (S ⊕ R)) : SockProg (S ⊕ R) → Act (SockProg (S ⊕ R))
  | .call o k => .call o k
  | .ret (.inl s) => .turn (body s)
  | .ret (.inr _) | .die _ => .halt

/-- A process with its descriptors and the calls it has made. -/
structure Side (P φ : Type) where
  process : P
  table : Table φ
  history : List (Event SockRes) := []

/-- The two processes with the packets under way in both directions. -/
structure System (P Q φ : Type) where
  left : Side P φ
  right : Side Q φ
  up : List (Packet φ) := []
  down : List (Packet φ) := []

variable {P Q : Type}

/-- One step of a process: what becomes of it, of the packets it reads and what it sends. -/
def advance (act : P → Act P) (q : List (Packet φ)) (s : Side P φ) :
    Option (Side P φ × List (Packet φ) × List (Packet φ)) :=
  match act s.process with
  | .call o k => (answer q s.table o).map fun a =>
      (⟨k a.res, a.table, s.history ++ [⟨o, a.res⟩]⟩, a.inbox, a.sent)
  | .turn p => some ({ s with process := p }, q, [])
  | .halt => none

private theorem advance_append {act : P → Act P} {q q' sent : List (Packet φ)} {s s' : Side P φ}
    (h : advance act q s = some (s', q', sent)) (more : List (Packet φ)) :
    advance act (q ++ more) s = some (s', q' ++ more, sent) := by
  unfold advance at h ⊢
  cases ha : act s.process with
  | call o k =>
      simp only [ha] at h
      obtain ⟨a, hanswer, he⟩ := Option.map_eq_some_iff.mp h
      obtain ⟨rfl, rfl, rfl⟩ := Prod.mk.inj he |>.imp_right Prod.mk.inj
      simp only [answer_append hanswer more, Option.map_some]
  | turn p =>
      simp only [ha] at h
      obtain ⟨rfl, rfl, rfl⟩ := Prod.mk.inj (Option.some.inj h) |>.imp_right Prod.mk.inj
      rfl
  | halt => simp [ha] at h

inductive Move (actP : P → Act P) (actQ : Q → Act Q) : System P Q φ → System P Q φ → Prop
  | left {s : System P Q φ} {side : Side P φ} {inbox sent : List (Packet φ)}
      (h : advance actP s.down s.left = some (side, inbox, sent)) :
      Move actP actQ s { s with left := side, up := s.up ++ sent, down := inbox }
  | right {s : System P Q φ} {side : Side Q φ} {inbox sent : List (Packet φ)}
      (h : advance actQ s.up s.right = some (side, inbox, sent)) :
      Move actP actQ s { s with right := side, up := inbox, down := s.down ++ sent }

/-- The two processes do not get into each other's way. -/
theorem move_commuting (actP : P → Act P) (actQ : Q → Act Q) :
    Commuting (Move (φ := φ) actP actQ) := by
  intro s t u ht hu
  cases ht with
  | @left side inbox sent h =>
      cases hu with
      | @left side' inbox' sent' h' =>
          rw [h] at h'
          obtain ⟨rfl, rfl, rfl⟩ := Prod.mk.inj (Option.some.inj h') |>.imp_right Prod.mk.inj
          exact .inl rfl
      | @right side' inbox' sent' h' =>
          exact .inr ⟨_, .right (advance_append h' sent), .left (advance_append h sent')⟩
  | @right side inbox sent h =>
      cases hu with
      | @left side' inbox' sent' h' =>
          exact .inr ⟨_, .left (advance_append h' sent), .right (advance_append h sent')⟩
      | @right side' inbox' sent' h' =>
          rw [h] at h'
          obtain ⟨rfl, rfl, rfl⟩ := Prod.mk.inj (Option.some.inj h') |>.imp_right Prod.mk.inj
          exact .inl rfl

theorem final_of_halt (actP : P → Act P) (actQ : Q → Act Q) {s : System P Q φ}
    (hl : advance actP s.down s.left = none) (hr : advance actQ s.up s.right = none) :
    Final (Move actP actQ) s := by
  intro t h
  cases h with
  | left h => simp [hl] at h
  | right h => simp [hr] at h

/-! What one process does while the other one rests. -/

/-- The program runs to its end on what is in its queue already. -/
inductive Performs {α : Type} : SockProg α → List (Packet φ) → Table φ → α →
    List (Event SockRes) → List (Packet φ) → List (Packet φ) → Table φ → Prop
  | ret (a : α) (q : List (Packet φ)) (t : Table φ) : Performs (.ret a) q t a [] [] q t
  | call {o : SockOp} {k : SockRes o → SockProg α} {q q' : List (Packet φ)} {t t' : Table φ}
      {x : Answer φ o} {a : α} {tr : List (Event SockRes)} {sent : List (Packet φ)}
      (h : answer q t o = some x) (hk : Performs (k x.res) x.inbox x.table a tr sent q' t') :
      Performs (.call o k) q t a (⟨o, x.res⟩ :: tr) (x.sent ++ sent) q' t'

theorem Performs.runs {α : Type} {p : SockProg α} {q q' sent : List (Packet φ)} {t t' : Table φ}
    {a : α} {tr : List (Event SockRes)} (h : Performs p q t a tr sent q' t') :
    Runs p tr (.returned a) := by
  induction h with
  | ret a q t => exact .ret a
  | call h hk ih => exact .call ih

theorem Performs.bind {α β : Type} {p : SockProg α} {f : α → SockProg β}
    {q q' q'' sent sent' : List (Packet φ)} {t t' t'' : Table φ} {a : α} {b : β}
    {tr tr' : List (Event SockRes)} (h : Performs p q t a tr sent q' t')
    (h' : Performs (f a) q' t' b tr' sent' q'' t'') :
    Performs (p.bind f) q t b (tr ++ tr') (sent ++ sent') q'' t'' := by
  induction h with
  | ret a q t => exact h'
  | call h hk ih =>
      rw [List.append_assoc]
      exact .call h (ih h')

/-- Nothing that was read is left behind, and nothing else is read. -/
theorem Performs.received_contents {α : Type} {p : SockProg α} {q q' sent : List (Packet φ)}
    {t t' : Table φ} {a : α} {tr : List (Event SockRes)} (h : Performs p q t a tr sent q' t') :
    contents q = (received tr).flatMap Message.data ++ contents q' := by
  induction h with
  | ret a q t => rfl
  | @call o k q q' t t' x a tr sent h hk ih =>
      cases o with
      | sendmsg data cmsgs =>
          obtain ⟨fs, hfs, rfl⟩ := Option.map_eq_some_iff.mp h
          exact ih
      | recvmsg size control waitall =>
          simp only [answer] at h
          split_ifs at h
          obtain ⟨⟨d, fs, q''⟩, hr, rfl⟩ := Option.map_eq_some_iff.mp h
          rw [takeBytes_contents hr, ih]
          simp [received, deliver]
      | malloc size =>
          obtain rfl := Option.some.inj h
          exact ih
      | calloc nmemb size =>
          obtain rfl := Option.some.inj h
          exact ih

theorem Performs.sent_contents {α : Type} {p : SockProg α} {q q' ps : List (Packet φ)}
    {t t' : Table φ} {a : α} {tr : List (Event SockRes)} (h : Performs p q t a tr ps q' t') :
    contents ps = sent tr := by
  induction h with
  | ret a q t => rfl
  | @call o k q q' t t' x a tr ps h hk ih =>
      have hsplit : contents (x.sent ++ ps) = contents x.sent ++ sent tr := by
        rw [← ih]
        exact List.flatMap_append
      rw [hsplit]
      cases o with
      | sendmsg data cmsgs =>
          obtain ⟨fs, hfs, rfl⟩ := Option.map_eq_some_iff.mp h
          by_cases hd : data = []
          · simp [hd, contents, sent]
          · simp [hd, contents, sent]
      | recvmsg size control waitall =>
          simp only [answer] at h
          split_ifs at h
          obtain ⟨⟨d, fs, q''⟩, hr, rfl⟩ := Option.map_eq_some_iff.mp h
          rfl
      | malloc size =>
          obtain rfl := Option.some.inj h
          rfl
      | calloc nmemb size =>
          obtain rfl := Option.some.inj h
          rfl

/-- The program gets to its end, whatever calls it takes. -/
def Does {α : Type} (p : SockProg α) (q : List (Packet φ)) (t : Table φ) (a : α)
    (ps q' : List (Packet φ)) (t' : Table φ) : Prop :=
  ∃ tr, Performs p q t a tr ps q' t'

theorem Does.ret {α : Type} (a : α) (q : List (Packet φ)) (t : Table φ) :
    Does (.ret a) q t a [] q t := ⟨[], .ret a q t⟩

theorem Does.call {α : Type} {o : SockOp} {k : SockRes o → SockProg α}
    {q q' sent : List (Packet φ)} {t t' : Table φ} {x : Answer φ o} {a : α}
    (h : answer q t o = some x) (hk : Does (k x.res) x.inbox x.table a sent q' t') :
    Does (.call o k) q t a (x.sent ++ sent) q' t' := by
  obtain ⟨tr, htr⟩ := hk
  exact ⟨_, .call h htr⟩

theorem Does.bind {α β : Type} {p : SockProg α} {f : α → SockProg β}
    {q q' q'' sent sent' : List (Packet φ)} {t t' t'' : Table φ} {a : α} {b : β}
    (h : Does p q t a sent q' t') (h' : Does (f a) q' t' b sent' q'' t'') :
    Does (p.bind f) q t b (sent ++ sent') q'' t'' := by
  obtain ⟨tr, htr⟩ := h
  obtain ⟨tr', htr'⟩ := h'
  exact ⟨_, htr.bind htr'⟩

/-- One state can lead to the other. -/
def Leads (move : System P Q φ → System P Q φ → Prop) (s t : System P Q φ) : Prop :=
  ∃ n, Steps move n s t

theorem Leads.refl {move : System P Q φ → System P Q φ → Prop} (s : System P Q φ) :
    Leads move s s := ⟨0, .refl s⟩

theorem Leads.trans {move : System P Q φ → System P Q φ → Prop} {s t u : System P Q φ}
    (h : Leads move s t) (h' : Leads move t u) : Leads move s u := by
  obtain ⟨m, hm⟩ := h
  obtain ⟨n, hn⟩ := h'
  exact ⟨m + n, hm.append hn⟩

theorem Leads.step {move : System P Q φ → System P Q φ → Prop} {s t : System P Q φ}
    (h : move s t) : Leads move s t := ⟨1, .step h (.refl t)⟩

variable {α β S R : Type}

/-- The left process gets through the head of its program. -/
theorem Leads.left (actQ : Q → Act Q) (up : List (Packet φ)) {p : SockProg α}
    {q q' ps : List (Packet φ)}
    {t t' : Table φ} {a : α} {tr : List (Event SockRes)} (h : Performs p q t a tr ps q' t')
    (f : α → SockProg β) (history : List (Event SockRes)) (right : Side Q φ) :
    Leads (Move progAct actQ) ⟨⟨p.bind f, t, history⟩, right, up, q⟩
      ⟨⟨f a, t', history ++ tr⟩, right, up ++ ps, q'⟩ := by
  induction h generalizing history up with
  | ret a q t => simpa using Leads.refl _
  | @call o k q q' t t' x a tr ps h hk ih =>
      have hstep : advance progAct q ⟨(Prog.call o k).bind f, t, history⟩ =
          some (⟨(k x.res).bind f, x.table, history ++ [⟨o, x.res⟩]⟩, x.inbox, x.sent) := by
        simp [advance, progAct, h]
      have hmove : Move progAct actQ ⟨⟨(Prog.call o k).bind f, t, history⟩, right, up, q⟩ _ :=
        .left hstep
      have hfirst := Leads.step hmove
      have hrest := ih (up ++ x.sent) (history ++ [⟨o, x.res⟩])
      simp only [List.append_assoc, List.singleton_append] at hrest
      exact hfirst.trans hrest

/-- The right process gets through the rest of its turn. -/
theorem Leads.right (actP : P → Act P) (body : S → SockProg (S ⊕ R)) (down : List (Packet φ))
    {p : SockProg (S ⊕ R)} {q q' ps : List (Packet φ)} {t t' : Table φ} {a : S ⊕ R} {tr : List (Event SockRes)}
    (h : Performs p q t a tr ps q' t') (history : List (Event SockRes)) (left : Side P φ) :
    Leads (Move actP (loopAct body)) ⟨left, ⟨p, t, history⟩, q, down⟩
      ⟨left, ⟨.ret a, t', history ++ tr⟩, q', down ++ ps⟩ := by
  induction h generalizing history down with
  | ret a q t => simpa using Leads.refl _
  | @call o k q q' t t' x a tr ps h hk ih =>
      have hstep : advance (loopAct body) q ⟨.call o k, t, history⟩ =
          some (⟨k x.res, x.table, history ++ [⟨o, x.res⟩]⟩, x.inbox, x.sent) := by
        simp [advance, loopAct, h]
      have hmove : Move actP (loopAct body) ⟨left, ⟨Prog.call o k, t, history⟩, q, down⟩ _ :=
        .right hstep
      have hfirst := Leads.step hmove
      have hrest := ih (down ++ x.sent) (history ++ [⟨o, x.res⟩])
      simp only [List.append_assoc, List.singleton_append] at hrest
      exact hfirst.trans hrest

/-- The right process begins its next turn. -/
theorem Leads.turn (actP : P → Act P) (body : S → SockProg (S ⊕ R)) (s : S) (t : Table φ)
    (history : List (Event SockRes)) (left : Side P φ) (up down : List (Packet φ)) :
    Leads (Move actP (loopAct body)) ⟨left, ⟨.ret (.inl s), t, history⟩, up, down⟩
      ⟨left, ⟨body s, t, history⟩, up, down⟩ := by
  have hstep : advance (loopAct body) up ⟨.ret (.inl s), t, history⟩ =
      some (⟨body s, t, history⟩, up, []) := rfl
  have hmove : Move actP (loopAct body) ⟨left, ⟨Prog.ret (Sum.inl s), t, history⟩, up, down⟩ _ :=
    .right hstep
  simpa using Leads.step hmove

end HasherPriv.Foundations.Duplex
