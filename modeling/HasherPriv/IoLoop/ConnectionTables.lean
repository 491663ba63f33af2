/- GID: HasherPriv/IoLoop/ConnectionTables
   layer: input and output loop
   source: io_log.c, io_x11.c
   digest: Every connection is in one slot of its table, and no table is longer than it had to be. -/

import HasherPriv.Foundations.Slots
import HasherPriv.IoLoop.Descriptors

set_option autoImplicit false
set_option relaxedAutoImplicit false

namespace HasherPriv.IoLoop.ConnectionTables

open Foundations.ByteString (Bytes)
open Foundations.Program
open Foundations.Contracts
open Foundations.Handles
open Foundations.Slots
open Calls
open Log
open X11
open Descriptors (Answers)

/-! `io_x11_list` with the addresses of its entries. -/

/-- What `xzalloc` has returned, and what is stored there. -/
structure Block where
  address : ℕ
  io : IoX11
  deriving DecidableEq

abbrev Blocks := List (Option Block)

def contents (l : Blocks) : IoX11List := l.map (Option.map Block.io)

def pointsTo (p : ℕ) (slot : Option Block) : Bool := slot.any fun b => b.address = p

/-- A store through the pointer. -/
def update (p : ℕ) (io : IoX11) (l : Blocks) : Blocks :=
  l.map fun slot => slot.map fun b => if b.address = p then ⟨p, io⟩ else b

/-- `io_x11_new`, with what `xzalloc` returns. -/
def ioX11New (p : ℕ) (masterFd slaveFd : ℤ) (l : Blocks) : IoProg Blocks := do
  unblockFd masterFd
  unblockFd slaveFd
  return fillFirst Option.isNone (some ⟨p, { masterFd := masterFd, slaveFd := slaveFd }⟩) l

def entryNotFound (p count : ℕ) : String :=
  let address := String.ofList (Nat.toDigits 16 p)
  s!"entry 0x{address} not found, count={count}"

/-- `io_x11_free`. -/
def ioX11Free (p : ℕ) (io : IoX11) (l : Blocks) : IoProg Blocks :=
  match l.findIdx? (pointsTo p) with
  | none => .die (entryNotFound p l.length)
  | some i => do
      xclose io.masterFd
      xclose io.slaveFd
      return l.set i none

def x11HandleNew (p : ℕ) (method : Option ConnectMethod) (x11Fd : ℤ) (reads : FdSet) (l : Blocks) :
    IoProg Blocks := do
  if ¬ fdsIsset reads x11Fd then return l
  else
    match ← ioCall (.accept x11Fd) with
    | none => return l
    | some acceptFd =>
        match ← x11Connect method with
        | some connectFd => ioX11New p connectFd acceptFd l
        | none =>
            xclose acceptFd
            return l

/-- A half-step, and what follows unless the entry is dropped. -/
def orFree (p : ℕ) (io : IoX11) (l : Blocks) (step : IoProg (Option IoX11))
    (next : IoX11 → IoProg Blocks) : IoProg Blocks := do
  match ← step with
  | none => ioX11Free p io l
  | some io => next io

/-- The body of the loop of `x11_handle_select`. -/
def relay (auth : Option Auth) (reads writes : FdSet) (p : ℕ) (io : IoX11) (l : Blocks) :
    IoProg Blocks :=
  orFree p io l (writeSlave writes io) fun io =>
    orFree p io l (readMaster reads io) fun io =>
      orFree p io l (writeMaster writes io) fun io =>
        orFree p io l (readSlave auth reads io) fun io => return update p io l

/-- The loop, with this many entries to come from this one on. -/
def x11SelectFrom (auth : Option Auth) (reads writes : FdSet) : ℕ → ℕ → Blocks → IoProg Blocks
  | 0, _, l => return l
  | count + 1, i, l =>
      match l.getD i none with
      | none => x11SelectFrom auth reads writes count (i + 1) l
      | some b => do
          let l ← relay auth reads writes b.address b.io l
          x11SelectFrom auth reads writes count (i + 1) l

def x11HandleSelect (auth : Option Auth) (reads writes : FdSet) (l : Blocks) : IoProg Blocks :=
  x11SelectFrom auth reads writes l.length 0 l

/-- What `fd_free` complains. -/
def fdNotFound (fd : ℤ) (count : ℕ) : String := s!"descriptor {fd} not found, count={count}"

/-! An entry that is dropped is found. -/

/-- What becomes of the table when the relaying of an entry is over. -/
def settle (p i : ℕ) (l : Blocks) : Option IoX11 → Blocks
  | none => l.set i none
  | some io => update p io l

theorem orFree_eq {p i : ℕ} {io : IoX11} {l : Blocks} {step : IoProg (Option IoX11)}
    {next : IoX11 → IoProg Blocks} {next' : IoX11 → IoProg (Option IoX11)}
    (hi : l.findIdx? (pointsTo p) = some i)
    (hnext : ∀ io, next io = (next' io).bind fun r => .ret (settle p i l r)) :
    orFree p io l step next = (X11.orFree io step next').bind fun r => .ret (settle p i l r) := by
  unfold orFree X11.orFree X11.ioX11Free ioX11Free
  rw [hi]
  simp only [bind_eq_bind, pure_eq_ret, prog_bind_assoc]
  congr 1
  funext r
  cases r with
  | none =>
      simp only [prog_bind_assoc]
      rfl
  | some io => exact hnext io

/-- The body of the loop is that of the model without addresses. -/
theorem relay_eq {auth : Option Auth} {reads writes : FdSet} {p i : ℕ} {io : IoX11} {l : Blocks}
    (hi : l.findIdx? (pointsTo p) = some i) : relay auth reads writes p io l =
      (X11.relay auth reads writes io).bind fun r => .ret (settle p i l r) := by
  apply orFree_eq hi
  intro io
  apply orFree_eq hi
  intro io
  apply orFree_eq hi
  intro io
  apply orFree_eq hi
  intro io
  rfl

/-! What the calls say about connections. -/

inductive Listener
  | log
  | x11

/-- The connections that are live, and how many there ever were at once. A connection to the X
server belongs to the client that has been accepted before. -/
structure Seen where
  log : List ℕ := []
  x11 : List (ℕ × ℕ) := []
  pending : Option ℕ := none
  logPeak : ℕ := 0
  x11Peak : ℕ := 0

def Seen.drop (g : Seen) (n : ℕ) : Seen :=
  { g with
    log := g.log.filter fun m => m ≠ n
    x11 := g.x11.filter fun c => c.1 ≠ n ∧ c.2 ≠ n
    pending := g.pending.filter fun m => m ≠ n }

def Seen.addLog (g : Seen) (n : ℕ) : Seen :=
  { g with log := n :: g.log, logPeak := max g.logPeak (g.log.length + 1) }

def Seen.addX11 (g : Seen) (c : ℕ × ℕ) : Seen :=
  { g with x11 := c :: g.x11, pending := none, x11Peak := max g.x11Peak (g.x11.length + 1) }

/-- A call of a handler with this listener. -/
def Seen.observe (k : Listener) (g : Seen) : (o : IoOp) → IoRes o → Seen
  | .accept _, some n =>
      match k with
      | .log => g.addLog n
      | .x11 => { g with pending := some n }
  | .connect fd, true => g.pending.elim g fun n => g.addX11 (fd.toNat, n)
  | .close fd, _ => g.drop fd.toNat
  | _, _ => g

structure World where
  table : Table
  seen : Seen := {}

def Sem (k : Listener) (o : IoOp) (w : World) (r : IoRes o) (w' : World) : Prop :=
  Answers o w.table r w'.table ∧ w'.seen = w.seen.observe k o r

def World.close (w : World) (n : ℕ) : World := ⟨w.table.close n, w.seen.drop n⟩

/-- The descriptors of the connections. -/
def ends (c : ℕ × ℕ) : List ℕ := [c.1, c.2]

def Seen.numbers (g : Seen) : List ℕ := g.log ++ (g.x11.flatMap ends ++ g.pending.toList)

/-! The handlers in this world. -/

section Handlers

variable {k : Listener} {w w' : World} {reads writes : FdSet}

abbrev Keeps {α : Type} (k : Listener) (p : IoProg α) (post : α → World → Prop) (w : World) :
    Prop :=
  Ensures (Sem k) (fun _ _ _ _ => True) p post w

/-- The calls that neither open nor close a descriptor, nor connect. -/
def Neutral : IoOp → Prop
  | .accept _ | .socket | .close _ | .connect _ | .fdRecv _ _ => False
  | _ => True

theorem same_of_neutral {o : IoOp} {r : IoRes o} (ho : Neutral o) (h : Sem k o w r w') :
    w' = w := by
  obtain ⟨table, seen⟩ := w'
  obtain ⟨htable, hseen⟩ := h
  cases o with
  | accept fd => exact ho.elim
  | socket => exact ho.elim
  | close fd => exact ho.elim
  | connect fd => exact ho.elim
  | fdRecv fd len => exact ho.elim
  | _ =>
      obtain rfl : table = w.table := htable
      obtain rfl : seen = w.seen := hseen
      rfl

theorem neutral_keeps {α : Type} {p : IoProg α} (hp : p.Uses Neutral) :
    Keeps k p (fun _ w' => w' = w) w := by
  refine ensures_of_uses (I := (· = w)) hp rfl ?_
  rintro o v r v' ho rfl hsem
  exact ⟨trivial, same_of_neutral ho hsem⟩

theorem unblockFd_keeps (fd : ℤ) : Keeps k (unblockFd fd) (fun _ w' => w' = w) w :=
  neutral_keeps ((uses_op trivial).bind fun r => by cases r <;> trivial)

theorem xwriteAll_keeps (fd : ℤ) (buffer : Bytes) (total : ℕ) :
    Keeps k (xwriteAll fd buffer total) (fun _ w' => w' = w) w :=
  neutral_keeps (xwriteAll_uses (fun _ _ => trivial) buffer total)

theorem xclose_keeps (n : ℕ) : Keeps k (xclose n) (fun _ w' => w' = w.close n) w := by
  have hopen : ¬ (n : ℤ) < 0 := by omega
  rw [xclose, if_neg hopen]
  intro r w' hsem
  obtain ⟨table, seen⟩ := w'
  obtain ⟨htable, hseen⟩ := hsem
  refine ⟨trivial, ?_⟩
  obtain rfl : table = w.table.close n := htable
  obtain rfl : seen = w.seen.drop n := hseen
  rfl

/-- A half-step leaves the descriptors of the entry. -/
def SameEnds (io : IoX11) (r : Option IoX11) : Prop :=
  ∀ io', r = some io' → io'.masterFd = io.masterFd ∧ io'.slaveFd = io.slaveFd

theorem writeOut_keeps (fd : ℤ) (b : Buffer) : Keeps k (writeOut fd b) (fun _ w' => w' = w) w := by
  apply neutral_keeps
  refine (uses_op (show Neutral (.write fd b.data) from trivial)).bind ?_
  intro r
  cases r with
  | none => trivial
  | some n =>
      show Prog.Uses _ (ite _ _ _)
      split_ifs <;> trivial

theorem readIn_keeps (fd : ℤ) (b : Buffer) : Keeps k (readIn fd b) (fun _ w' => w' = w) w := by
  apply neutral_keeps
  refine (uses_op (show Neutral (.read fd bufsiz) from trivial)).bind ?_
  intro r
  cases r with
  | none => trivial
  | some d =>
      show Prog.Uses _ (ite _ _ _)
      split_ifs <;> trivial

theorem half_keeps {io : IoX11} {step : IoProg (Option Buffer)} {f : Buffer → IoX11}
    (hstep : Keeps k step (fun _ w' => w' = w) w)
    (hf : ∀ b, (f b).masterFd = io.masterFd ∧ (f b).slaveFd = io.slaveFd) :
    Keeps k (step.bind fun b => .ret (b.map f)) (fun r w' => SameEnds io r ∧ w' = w) w := by
  apply hstep.bind
  intro b w' hw'
  refine ⟨?_, hw'⟩
  intro io' hio'
  obtain ⟨b', -, rfl⟩ := Option.map_eq_some_iff.mp hio'
  exact hf b'

theorem none_keeps (io : IoX11) :
    Keeps k (.ret (some io)) (fun r w' => SameEnds io r ∧ w' = w) w := by
  refine ⟨?_, rfl⟩
  rintro io' ⟨⟩
  exact ⟨rfl, rfl⟩

/-- An entry is kept with its descriptors, or both are closed. -/
def Relayed (m n : ℕ) (w : World) (r : Option IoX11) (w' : World) : Prop :=
  (∃ io, r = some io ∧ io.masterFd = m ∧ io.slaveFd = n ∧ w' = w) ∨
    (r = none ∧ w' = (w.close m).close n)

theorem orFree_keeps {m n : ℕ} {io : IoX11} {step : IoProg (Option IoX11)}
    {next : IoX11 → IoProg (Option IoX11)} (hio : io.masterFd = m ∧ io.slaveFd = n)
    (hstep : Keeps k step (fun r w' => SameEnds io r ∧ w' = w) w)
    (hnext : ∀ io' : IoX11, io'.masterFd = m ∧ io'.slaveFd = n →
      Keeps k (next io') (Relayed m n w) w) :
    Keeps k (X11.orFree io step next) (Relayed m n w) w := by
  apply hstep.bind
  rintro r w' ⟨hsame, rfl⟩
  cases r with
  | none =>
      have hfree : Keeps k (X11.ioX11Free io) (fun _ w'' => w'' = (w'.close m).close n) w' := by
        unfold X11.ioX11Free
        rw [hio.1, hio.2]
        apply (xclose_keeps m).bind
        rintro _ w₁ rfl
        exact xclose_keeps n
      apply hfree.bind
      intro _ w'' hw''
      exact Or.inr ⟨rfl, hw''⟩
  | some io' =>
      obtain ⟨hmaster, hslave⟩ := hsame io' rfl
      exact hnext io' ⟨hmaster.trans hio.1, hslave.trans hio.2⟩

theorem relay_keeps {m n : ℕ} {auth : Option Auth} {io : IoX11}
    (hio : io.masterFd = m ∧ io.slaveFd = n) :
    Keeps k (X11.relay auth reads writes io) (Relayed m n w) w := by
  apply orFree_keeps hio
  · unfold writeSlave
    split_ifs
    · exact half_keeps (writeOut_keeps _ _) fun _ => ⟨rfl, rfl⟩
    · exact none_keeps io
  intro io hio
  apply orFree_keeps hio
  · unfold readMaster
    split_ifs
    · exact half_keeps (readIn_keeps _ _) fun _ => ⟨rfl, rfl⟩
    · exact none_keeps io
  intro io hio
  apply orFree_keeps hio
  · unfold writeMaster
    split_ifs
    · exact half_keeps (writeOut_keeps _ _) fun _ => ⟨rfl, rfl⟩
    · exact none_keeps io
  intro io hio
  apply orFree_keeps hio
  · unfold readSlave
    split_ifs
    · refine half_keeps (readIn_keeps _ _) fun b => ?_
      rw [IoX11.checkAuthData_masterFd, IoX11.checkAuthData_slaveFd]
      exact ⟨rfl, rfl⟩
    · exact none_keeps io
  intro io hio
  exact Or.inl ⟨io, rfl, hio.1, hio.2, rfl⟩

/-! Connecting. -/

/-- The live descriptors are open. -/
def Open (w : World) : Prop := ∀ n ∈ w.seen.numbers, (w.table.files n).isSome

theorem filter_ne {log : List ℕ} {n : ℕ} (h : n ∉ log) :
    log.filter (fun m => decide (m ≠ n)) = log := by
  apply List.filter_eq_self.mpr
  intro m hm
  apply decide_eq_true
  rintro rfl
  exact h hm

theorem filter_ends {x11 : List (ℕ × ℕ)} {n : ℕ} (h : n ∉ x11.flatMap ends) :
    x11.filter (fun c => decide (c.1 ≠ n ∧ c.2 ≠ n)) = x11 := by
  apply List.filter_eq_self.mpr
  intro c hc
  have hnot : ∀ m ∈ ends c, m ≠ n := by
    rintro m hm rfl
    exact h (List.mem_flatMap.mpr ⟨c, hc, hm⟩)
  apply decide_eq_true
  exact ⟨hnot c.1 List.mem_cons_self, hnot c.2 (List.mem_cons_of_mem _ List.mem_cons_self)⟩

/-- A descriptor of nobody is dropped. -/
theorem drop_fresh {g : Seen} {n : ℕ} (h : n ∉ g.numbers) : g.drop n = g := by
  obtain ⟨log, x11, pending, logPeak, x11Peak⟩ := g
  have hlog : n ∉ log := fun hn => h (List.mem_append_left _ hn)
  have hx11 : n ∉ x11.flatMap ends := fun hn =>
    h (List.mem_append_right _ (List.mem_append_left _ hn))
  have hpending : pending.filter (fun m => decide (m ≠ n)) = pending := by
    cases pending with
    | none => rfl
    | some m =>
        have hne : m ≠ n := by
          rintro rfl
          exact h (List.mem_append_right _ (List.mem_append_right _ List.mem_cons_self))
        show (if decide (m ≠ n) = true then some m else none) = some m
        rw [if_pos (decide_eq_true hne)]
  unfold Seen.drop
  simp only [filter_ne hlog, filter_ends hx11, hpending]

/-- A client that could not be connected is forgotten. -/
theorem drop_pending {g : Seen} {n : ℕ} (hnone : g.pending = none) (h : n ∉ g.numbers) :
    ({ g with pending := some n } : Seen).drop n = g := by
  obtain ⟨log, x11, pending, logPeak, x11Peak⟩ := g
  obtain rfl : pending = none := hnone
  have hlog : n ∉ log := fun hn => h (List.mem_append_left _ hn)
  have hx11 : n ∉ x11.flatMap ends := fun hn =>
    h (List.mem_append_right _ (List.mem_append_left _ hn))
  have hpending : (some n).filter (fun m => decide (m ≠ n)) = none := by
    have hself : decide (n ≠ n) = false := decide_eq_false fun hne => hne rfl
    show (if decide (n ≠ n) = true then some n else none) = none
    rw [hself]
    rfl
  unfold Seen.drop
  simp only [filter_ne hlog, filter_ends hx11, hpending]

theorem Open.notMem {n : ℕ} (h : Open w) (hfree : w.table.files n = none) :
    n ∉ w.seen.numbers := by
  intro hn
  have hopen := h n hn
  rw [hfree] at hopen
  cases hopen

/-- A connection has been made for the client, or nothing has changed. -/
def Connected (a : ℕ) (w : World) (r : Option ℕ) (w' : World) : Prop :=
  w'.seen = r.elim w.seen (fun m => w.seen.addX11 (m, a)) ∧ Moves w.table w'.table [] r.toList

theorem Connected.after {a : ℕ} {r : Option ℕ} {v : World} (h : Connected a v r w')
    (hseen : v.seen = w.seen) (hmoves : Moves w.table v.table [] []) : Connected a w r w' := by
  refine ⟨?_, hmoves.trans h.2⟩
  rw [h.1, hseen]

theorem Open.after {v : World} (h : Open w) (hseen : v.seen = w.seen)
    (hmoves : Moves w.table v.table [] []) : Open v := by
  intro n hn
  rw [hseen] at hn
  rw [hmoves.others n List.not_mem_nil (h n hn)]
  exact h n hn

/-- One try: a socket, which is closed if it cannot be connected. -/
theorem tryConnect_keeps {a : ℕ} {p : IoProg (Option ℕ)} {post : Option ℕ → World → Prop}
    (hpending : w.seen.pending = some a) (hopen : Open w)
    (hpost : ∀ r w', Connected a w r w' → (r = none → Keeps k p post w') ∧
      (r ≠ none → post r w')) :
    Keeps k (do
      match ← ioCall .socket with
      | none => p
      | some fd =>
          if ← ioCall (.connect fd) then return some fd
          else
            xclose fd
            p) post w := by
  intro fd w₁ hsem
  refine ⟨trivial, ?_⟩
  obtain ⟨hanswers, hseen⟩ := hsem
  have hsame : w₁.seen = w.seen := hseen
  have hmoves := Descriptors.socket_moves hanswers
  cases fd with
  | none =>
      exact (hpost none w₁ ⟨hsame, hmoves⟩).1 rfl
  | some fd =>
      have hfree : w.table.files fd = none := hanswers.1
      intro connected w₂ hconnect
      refine ⟨trivial, ?_⟩
      obtain ⟨htable₂, hseen₂⟩ := hconnect
      have htable : w₂.table = w₁.table := htable₂
      cases connected with
      | true =>
          have hadded : w₂.seen = w.seen.addX11 (fd, a) := by
            rw [hseen₂, hsame]
            show w.seen.pending.elim w.seen (fun n => w.seen.addX11 (fd, n)) = _
            rw [hpending]
            rfl
          have hconnected : Connected a w (some fd) w₂ := by
            refine ⟨hadded, ?_⟩
            rw [htable]
            exact hmoves
          exact (hpost (some fd) w₂ hconnected).2 (Option.some_ne_none fd)
      | false =>
          have hsame₂ : w₂.seen = w.seen := by
            rw [hseen₂, hsame]
            rfl
          apply (xclose_keeps fd).bind
          rintro _ w₃ rfl
          have hclosed : Connected a w none (w₂.close fd) := by
            constructor
            · show w₂.seen.drop fd = w.seen
              rw [hsame₂, drop_fresh (hopen.notMem hfree)]
            · show Moves w.table (w₂.table.close fd) [] []
              rw [htable]
              exact hmoves.trans (moves_close w₁.table fd)
          exact (hpost none (w₂.close fd) hclosed).1 rfl

theorem x11ConnectAddress_keeps {a : ℕ} (hpending : w.seen.pending = some a) (hopen : Open w)
    (n : ℕ) : Keeps k (x11ConnectAddress n) (Connected a w) w := by
  induction n generalizing w with
  | zero => exact ⟨rfl, Moves.refl w.table []⟩
  | succ n ih =>
      apply tryConnect_keeps hpending hopen
      intro r w' hconnected
      constructor
      · rintro rfl
        obtain ⟨hseen, hmoves⟩ := hconnected
        have hpending' : w'.seen.pending = some a := by
          rw [hseen]
          exact hpending
        apply (ih hpending' (hopen.after hseen hmoves)).mono
        intro r w'' h
        exact h.after hseen hmoves
      · intro _
        exact hconnected

theorem x11Connect_keeps {a : ℕ} (hpending : w.seen.pending = some a) (hopen : Open w)
    (method : Option ConnectMethod) : Keeps k (x11Connect method) (Connected a w) w := by
  have hnothing : Connected a w none w := ⟨rfl, Moves.refl w.table []⟩
  rcases method with _ | ⟨dirFd⟩ | _
  · exact hnothing
  · have hdone : ∀ r w', Connected a w r w' →
        Keeps k ((ioCall .chdir).bind fun _ => .ret r) (Connected a w) w' := by
      intro r w' h
      have hneutral : (ioCall .chdir).Uses Neutral := uses_op trivial
      apply (neutral_keeps hneutral).bind
      rintro _ w'' rfl
      exact h
    refine Ensures.bind (Q := Connected a w) ?_ hdone
    intro entered w₁ hsem
    obtain rfl := same_of_neutral (show Neutral (.fchdir dirFd) from trivial) hsem
    refine ⟨trivial, ?_⟩
    cases entered with
    | false => exact hnothing
    | true =>
        apply tryConnect_keeps hpending hopen
        intro r w' hconnected
        constructor
        · rintro rfl
          exact hconnected
        · intro _
          exact hconnected
  · intro addresses w₁ hsem
    obtain rfl := same_of_neutral (show Neutral .getaddrinfo from trivial) hsem
    refine ⟨trivial, ?_⟩
    cases addresses with
    | none => exact hnothing
    | some n => exact x11ConnectAddress_keeps hpending hopen n

end Handlers

/-! What is in the tables. -/

structure Tables where
  fdList : List ℤ := []
  x11List : Blocks := []

def noFd (fd : ℤ) : Bool := fd < 0

def pair (slot : Option Block) : ℕ × ℕ :=
  slot.elim (0, 0) fun b => (b.io.masterFd.toNat, b.io.slaveFd.toNat)

def address (slot : Option Block) : ℕ := slot.elim 0 Block.address

def logged (l : List ℤ) : List ℕ := (used noFd l).map Int.toNat

def connected (l : Blocks) : List (ℕ × ℕ) := (used Option.isNone l).map pair

def addresses (l : Blocks) : List ℕ := (used Option.isNone l).map address

def Tables.numbers (st : Tables) : List ℕ := logged st.fdList ++ (connected st.x11List).flatMap ends

/-- The tables are about the connections that are live. -/
structure Sound (st : Tables) (w : World) : Prop where
  log : (logged st.fdList).Perm w.seen.log
  x11 : (connected st.x11List).Perm w.seen.x11
  pending : w.seen.pending = none
  owns : Owns w.table st.numbers
  empty : ∀ fd ∈ st.fdList, fd < 0 → fd = -1
  filled : ∀ b, some b ∈ st.x11List → 0 ≤ b.io.masterFd ∧ 0 ≤ b.io.slaveFd
  distinct : (addresses st.x11List).Nodup
  logSize : st.fdList.length = w.seen.logPeak
  x11Size : st.x11List.length = w.seen.x11Peak

section Tables

variable {st : Tables} {w w' : World} {l : List ℤ} {bs : Blocks}

theorem Sound.numbers_perm (h : Sound st w) : st.numbers.Perm w.seen.numbers := by
  unfold Tables.numbers Seen.numbers
  rw [h.pending, Option.toList_none, List.append_nil]
  exact h.log.append (h.x11.flatMap_right ends)

theorem Sound.isOpen (h : Sound st w) : Open w := by
  intro n hn
  exact h.owns.2 n (h.numbers_perm.mem_iff.mpr hn)

theorem insertFd_eq (fd : ℤ) (l : List ℤ) : insertFd fd l = fillFirst noFd fd l := by
  induction l with
  | nil => rfl
  | cons fd' l ih =>
      rw [insertFd, fillFirst, ih]
      by_cases hfree : noFd fd' = true
      · rw [if_pos hfree, if_pos (of_decide_eq_true hfree)]
      · rw [if_neg hfree, if_neg fun hneg => hfree (decide_eq_true hneg)]

theorem noFd_natCast (n : ℕ) : noFd n = false := by
  apply decide_eq_false
  omega

theorem logged_insertFd (n : ℕ) (l : List ℤ) :
    (logged (insertFd n l)).Perm (n :: logged l) := by
  rw [insertFd_eq]
  exact (used_fillFirst (noFd_natCast n)).map Int.toNat

theorem insertFd_length (n : ℕ) (l : List ℤ) :
    (insertFd n l).length = max l.length ((logged l).length + 1) := by
  rw [insertFd_eq, fillFirst_length, logged, List.length_map]

theorem logged_replace {n : ℕ} (h : (n : ℤ) ∈ l) :
    (logged l).Perm (n :: logged (l.replace n (-1))) := by
  have hmem : (n : ℤ) ∈ used noFd l := mem_used.mpr ⟨h, noFd_natCast n⟩
  have herased : used noFd (l.replace n (-1)) = (used noFd l).erase n :=
    used_replace (noFd_natCast n) rfl h
  unfold logged
  rw [herased]
  exact (List.perm_cons_erase hmem).map Int.toNat

/-! Log connections. -/

theorem filter_perm {α : Type} [DecidableEq α] {p : α → Bool} {a : α} {xs ys zs : List α}
    (hxs : xs.Perm (a :: ys)) (hzs : xs.Perm zs) (ha : p a = false) (hys : ∀ y ∈ ys, p y = true) :
    ys.Perm (zs.filter p) := by
  have hfiltered := (hxs.symm.trans hzs).filter p
  rw [List.filter_cons_of_neg (by rw [ha]; exact Bool.false_ne_true),
    List.filter_eq_self.mpr hys] at hfiltered
  exact hfiltered

/-- Elsewhere descriptors come and go. -/
theorem Sound.moved (h : Sound st w) (hseen : w'.seen = w.seen)
    (hmoves : Moves w.table w'.table [] []) : Sound st w' := by
  obtain ⟨table, seen⟩ := w'
  obtain rfl : seen = w.seen := hseen
  exact ⟨h.log, h.x11, h.pending, (hmoves.frame st.numbers).owns h.owns, h.empty, h.filled,
    h.distinct, h.logSize, h.x11Size⟩

/-- A new log connection. -/
theorem Sound.addLog {n : ℕ} (h : Sound st w) (hfree : w.table.files n = none) :
    Sound { st with fdList := insertFd n st.fdList } ⟨w.table.opened n, w.seen.addLog n⟩ := by
  have hlogged := logged_insertFd n st.fdList
  constructor
  · exact hlogged.trans (h.log.cons n)
  · exact h.x11
  · exact h.pending
  · have hmoves := (moves_opened hfree).frame st.numbers
    exact (hmoves.owns h.owns).perm (hlogged.symm.append_right _)
  · intro fd hfd hneg
    rw [insertFd_eq] at hfd
    rcases mem_fillFirst hfd with rfl | hfd
    · omega
    · exact h.empty fd hfd hneg
  · exact h.filled
  · exact h.distinct
  · show (insertFd n st.fdList).length = max w.seen.logPeak (w.seen.log.length + 1)
    rw [insertFd_length, h.logSize, h.log.length_eq]
  · exact h.x11Size

/-- A log connection at its end. -/
theorem Sound.dropLog {n : ℕ} (h : Sound st w) (hn : (n : ℤ) ∈ st.fdList) :
    Sound { st with fdList := st.fdList.replace n (-1) } (w.close n) := by
  have hlogged : (logged st.fdList).Perm (n :: logged (st.fdList.replace n (-1))) :=
    logged_replace hn
  have howns : Owns w.table ([n] ++ (logged (st.fdList.replace n (-1)) ++
      (connected st.x11List).flatMap ends)) := h.owns.perm (hlogged.append_right _)
  have hnot := fun hmem => howns.notMem_left hmem (List.mem_singleton.mpr rfl)
  have hx11 : n ∉ w.seen.x11.flatMap ends := by
    intro hmem
    apply hnot
    exact List.mem_append_right _ ((h.x11.flatMap_right ends).mem_iff.mpr hmem)
  constructor
  · apply filter_perm hlogged h.log
    · exact decide_eq_false fun hne => hne rfl
    · intro m hm
      apply decide_eq_true
      rintro rfl
      exact hnot (List.mem_append_left _ hm)
  · show (connected st.x11List).Perm (w.seen.x11.filter fun c => decide (c.1 ≠ n ∧ c.2 ≠ n))
    rw [filter_ends hx11]
    exact h.x11
  · show w.seen.pending.filter _ = none
    rw [h.pending]
    rfl
  · exact ((moves_close w.table n).frame _).owns howns
  · intro fd hfd hneg
    rcases mem_replace hfd with rfl | hfd
    · rfl
    · exact h.empty fd hfd hneg
  · exact h.filled
  · exact h.distinct
  · show (st.fdList.replace n (-1)).length = w.seen.logPeak
    rw [List.length_replace]
    exact h.logSize
  · exact h.x11Size

/-! X11 connections. -/

theorem isNone_some (b : Block) : Option.isNone (some b) = false := rfl

/-- A new X11 connection, in a block that is in no other slot. -/
theorem Sound.addX11 {p m a : ℕ} (h : Sound st w) (hp : ∀ b, some b ∈ st.x11List → b.address ≠ p)
    (hseen : w'.seen = w.seen.addX11 (m, a)) (hmoves : Moves w.table w'.table [] [m, a]) :
    Sound
      { st with
        x11List :=
          fillFirst Option.isNone (some ⟨p, { masterFd := m, slaveFd := a }⟩) st.x11List }
      w' := by
  have hused := used_fillFirst (l := st.x11List)
    (isNone_some ⟨p, { masterFd := m, slaveFd := a }⟩)
  have hconnected := hused.map pair
  constructor
  · show (logged st.fdList).Perm w'.seen.log
    rw [hseen]
    exact h.log
  · rw [hseen]
    exact hconnected.trans (h.x11.cons (m, a))
  · rw [hseen]
    rfl
  · have howned := (hmoves.frame st.numbers).owns h.owns
    apply howned.perm
    have hends := (hconnected.symm.flatMap_right ends).append_left (logged st.fdList)
    refine List.Perm.trans ?_ hends
    exact List.perm_append_comm_assoc [m, a] (logged st.fdList) _
  · exact h.empty
  · intro b hb
    rcases mem_fillFirst hb with hnew | hb
    · obtain rfl := Option.some.inj hnew
      exact ⟨Int.natCast_nonneg m, Int.natCast_nonneg a⟩
    · exact h.filled b hb
  · have hnew := hused.map address
    apply hnew.nodup_iff.mpr
    refine List.nodup_cons.mpr ⟨?_, h.distinct⟩
    intro hmem
    obtain ⟨slot, hslot, haddress⟩ := List.mem_map.mp hmem
    obtain ⟨hslot, hfilled⟩ := mem_used.mp hslot
    cases slot with
    | none => cases hfilled
    | some b => exact hp b hslot haddress
  · rw [hseen]
    exact h.logSize
  · rw [hseen]
    show (fillFirst _ _ st.x11List).length = max w.seen.x11Peak (w.seen.x11.length + 1)
    rw [fillFirst_length, h.x11Size, ← h.x11.length_eq, connected, List.length_map]

theorem mem_used_block {b : Block} (h : some b ∈ bs) : some b ∈ used Option.isNone bs :=
  mem_used.mpr ⟨h, isNone_some b⟩

/-- A block is in one slot, and the search finds it. -/
theorem findIdx_block {b : Block} {i : ℕ} (h : (addresses bs).Nodup) (hi : bs[i]? = some (some b)) :
    bs.findIdx? (pointsTo b.address) = some i := by
  have hmem : some b ∈ bs := List.mem_of_getElem? hi
  have haddress : b.address ∈ (used Option.isNone bs).map address :=
    List.mem_map_of_mem (f := address) (mem_used_block hmem)
  have hpoints : pointsTo b.address (some b) = true := decide_eq_true rfl
  cases hfind : bs.findIdx? (pointsTo b.address) with
  | none =>
      have hnone := List.findIdx?_eq_none_iff.mp hfind (some b) hmem
      rw [hpoints] at hnone
      cases hnone
  | some j =>
      obtain ⟨hlt, hj, -⟩ := List.findIdx?_eq_some_iff_getElem.mp hfind
      obtain ⟨j', -, hunique⟩ := exactly_one h haddress
      have hfound : ∃ slot, bs[j]? = some slot ∧ Option.isNone slot = false ∧
          address slot = b.address := by
        refine ⟨bs[j], List.getElem?_eq_getElem hlt, ?_⟩
        cases hslot : bs[j] with
        | none =>
            rw [hslot] at hj
            cases hj
        | some b' =>
            rw [hslot] at hj
            exact ⟨rfl, of_decide_eq_true hj⟩
      rw [hunique j hfound, hunique i ⟨some b, hi, rfl, rfl⟩]

/-- An X11 connection at its end: its slot is emptied. -/
theorem Sound.dropX11 {b : Block} {m n i : ℕ} (h : Sound st w) (hi : st.x11List[i]? = some (some b))
    (hb : b.io.masterFd = m ∧ b.io.slaveFd = n) :
    Sound { st with x11List := st.x11List.set i none } ((w.close m).close n) := by
  have hpair : pair (some b) = (m, n) := by
    show (b.io.masterFd.toNat, b.io.slaveFd.toNat) = (m, n)
    rw [hb.1, hb.2]
    rfl
  have hused := used_set (e := none) rfl hi (isNone_some b)
  have hconnected := hused.map pair
  rw [List.map_cons, hpair] at hconnected
  let rest := (used Option.isNone (st.x11List.set i none)).map pair
  have howns : Owns w.table ([m] ++ ([n] ++ (logged st.fdList ++ rest.flatMap ends))) := by
    apply h.owns.perm
    have hends := (hconnected.flatMap_right ends).append_left (logged st.fdList)
    exact hends.trans (List.perm_append_comm_assoc (logged st.fdList) [m, n] _)
  have hm := fun hmem => howns.notMem_left hmem (List.mem_singleton.mpr rfl)
  have hn := fun hmem => howns.right.notMem_left hmem (List.mem_singleton.mpr rfl)
  have hmrest : m ∉ rest.flatMap ends := fun hmem =>
    hm (List.mem_append_right _ (List.mem_append_right _ hmem))
  have hnrest : n ∉ rest.flatMap ends := fun hmem => hn (List.mem_append_right _ hmem)
  have hfirst : rest.Perm (w.seen.x11.filter fun c => decide (c.1 ≠ m ∧ c.2 ≠ m)) := by
    apply filter_perm hconnected h.x11
    · exact decide_eq_false fun hne => hne.1 rfl
    · intro c hc
      apply decide_eq_true
      constructor
      · rintro rfl
        exact hmrest (List.mem_flatMap.mpr ⟨c, hc, List.mem_cons_self⟩)
      · rintro rfl
        exact hmrest (List.mem_flatMap.mpr ⟨c, hc, List.mem_cons_of_mem _ List.mem_cons_self⟩)
  have hlogged : ∀ k : ℕ, k ∉ logged st.fdList → k ∉ w.seen.log := fun k hk hmem =>
    hk (h.log.mem_iff.mpr hmem)
  constructor
  · show (logged st.fdList).Perm ((w.seen.log.filter _).filter _)
    have hmlog : m ∉ logged st.fdList := fun hmem =>
      hm (List.mem_append_right _ (List.mem_append_left _ hmem))
    have hnlog : n ∉ logged st.fdList := fun hmem => hn (List.mem_append_left _ hmem)
    rw [filter_ne (hlogged m hmlog), filter_ne (hlogged n hnlog)]
    exact h.log
  · show rest.Perm ((w.seen.x11.filter _).filter _)
    rw [filter_ends (fun hmem => hnrest ((hfirst.flatMap_right ends).mem_iff.mpr hmem))]
    exact hfirst
  · show (w.seen.pending.filter _).filter _ = none
    rw [h.pending]
    rfl
  · have hclosed := ((moves_close w.table m).frame _).owns howns
    exact ((moves_close (w.table.close m) n).frame _).owns hclosed
  · exact h.empty
  · intro b' hb'
    rcases List.mem_or_eq_of_mem_set hb' with hb' | hnone
    · exact h.filled b' hb'
    · cases hnone
  · have haddresses := hused.map address
    exact (List.nodup_cons.mp (haddresses.nodup_iff.mp h.distinct)).2
  · exact h.logSize
  · show (st.x11List.set i none).length = w.seen.x11Peak
    rw [List.length_set]
    exact h.x11Size

theorem used_update (p : ℕ) (io : IoX11) (bs : Blocks) : used Option.isNone (update p io bs) =
    (used Option.isNone bs).map fun slot =>
      slot.map fun b => if b.address = p then ⟨p, io⟩ else b := by
  unfold used update
  rw [List.filter_map]
  congr 1
  apply List.filter_congr
  intro slot _
  cases slot with
  | none => rfl
  | some b => rfl

/-- What is stored in a block leaves the connections as they are. -/
theorem Sound.update {b : Block} {io : IoX11} (h : Sound st w) (hb : some b ∈ st.x11List)
    (hio : io.masterFd = b.io.masterFd ∧ io.slaveFd = b.io.slaveFd) :
    Sound { st with x11List := update b.address io st.x11List } w := by
  have hsame : ∀ slot ∈ used Option.isNone st.x11List,
      pair (slot.map fun b' => if b'.address = b.address then ⟨b.address, io⟩ else b') = pair slot ∧
      address (slot.map fun b' => if b'.address = b.address then ⟨b.address, io⟩ else b') =
        address slot := by
    intro slot hslot
    cases slot with
    | none => exact ⟨rfl, rfl⟩
    | some b' =>
        rw [Option.map_some]
        by_cases haddress : b'.address = b.address
        · have hblock : some b' = some b :=
            List.inj_on_of_nodup_map h.distinct hslot (mem_used_block hb) haddress
          obtain rfl := Option.some.inj hblock
          rw [if_pos rfl]
          refine ⟨?_, rfl⟩
          show (io.masterFd.toNat, io.slaveFd.toNat) = (b'.io.masterFd.toNat, b'.io.slaveFd.toNat)
          rw [hio.1, hio.2]
        · rw [if_neg haddress]
          exact ⟨rfl, rfl⟩
  have hconnected : connected (ConnectionTables.update b.address io st.x11List) =
      connected st.x11List := by
    unfold connected
    rw [used_update, List.map_map]
    exact List.map_congr_left fun slot hslot => (hsame slot hslot).1
  have haddresses : addresses (ConnectionTables.update b.address io st.x11List) =
      addresses st.x11List := by
    unfold addresses
    rw [used_update, List.map_map]
    exact List.map_congr_left fun slot hslot => (hsame slot hslot).2
  constructor
  · exact h.log
  · rw [hconnected]
    exact h.x11
  · exact h.pending
  · unfold Tables.numbers
    rw [hconnected]
    exact h.owns
  · exact h.empty
  · intro b' hb'
    obtain ⟨slot, hslot, hmap⟩ := List.mem_map.mp hb'
    obtain ⟨b₀, rfl, hb₀⟩ := Option.map_eq_some_iff.mp hmap
    by_cases haddress : b₀.address = b.address
    · rw [if_pos haddress] at hb₀
      obtain rfl := hb₀
      show 0 ≤ io.masterFd ∧ 0 ≤ io.slaveFd
      rw [hio.1, hio.2]
      exact h.filled b hb
    · rw [if_neg haddress] at hb₀
      rw [← hb₀]
      exact h.filled b₀ hslot
  · rw [haddresses]
    exact h.distinct
  · exact h.logSize
  · show (ConnectionTables.update b.address io st.x11List).length = w.seen.x11Peak
    rw [ConnectionTables.update, List.length_map]
    exact h.x11Size

end Tables

/-! Every handler keeps it. -/

section Steps

variable {st : Tables} {w : World} {l : List ℤ} {bs : Blocks} {fds reads writes : FdSet}

theorem logHandleNew_keeps (logFd : ℤ) (h : Sound st w) :
    Keeps .log (logHandleNew logFd fds st.fdList)
      (fun l w' => Sound { st with fdList := l } w' ∧ Extended noFd st.fdList l) w := by
  have hsame : Extended noFd st.fdList st.fdList := extended_of_length noFd rfl
  unfold logHandleNew
  by_cases hready : fdsIsset fds logFd = true
  · rw [if_neg (not_not.mpr hready)]
    intro fd w' hsem
    refine ⟨trivial, ?_⟩
    obtain ⟨table, seen⟩ := w'
    obtain ⟨hanswers, hseen⟩ := hsem
    cases fd with
    | none =>
        obtain rfl : table = w.table := hanswers
        obtain rfl : seen = w.seen := hseen
        exact ⟨h, hsame⟩
    | some n =>
        obtain ⟨hfree, htable⟩ : w.table.files n = none ∧ table = w.table.opened n := hanswers
        obtain rfl := htable
        obtain rfl : seen = w.seen.addLog n := hseen
        apply (unblockFd_keeps n).bind
        rintro _ w' rfl
        refine ⟨h.addLog hfree, ?_⟩
        rw [insertFd_eq]
        exact fillFirst_extends
  · rw [if_pos hready]
    exact ⟨h, hsame⟩

/-- A descriptor that is dropped is in the list. -/
theorem fdFree_keeps {fd : ℤ} (hfd : fd ∈ l) (hpositive : 0 ≤ fd) (h : Sound ⟨l, bs⟩ w) :
    Keeps .log (fdFree fd l) (fun l' w' => Sound ⟨l', bs⟩ w' ∧ l'.length = l.length) w := by
  obtain ⟨n, rfl⟩ := Int.eq_ofNat_of_zero_le hpositive
  rw [fdFree, if_pos hfd]
  apply (xclose_keeps n).bind
  rintro _ w' rfl
  exact ⟨h.dropLog hfd, List.length_replace⟩

theorem copyLog_keeps {fd : ℤ} (total : ℕ) (hfd : fd ∈ l) (hpositive : 0 ≤ fd)
    (h : Sound ⟨l, bs⟩ w) :
    Keeps .log (copyLog fd l total)
      (fun r w' => Sound ⟨r.1, bs⟩ w' ∧ r.1.length = l.length) w := by
  intro data w' hsem
  obtain rfl := same_of_neutral (show Neutral (.read fd (bufsiz - 2)) from trivial) hsem
  refine ⟨trivial, ?_⟩
  have hdropped : Keeps .log ((fdFree fd l).bind fun l' => .ret (l', total))
      (fun r w'' => Sound ⟨r.1, bs⟩ w'' ∧ r.1.length = l.length) w' := by
    apply (fdFree_keeps hfd hpositive h).bind
    intro l' w'' h'
    exact h'
  cases data with
  | none => exact hdropped
  | some data =>
      show Keeps _ (ite _ _ _) _ _
      by_cases hend : data.val = []
      · rw [if_pos hend]
        exact hdropped
      · rw [if_neg hend]
        apply (xwriteAll_keeps 2 (logText data.val) total).bind
        rintro total' w'' rfl
        exact ⟨h, rfl⟩

/-- What is ready is in the list. -/
theorem mem_of_isset {i : ℕ} (h : fdsIsset fds (l.getD i (-1)) = true) :
    l.getD i (-1) ∈ l ∧ 0 ≤ l.getD i (-1) := by
  obtain ⟨n, hn, -⟩ := exists_of_fdsIsset h
  refine ⟨?_, by omega⟩
  by_cases hlt : i < l.length
  · rw [List.getD_eq_getElem l (-1) hlt]
    exact List.getElem_mem hlt
  · rw [List.getD_eq_default l (-1) (Nat.le_of_not_lt hlt)] at hn
    omega

theorem logSelectFrom_keeps (count i total : ℕ) (h : Sound ⟨l, bs⟩ w) :
    Keeps .log (logSelectFrom fds count i l total)
      (fun r w' => Sound ⟨r.1, bs⟩ w' ∧ r.1.length = l.length) w := by
  induction count generalizing i l total w with
  | zero => exact ⟨h, rfl⟩
  | succ count ih =>
      rw [logSelectFrom]
      by_cases hready : fdsIsset fds (l.getD i (-1)) = true
      · rw [if_pos hready]
        obtain ⟨hmem, hpositive⟩ := mem_of_isset hready
        apply (copyLog_keeps total hmem hpositive h).bind
        rintro r w' ⟨h', hlength⟩
        apply (ih (i + 1) r.2 h').mono
        rintro r' w'' ⟨h'', hlength'⟩
        exact ⟨h'', hlength'.trans hlength⟩
      · rw [if_neg hready]
        exact ih (i + 1) total h

/-- `xzalloc` returns no address that is in use. -/
def Fresh (p : ℕ) (l : Blocks) : Prop := ∀ b, some b ∈ l → b.address ≠ p

theorem x11HandleNew_keeps {p : ℕ} (method : Option ConnectMethod) (x11Fd : ℤ)
    (hp : Fresh p st.x11List) (h : Sound st w) :
    Keeps .x11 (x11HandleNew p method x11Fd reads st.x11List)
      (fun bs w' => Sound { st with x11List := bs } w' ∧
        Extended Option.isNone st.x11List bs) w := by
  have hsame : Extended Option.isNone st.x11List st.x11List :=
    extended_of_length Option.isNone rfl
  unfold x11HandleNew
  by_cases hready : fdsIsset reads x11Fd = true
  · rw [if_neg (not_not.mpr hready)]
    intro fd w₁ hsem
    refine ⟨trivial, ?_⟩
    obtain ⟨table, seen⟩ := w₁
    obtain ⟨hanswers, hseen⟩ := hsem
    cases fd with
    | none =>
        obtain rfl : table = w.table := hanswers
        obtain rfl : seen = w.seen := hseen
        exact ⟨h, hsame⟩
    | some a =>
        obtain ⟨hfree, htable⟩ : w.table.files a = none ∧ table = w.table.opened a := hanswers
        obtain rfl := htable
        obtain rfl : seen = { w.seen with pending := some a } := hseen
        have hmoves : Moves w.table (w.table.opened a) [] [a] := moves_opened hfree
        have hopen : Open ⟨w.table.opened a, { w.seen with pending := some a }⟩ := by
          intro n hn
          by_cases hna : n = a
          · rw [hna]
            show ((w.table.opened a).files a).isSome
            rw [Table.opened_self]
            rfl
          · have hold : n ∈ w.seen.numbers := by
              rcases List.mem_append.mp hn with hn | hn
              · exact List.mem_append_left _ hn
              · rcases List.mem_append.mp hn with hn | hn
                · exact List.mem_append_right _ (List.mem_append_left _ hn)
                · exact absurd (List.mem_singleton.mp hn) hna
            show ((w.table.opened a).files n).isSome
            rw [Table.opened_of_ne hna]
            exact h.isOpen n hold
        apply (x11Connect_keeps rfl hopen method).bind
        rintro r w₂ ⟨hseen₂, hmoves₂⟩
        have hboth := hmoves.trans (hmoves₂.frame [a])
        cases r with
        | none =>
            have hnumbers : a ∉ w.seen.numbers := h.isOpen.notMem hfree
            have hdropped : w₂.seen.drop a = w.seen := by
              rw [hseen₂]
              exact drop_pending h.pending hnumbers
            apply (xclose_keeps a).bind
            rintro _ w₃ rfl
            exact ⟨h.moved hdropped (hboth.trans (moves_close w₂.table a)), hsame⟩
        | some m =>
            have hadded : w₂.seen = w.seen.addX11 (m, a) := hseen₂
            apply (unblockFd_keeps m).bind
            rintro _ w₃ rfl
            apply (unblockFd_keeps a).bind
            rintro _ w₄ rfl
            exact ⟨h.addX11 hp hadded hboth, fillFirst_extends⟩
  · rw [if_pos hready]
    exact ⟨h, hsame⟩

/-- An entry that is ready is kept, or its slot is emptied. -/
theorem relay_sound {auth : Option Auth} {b : Block} {i : ℕ} (h : Sound ⟨l, bs⟩ w)
    (hi : bs[i]? = some (some b)) :
    Keeps .x11 (relay auth reads writes b.address b.io bs)
      (fun bs' w' => Sound ⟨l, bs'⟩ w' ∧ bs'.length = bs.length) w := by
  have hmem : some b ∈ bs := List.mem_of_getElem? hi
  obtain ⟨hmaster, hslave⟩ := h.filled b hmem
  obtain ⟨m, hm⟩ := Int.eq_ofNat_of_zero_le hmaster
  obtain ⟨n, hn⟩ := Int.eq_ofNat_of_zero_le hslave
  rw [relay_eq (findIdx_block h.distinct hi)]
  apply (relay_keeps ⟨hm, hn⟩).bind
  rintro r w' (⟨io, rfl, hmaster', hslave', rfl⟩ | ⟨rfl, rfl⟩)
  · exact ⟨h.update hmem ⟨hmaster'.trans hm.symm, hslave'.trans hn.symm⟩, List.length_map _⟩
  · exact ⟨h.dropX11 hi ⟨hm, hn⟩, List.length_set⟩

theorem getElem?_of_getD {b : Block} {i : ℕ} (h : bs.getD i none = some b) :
    bs[i]? = some (some b) := by
  rw [List.getD_eq_getElem?_getD] at h
  cases hget : bs[i]? with
  | none =>
      rw [hget] at h
      cases h
  | some slot =>
      rw [hget] at h
      obtain rfl : slot = some b := h
      rfl

theorem x11SelectFrom_keeps {auth : Option Auth} (count i : ℕ) (h : Sound ⟨l, bs⟩ w) :
    Keeps .x11 (x11SelectFrom auth reads writes count i bs)
      (fun bs' w' => Sound ⟨l, bs'⟩ w' ∧ bs'.length = bs.length) w := by
  induction count generalizing i bs w with
  | zero => exact ⟨h, rfl⟩
  | succ count ih =>
      rw [x11SelectFrom]
      cases hslot : bs.getD i none with
      | none => exact ih (i + 1) h
      | some b =>
          apply (relay_sound h (getElem?_of_getD hslot)).bind
          rintro bs' w' ⟨h', hlength⟩
          apply (ih (i + 1) h').mono
          rintro bs'' w'' ⟨h'', hlength'⟩
          exact ⟨h'', hlength'.trans hlength⟩

end Steps

/-! What the handlers can die of. -/

section Complaints

/-- The complaints that do not come from a table. -/
def Other (why : String) : Prop :=
  (∀ fd count, why ≠ fdNotFound fd count) ∧ ∀ p count, why ≠ entryNotFound p count

theorem fdNotFound_head (fd : ℤ) (count : ℕ) : (fdNotFound fd count).toList.head? = some 'd' := by
  simp [fdNotFound, toString]

theorem entryNotFound_head (p count : ℕ) : (entryNotFound p count).toList.head? = some 'e' := by
  simp [entryNotFound, toString]

theorem other_of_head {why : String} {c : Char} (h : why.toList.head? = some c) (hd : c ≠ 'd')
    (he : c ≠ 'e') : Other why := by
  constructor
  · rintro fd count rfl
    rw [fdNotFound_head] at h
    exact hd (Option.some.inj h).symm
  · rintro p count rfl
    rw [entryNotFound_head] at h
    exact he (Option.some.inj h).symm

variable {fds reads writes : FdSet}

theorem unblockFd_dies (fd : ℤ) : (unblockFd fd).Dies Other := by
  intro r
  cases r with
  | true => trivial
  | false => exact other_of_head (c := 'f') rfl (by decide) (by decide)

theorem xclose_dies (fd : ℤ) : (xclose fd).Dies Other := by
  rw [xclose]
  split_ifs
  · trivial
  · exact fun _ => trivial

theorem xwriteAll_dies (fd : ℤ) (buffer : Bytes) (total : ℕ) :
    (xwriteAll fd buffer total).Dies Other := by
  have hwrite : Other "write" := other_of_head (c := 'w') rfl (by decide) (by decide)
  rw [xwriteAll]
  split_ifs
  · trivial
  · intro n
    cases n with
    | none => exact hwrite
    | some n =>
        show Prog.Dies _ (ite _ _ _)
        split_ifs
        · exact hwrite
        · trivial

theorem logHandleNew_dies (logFd : ℤ) (l : List ℤ) : (logHandleNew logFd fds l).Dies Other := by
  unfold logHandleNew
  split_ifs
  · intro fd
    cases fd with
    | none => trivial
    | some fd => exact (unblockFd_dies fd).bind fun _ => trivial
  · trivial

/-- The loop looks for what it has just seen. -/
theorem copyLog_dies {fd : ℤ} {l : List ℤ} (hfd : fd ∈ l) (total : ℕ) :
    (copyLog fd l total).Dies Other := by
  have hfree : (fdFree fd l).Dies Other := by
    rw [fdFree, if_pos hfd]
    exact (xclose_dies fd).bind fun _ => trivial
  intro data
  cases data with
  | none => exact hfree.bind fun _ => trivial
  | some data =>
      show Prog.Dies _ (ite _ _ _)
      split_ifs
      · exact hfree.bind fun _ => trivial
      · exact (xwriteAll_dies 2 (logText data.val) total).bind fun _ => trivial

theorem logSelectFrom_dies (count i total : ℕ) (l : List ℤ) :
    (logSelectFrom fds count i l total).Dies Other := by
  induction count generalizing i l total with
  | zero => trivial
  | succ count ih =>
      rw [logSelectFrom]
      by_cases hready : fdsIsset fds (l.getD i (-1)) = true
      · rw [if_pos hready]
        exact (copyLog_dies (mem_of_isset hready).1 total).bind fun r => ih (i + 1) r.2 r.1
      · rw [if_neg hready]
        exact ih (i + 1) total l

theorem x11ConnectAddress_dies (n : ℕ) : (x11ConnectAddress n).Dies Other := by
  induction n with
  | zero => trivial
  | succ n ih =>
      intro fd
      cases fd with
      | none => exact ih
      | some fd =>
          intro connected
          cases connected with
          | true => trivial
          | false => exact (xclose_dies fd).bind fun _ => ih

theorem x11Connect_dies (method : Option ConnectMethod) : (x11Connect method).Dies Other := by
  rcases method with _ | ⟨dirFd⟩ | _
  · trivial
  · refine Prog.Dies.bind ?_ fun _ _ => trivial
    intro entered
    cases entered with
    | false => trivial
    | true =>
        intro fd
        cases fd with
        | none => trivial
        | some fd =>
            intro connected
            cases connected with
            | true => trivial
            | false => exact (xclose_dies fd).bind fun _ => trivial
  · intro addresses
    cases addresses with
    | none => trivial
    | some n => exact x11ConnectAddress_dies n

theorem x11HandleNew_dies (p : ℕ) (method : Option ConnectMethod) (x11Fd : ℤ) (bs : Blocks) :
    (x11HandleNew p method x11Fd reads bs).Dies Other := by
  unfold x11HandleNew
  split_ifs
  · intro fd
    cases fd with
    | none => trivial
    | some a =>
        apply (x11Connect_dies method).bind
        intro m
        cases m with
        | none => exact (xclose_dies a).bind fun _ => trivial
        | some m => exact (unblockFd_dies m).bind fun _ => (unblockFd_dies a).bind fun _ => trivial
  · trivial

theorem half_dies {step : IoProg (Option Buffer)} {f : Buffer → IoX11}
    (h : step.Dies Other) : (step.bind fun b => .ret (b.map f)).Dies Other :=
  h.bind fun _ => trivial

theorem writeOut_dies (fd : ℤ) (b : Buffer) : (writeOut fd b).Dies Other := by
  intro r
  cases r with
  | none => trivial
  | some n =>
      show Prog.Dies _ (ite _ _ _)
      split_ifs <;> trivial

theorem readIn_dies (fd : ℤ) (b : Buffer) : (readIn fd b).Dies Other := by
  intro r
  cases r with
  | none => trivial
  | some d =>
      show Prog.Dies _ (ite _ _ _)
      split_ifs <;> trivial

/-- The entry that is relayed is in the table, so it is found when it is dropped. -/
theorem orFree_dies {b : Block} {bs : Blocks} {io : IoX11} {step : IoProg (Option IoX11)}
    {next : IoX11 → IoProg Blocks} (hb : some b ∈ bs) (hstep : step.Dies Other)
    (hnext : ∀ io, (next io).Dies Other) : (orFree b.address io bs step next).Dies Other := by
  apply hstep.bind
  intro r
  cases r with
  | none =>
      have hpoints : pointsTo b.address (some b) = true := decide_eq_true rfl
      show (ioX11Free b.address io bs).Dies Other
      unfold ioX11Free
      cases hfind : bs.findIdx? (pointsTo b.address) with
      | none =>
          have hnone := List.findIdx?_eq_none_iff.mp hfind (some b) hb
          rw [hpoints] at hnone
          cases hnone
      | some i =>
          exact (xclose_dies io.masterFd).bind fun _ =>
            (xclose_dies io.slaveFd).bind fun _ => trivial
  | some io' => exact hnext io'

theorem relay_dies {auth : Option Auth} {b : Block} {bs : Blocks} (hb : some b ∈ bs) :
    (relay auth reads writes b.address b.io bs).Dies Other := by
  apply orFree_dies hb
  · unfold writeSlave
    split_ifs
    · exact half_dies (writeOut_dies _ _)
    · trivial
  intro io
  apply orFree_dies hb
  · unfold readMaster
    split_ifs
    · exact half_dies (readIn_dies _ _)
    · trivial
  intro io
  apply orFree_dies hb
  · unfold writeMaster
    split_ifs
    · exact half_dies (writeOut_dies _ _)
    · trivial
  intro io
  apply orFree_dies hb
  · unfold readSlave
    split_ifs
    · exact half_dies (readIn_dies _ _)
    · trivial
  intro io
  trivial

theorem x11SelectFrom_dies {auth : Option Auth} (count i : ℕ) (bs : Blocks) :
    (x11SelectFrom auth reads writes count i bs).Dies Other := by
  induction count generalizing i bs with
  | zero => trivial
  | succ count ih =>
      rw [x11SelectFrom]
      cases hslot : bs.getD i none with
      | none => exact ih (i + 1) bs
      | some b =>
          have hb : some b ∈ bs := List.mem_of_getElem? (getElem?_of_getD hslot)
          exact (relay_dies hb).bind fun bs' => ih (i + 1) bs'

end Complaints

/-! Runs. -/

/-- The handlers, with what their callers give them and what `xzalloc` returns. -/
inductive Action
  | logNew (logFd : ℤ) (fds : FdSet)
  | logSelect (fds : FdSet) (totalBytesWritten : ℕ)
  | x11New (p : ℕ) (method : Option ConnectMethod) (x11Fd : ℤ) (reads : FdSet)
  | x11Select (auth : Option Auth) (reads writes : FdSet)

def Action.listener : Action → Listener
  | .logNew _ _ | .logSelect _ _ => .log
  | .x11New _ _ _ _ | .x11Select _ _ _ => .x11

def Action.run (a : Action) (st : Tables) : IoProg Tables :=
  match a with
  | .logNew logFd fds => do return { st with fdList := ← logHandleNew logFd fds st.fdList }
  | .logSelect fds total => do
      return { st with fdList := (← logHandleSelect fds st.fdList total).1 }
  | .x11New p method x11Fd reads => do
      return { st with x11List := ← x11HandleNew p method x11Fd reads st.x11List }
  | .x11Select auth reads writes => do
      return { st with x11List := ← x11HandleSelect auth reads writes st.x11List }

def Action.Allowed (st : Tables) : Action → Prop
  | .x11New p _ _ _ => Fresh p st.x11List
  | _ => True

/-- The handlers in any order. Between them other descriptors may come and go. -/
inductive Reached : Tables → World → Prop
  | start (t : Table) : Reached {} ⟨t, {}⟩
  | handler {st st' : Tables} {w w' : World} {a : Action} {tr : List (Step World IoRes)}
      (h : Reached st w) (ha : a.Allowed st)
      (hrun : Exec (· = ·) (Sem a.listener) (a.run st) w tr (.returned st') w') : Reached st' w'
  | others {st : Tables} {w : World} {t : Table} (h : Reached st w)
      (hlive : ∀ n ∈ w.seen.numbers, t.files n = w.table.files n) : Reached st ⟨t, w.seen⟩

section Runs

variable {st st' : Tables} {w w' : World} {a : Action} {tr : List (Step World IoRes)}

theorem action_keeps (ha : a.Allowed st) (h : Sound st w) :
    Keeps a.listener (a.run st) (fun st' w' => Sound st' w' ∧
      Extended noFd st.fdList st'.fdList ∧ Extended Option.isNone st.x11List st'.x11List) w := by
  have hlog : Extended noFd st.fdList st.fdList := extended_of_length noFd rfl
  have hx11 : Extended Option.isNone st.x11List st.x11List :=
    extended_of_length Option.isNone rfl
  cases a with
  | logNew logFd fds =>
      apply (logHandleNew_keeps logFd h).bind
      rintro l w' ⟨h', hextended⟩
      exact ⟨h', hextended, hx11⟩
  | logSelect fds total =>
      apply (logSelectFrom_keeps st.fdList.length 0 total h).bind
      rintro r w' ⟨h', hlength⟩
      exact ⟨h', extended_of_length noFd hlength, hx11⟩
  | x11New p method x11Fd reads =>
      apply (x11HandleNew_keeps method x11Fd ha h).bind
      rintro bs w' ⟨h', hextended⟩
      exact ⟨h', hlog, hextended⟩
  | x11Select auth reads writes =>
      apply (x11SelectFrom_keeps st.x11List.length 0 h).bind
      rintro bs w' ⟨h', hlength⟩
      exact ⟨h', hlog, extended_of_length Option.isNone hlength⟩

theorem action_dies (a : Action) (st : Tables) : (a.run st).Dies Other := by
  cases a with
  | logNew logFd fds => exact (logHandleNew_dies logFd st.fdList).bind fun _ => trivial
  | logSelect fds total =>
      exact (logSelectFrom_dies st.fdList.length 0 total st.fdList).bind fun _ => trivial
  | x11New p method x11Fd reads =>
      exact (x11HandleNew_dies p method x11Fd st.x11List).bind fun _ => trivial
  | x11Select auth reads writes =>
      exact (x11SelectFrom_dies st.x11List.length 0 st.x11List).bind fun _ => trivial

theorem reached_sound (h : Reached st w) : Sound st w := by
  induction h with
  | start t =>
      refine ⟨.refl _, .refl _, rfl, ⟨List.nodup_nil, ?_⟩, ?_, ?_, List.nodup_nil, rfl, rfl⟩
      · intro n hn
        cases hn
      · intro fd hfd
        cases hfd
      · intro b hb
        cases hb
  | handler h ha hrun ih => exact (((action_keeps ha ih).exec hrun).2 _ rfl).1
  | others h hlive ih =>
      refine ⟨ih.log, ih.x11, ih.pending, ⟨ih.owns.1, ?_⟩, ih.empty, ih.filled, ih.distinct,
        ih.logSize, ih.x11Size⟩
      intro n hn
      rw [hlive n (ih.numbers_perm.mem_iff.mp hn)]
      exact ih.owns.2 n hn

/-- What the handler returns and what it does not die of. -/
theorem action_exec {out : Outcome Tables} (hs : Sound st w) (ha : a.Allowed st)
    (hrun : Exec (· = ·) (Sem a.listener) (a.run st) w tr out w') :
    (∀ why, out = .died why → Other why) ∧
      ∀ st', out = .returned st' → Extended noFd st.fdList st'.fdList ∧
        Extended Option.isNone st.x11List st'.x11List := by
  constructor
  · rintro why rfl
    exact hrun.runs.dies (action_dies a st)
  · rintro st' rfl
    exact (((action_keeps ha hs).exec hrun).2 st' rfl).2

theorem Sound.logSlots (h : Sound st w) :
    w.seen.log.Nodup ∧ (∀ n ∈ w.seen.log, ∃! i : ℕ, st.fdList[i]? = some (n : ℤ)) ∧
      ∀ fd ∈ st.fdList, fd = -1 ∨ ∃ n ∈ w.seen.log, fd = n := by
  have hnodup : (logged st.fdList).Nodup := (h.owns.left).1
  refine ⟨h.log.nodup_iff.mp hnodup, ?_, ?_⟩
  · intro n hn
    obtain ⟨i, ⟨fd, hi, hfd, htoNat⟩, hunique⟩ := exactly_one hnodup (h.log.mem_iff.mpr hn)
    have hpositive : ¬ fd < 0 := of_decide_eq_false hfd
    have hvalue : fd = n := by omega
    refine ⟨i, ?_, ?_⟩
    · rw [← hvalue]
      exact hi
    · intro j hj
      exact hunique j ⟨n, hj, noFd_natCast n, rfl⟩
  · intro fd hfd
    by_cases hneg : fd < 0
    · exact Or.inl (h.empty fd hfd hneg)
    · have hused : fd ∈ used noFd st.fdList := mem_used.mpr ⟨hfd, decide_eq_false hneg⟩
      have hlive : fd.toNat ∈ w.seen.log := h.log.mem_iff.mp (List.mem_map_of_mem hused)
      exact Or.inr ⟨fd.toNat, hlive, by omega⟩

theorem nodup_of_ends {l : List (ℕ × ℕ)} (h : (l.flatMap ends).Nodup) : l.Nodup := by
  obtain ⟨-, hdisjoint⟩ := List.nodup_flatMap.mp h
  apply hdisjoint.imp
  rintro c d hcd rfl
  exact hcd List.mem_cons_self List.mem_cons_self

theorem Sound.x11Slots (h : Sound st w) :
    w.seen.x11.Nodup ∧
      (∀ c ∈ w.seen.x11, ∃! i : ℕ, ∃ b, st.x11List[i]? = some (some b) ∧ b.io.masterFd = c.1 ∧
        b.io.slaveFd = c.2) ∧
      ∀ b, some b ∈ st.x11List → ∃ c ∈ w.seen.x11, b.io.masterFd = c.1 ∧ b.io.slaveFd = c.2 := by
  have hnodup : (connected st.x11List).Nodup := nodup_of_ends (h.owns.right).1
  have hpair : ∀ b, some b ∈ st.x11List →
      b.io.masterFd = (pair (some b)).1 ∧ b.io.slaveFd = (pair (some b)).2 := by
    intro b hb
    obtain ⟨hmaster, hslave⟩ := h.filled b hb
    exact ⟨(Int.toNat_of_nonneg hmaster).symm, (Int.toNat_of_nonneg hslave).symm⟩
  refine ⟨h.x11.nodup_iff.mp hnodup, ?_, ?_⟩
  · intro c hc
    obtain ⟨i, ⟨slot, hi, hslot, hkey⟩, hunique⟩ := exactly_one hnodup (h.x11.mem_iff.mpr hc)
    cases slot with
    | none => cases hslot
    | some b =>
        refine ⟨i, ⟨b, hi, ?_⟩, ?_⟩
        · rw [← hkey]
          exact hpair b (List.mem_of_getElem? hi)
        · rintro j ⟨b', hj, hmaster, hslave⟩
          apply hunique j
          refine ⟨some b', hj, rfl, ?_⟩
          show (b'.io.masterFd.toNat, b'.io.slaveFd.toNat) = c
          rw [hmaster, hslave]
          rfl
  · intro b hb
    have hlive : pair (some b) ∈ w.seen.x11 :=
      h.x11.mem_iff.mp (List.mem_map_of_mem (mem_used_block hb))
    exact ⟨pair (some b), hlive, hpair b hb⟩

end Runs

/-! The table that the loop hands on. -/

section Contents

variable {front back bs : Blocks} {auth : Option Auth} {reads writes : FdSet} {p : ℕ} {b : Block}

theorem addresses_split : addresses (front ++ some b :: back) =
    addresses front ++ b.address :: addresses back := by
  unfold addresses used
  rw [List.filter_append, List.map_append, List.filter_cons_of_pos rfl, List.map_cons]
  rfl

theorem addresses_skip : addresses (front ++ none :: back) = addresses front ++ addresses back := by
  unfold addresses used
  rw [List.filter_append, List.map_append, List.filter_cons_of_neg (p := _) Bool.false_ne_true]

theorem update_of_notMem {io : IoX11} (h : p ∉ addresses bs) : update p io bs = bs := by
  unfold update
  rw [List.map_congr_left, List.map_id]
  intro slot hslot
  cases slot with
  | none => rfl
  | some b =>
      have hne : b.address ≠ p := by
        rintro rfl
        exact h (List.mem_map_of_mem (f := address) (mem_used_block hslot))
      rw [Option.map_some, if_neg hne]
      rfl

/-- An entry is settled in its own slot. -/
theorem settle_eq (h : (addresses (front ++ some b :: back)).Nodup) (r : Option IoX11) :
    settle b.address front.length (front ++ some b :: back) r =
      front ++ r.map (Block.mk b.address) :: back := by
  rw [addresses_split] at h
  obtain ⟨-, hback, hdisjoint⟩ := List.nodup_append.mp h
  cases r with
  | none =>
      show (front ++ some b :: back).set front.length none = _
      rw [List.set_append_right _ _ (Nat.le_refl _), Nat.sub_self]
      rfl
  | some io =>
      have hfront : b.address ∉ addresses front := fun hmem =>
        hdisjoint _ hmem _ List.mem_cons_self rfl
      have hrest : b.address ∉ addresses back := (List.nodup_cons.mp hback).1
      have happend : update b.address io (front ++ some b :: back) =
          update b.address io front ++
            (some (if b.address = b.address then ⟨b.address, io⟩ else b)) ::
              update b.address io back := List.map_append
      show update b.address io _ = _
      rw [happend, update_of_notMem hfront, update_of_notMem hrest, if_pos rfl]
      rfl

theorem settle_nodup (h : (addresses (front ++ some b :: back)).Nodup) (r : Option IoX11) :
    (addresses (front ++ r.map (Block.mk b.address) :: back)).Nodup := by
  cases r with
  | none =>
      rw [addresses_split] at h
      rw [Option.map_none, addresses_skip]
      exact h.sublist ((List.sublist_cons_self _ _).append_left _)
  | some io =>
      rw [addresses_split] at h
      rw [Option.map_some, addresses_split]
      exact h

theorem contents_split {slot : Option Block} :
    contents (front ++ slot :: back) = contents front ++ slot.map Block.io :: contents back :=
  List.map_append

/-- The rest of the loop does what the loop over the rest of the table does. -/
theorem selectFrom_contents (auth : Option Auth) (reads writes : FdSet) (front back : Blocks)
    (h : (addresses (front ++ back)).Nodup) :
    (x11SelectFrom auth reads writes back.length front.length (front ++ back)).bind
        (fun bs' => .ret (contents bs')) =
      (X11.x11HandleSelect auth reads writes (contents back)).bind
        fun l => .ret (contents front ++ l) := by
  induction back generalizing front with
  | nil =>
      show Prog.ret (contents (front ++ [])) = Prog.ret (contents front ++ [])
      rw [List.append_nil, List.append_nil]
  | cons slot back ih =>
      have hget : (front ++ slot :: back).getD front.length none = slot := by
        rw [List.getD_append_right _ _ _ _ (Nat.le_refl _), Nat.sub_self]
        rfl
      have hnext : ∀ slot' : Option Block, (addresses (front ++ slot' :: back)).Nodup →
          (x11SelectFrom auth reads writes back.length (front.length + 1)
              (front ++ slot' :: back)).bind (fun bs' => .ret (contents bs')) =
            (X11.x11HandleSelect auth reads writes (contents back)).bind
              fun l => .ret (contents front ++ slot'.map Block.io :: l) := by
        intro slot' hnodup
        have hlist : front ++ slot' :: back = (front ++ [slot']) ++ back :=
          (List.append_cons front slot' back)
        have hrest := ih (front ++ [slot']) (hlist ▸ hnodup)
        rw [List.length_append, List.length_singleton, ← hlist, contents_split] at hrest
        rw [hrest]
        congr 1
        funext l
        rw [List.append_assoc]
        rfl
      rw [List.length_cons, x11SelectFrom, hget]
      cases slot with
      | none =>
          rw [hnext none h]
          show _ = ((X11.x11HandleSelect auth reads writes (contents back)).bind
            fun l => .ret (none :: l)).bind _
          rw [prog_bind_assoc]
          rfl
      | some b =>
          have hi : (front ++ some b :: back)[front.length]? = some (some b) := by
            rw [List.getElem?_append_right (Nat.le_refl _), Nat.sub_self]
            rfl
          show ((relay auth reads writes b.address b.io _).bind fun l =>
            x11SelectFrom auth reads writes back.length (front.length + 1) l).bind _ = _
          rw [relay_eq (findIdx_block h hi), prog_bind_assoc, prog_bind_assoc]
          show _ = ((X11.relay auth reads writes b.io).bind fun r =>
            (X11.x11HandleSelect auth reads writes (contents back)).bind
              fun l => .ret (r :: l)).bind _
          rw [prog_bind_assoc]
          congr 1
          funext r
          show (x11SelectFrom auth reads writes back.length (front.length + 1)
            (settle b.address front.length (front ++ some b :: back) r)).bind _ = _
          rw [settle_eq h, hnext _ (settle_nodup h r), prog_bind_assoc]
          congr 1
          funext l
          cases r <;> rfl

/-- Without the addresses, the handler is the one that `handle_io` calls. -/
theorem x11HandleSelect_contents (h : (addresses bs).Nodup) :
    (x11HandleSelect auth reads writes bs).bind (fun bs' => .ret (contents bs')) =
      X11.x11HandleSelect auth reads writes (contents bs) := by
  have hloop := selectFrom_contents auth reads writes [] bs h
  have hsame : (X11.x11HandleSelect auth reads writes (contents bs)).bind
      (fun l => .ret (contents [] ++ l)) = X11.x11HandleSelect auth reads writes (contents bs) :=
    bind_ret_self _
  rw [List.nil_append, hsame] at hloop
  exact hloop

theorem contents_fillFirst (io : IoX11) :
    contents (fillFirst Option.isNone (some ⟨p, io⟩) bs) = insertFirst io (contents bs) := by
  induction bs with
  | nil => rfl
  | cons slot bs ih =>
      cases slot with
      | none => rfl
      | some b =>
          show some b.io :: contents (fillFirst Option.isNone (some ⟨p, io⟩) bs) = _
          rw [ih]
          rfl

theorem x11HandleNew_contents (method : Option ConnectMethod) (x11Fd : ℤ) :
    (x11HandleNew p method x11Fd reads bs).bind (fun bs' => .ret (contents bs')) =
      X11.x11HandleNew method x11Fd reads (contents bs) := by
  unfold x11HandleNew X11.x11HandleNew
  by_cases hready : ¬ fdsIsset reads x11Fd = true
  · rw [if_pos hready, if_pos hready]
    rfl
  · rw [if_neg hready, if_neg hready]
    show Prog.call _ _ = Prog.call _ _
    congr 1
    funext fd
    cases fd with
    | none => rfl
    | some a =>
        show ((x11Connect method).bind _).bind _ = (x11Connect method).bind _
        rw [prog_bind_assoc]
        congr 1
        funext r
        cases r with
        | none =>
            show ((xclose a).bind _).bind _ = (xclose a).bind _
            rw [prog_bind_assoc]
            rfl
        | some m =>
            show ((unblockFd m).bind fun _ => (unblockFd a).bind _).bind _ =
              (unblockFd m).bind fun _ => (unblockFd a).bind _
            rw [prog_bind_assoc]
            congr 1
            funext _
            rw [prog_bind_assoc]
            congr 1
            funext _
            show Prog.ret (contents _) = Prog.ret (insertFirst _ _)
            rw [contents_fillFirst]

end Contents

/-- For every sequence of connections that are accepted, refused and dropped, where a descriptor
that is open is not given out again: every live connection is in one slot of its table, every other
slot is empty, and a table has as many slots as there ever were live connections at once. A handler
extends a table only when all its slots are used, and does not die because it does not find what it
looks for. Without the addresses the handlers are those that `handle_io` calls. -/
theorem connections_in_one_slot {st : Tables} {w : World} (h : Reached st w) :
    (w.seen.log.Nodup ∧ (∀ n ∈ w.seen.log, ∃! i : ℕ, st.fdList[i]? = some (n : ℤ)) ∧
      (∀ fd ∈ st.fdList, fd = -1 ∨ ∃ n ∈ w.seen.log, fd = n) ∧
      st.fdList.length = w.seen.logPeak) ∧
    (w.seen.x11.Nodup ∧
      (∀ c ∈ w.seen.x11, ∃! i : ℕ, ∃ b, st.x11List[i]? = some (some b) ∧ b.io.masterFd = c.1 ∧
        b.io.slaveFd = c.2) ∧
      (∀ b, some b ∈ st.x11List → ∃ c ∈ w.seen.x11, b.io.masterFd = c.1 ∧ b.io.slaveFd = c.2) ∧
      st.x11List.length = w.seen.x11Peak) ∧
    (∀ (a : Action) tr out w', a.Allowed st → Exec (· = ·) (Sem a.listener) (a.run st) w tr out w' →
      (∀ fd count, out ≠ .died (fdNotFound fd count)) ∧
      (∀ p count, out ≠ .died (entryNotFound p count)) ∧
      ∀ st', out = .returned st' →
        (st.fdList.length < st'.fdList.length → ∀ fd ∈ st.fdList, 0 ≤ fd) ∧
        (st.x11List.length < st'.x11List.length → ∀ slot ∈ st.x11List, slot ≠ none)) ∧
    (∀ auth reads writes, (x11HandleSelect auth reads writes st.x11List).bind
        (fun l => .ret (contents l)) = X11.x11HandleSelect auth reads writes (contents st.x11List)) ∧
    ∀ p method x11Fd reads, (x11HandleNew p method x11Fd reads st.x11List).bind
      (fun l => .ret (contents l)) = X11.x11HandleNew method x11Fd reads (contents st.x11List) := by
  have hs := reached_sound h
  obtain ⟨hlogNodup, hlogOne, hlogEmpty⟩ := hs.logSlots
  obtain ⟨hx11Nodup, hx11One, hx11Empty⟩ := hs.x11Slots
  refine ⟨⟨hlogNodup, hlogOne, hlogEmpty, hs.logSize⟩,
    ⟨hx11Nodup, hx11One, hx11Empty, hs.x11Size⟩, ?_,
    fun _ _ _ => x11HandleSelect_contents hs.distinct,
    fun _ method x11Fd _ => x11HandleNew_contents method x11Fd⟩
  intro a tr out w' ha hrun
  obtain ⟨hdied, hreturned⟩ := action_exec hs ha hrun
  refine ⟨?_, ?_, ?_⟩
  · intro fd count hout
    exact (hdied _ hout).1 fd count rfl
  · intro p count hout
    exact (hdied _ hout).2 p count rfl
  · intro st' hst'
    obtain ⟨hlog, hx11⟩ := hreturned st' hst'
    constructor
    · intro hlt fd hfd
      have hused : ¬ fd < 0 := of_decide_eq_false (hlog hlt fd hfd)
      omega
    · rintro hlt slot hslot rfl
      cases hx11 hlt none hslot

/-! A log connection whose number comes back for an X11 connection. -/

private def listening : World where
  table := { files := fun _ => none, next := 0, fresh := nofun }

private def logAccepted : World := ⟨listening.table.opened 10, listening.seen.addLog 10⟩

private def logDropped : World := logAccepted.close 10

private def x11Accepted : World :=
  ⟨logDropped.table.opened 10, { logDropped.seen with pending := some 10 }⟩

private def x11Socket : World := ⟨x11Accepted.table.opened 11, x11Accepted.seen⟩

private def x11Connected : World := ⟨x11Socket.table, x11Socket.seen.addX11 (11, 10)⟩

private def acceptLogSteps : List (Step World IoRes) :=
  [⟨listening, ⟨.accept 7, some 10⟩, logAccepted⟩,
    ⟨logAccepted, ⟨.unblockFd 10, true⟩, logAccepted⟩]

private def dropLogSteps : List (Step World IoRes) :=
  [⟨logAccepted, ⟨.read 10 8190, none⟩, logAccepted⟩, ⟨logAccepted, ⟨.close 10, ()⟩, logDropped⟩]

private def acceptX11Steps : List (Step World IoRes) :=
  [⟨logDropped, ⟨.accept 6, some 10⟩, x11Accepted⟩,
    ⟨x11Accepted, ⟨.getaddrinfo, some 1⟩, x11Accepted⟩,
    ⟨x11Accepted, ⟨.socket, some 11⟩, x11Socket⟩,
    ⟨x11Socket, ⟨.connect 11, true⟩, x11Connected⟩,
    ⟨x11Connected, ⟨.unblockFd 11, true⟩, x11Connected⟩,
    ⟨x11Connected, ⟨.unblockFd 10, true⟩, x11Connected⟩]

private def x11Block : Block := ⟨4096, { masterFd := 11, slaveFd := 10 }⟩

private theorem logDropped_reached : Reached ⟨[-1], []⟩ logDropped := by
  have haccept : Runs ((Action.logNew 7 [7]).run {}) (acceptLogSteps.map Step.event)
      (.returned ⟨[10], []⟩) := Prog.runs_of_replay rfl
  have hdrop : Runs ((Action.logSelect [10] 0).run ⟨[10], []⟩) (dropLogSteps.map Step.event)
      (.returned ⟨[-1], []⟩) := Prog.runs_of_replay rfl
  have haccepted : Reached ⟨[10], []⟩ logAccepted :=
    .handler (a := .logNew 7 [7]) (.start _) trivial
      (haccept.exec ⟨rfl, ⟨⟨rfl, rfl⟩, rfl⟩, rfl, ⟨rfl, rfl⟩, rfl⟩)
  exact .handler (a := .logSelect [10] 0) haccepted trivial
    (hdrop.exec ⟨rfl, ⟨rfl, rfl⟩, rfl, ⟨rfl, rfl⟩, rfl⟩)

private theorem x11Connected_reached : Reached ⟨[-1], [some x11Block]⟩ x11Connected := by
  have hrun : Runs ((Action.x11New 4096 (some .inet) 6 [6]).run ⟨[-1], []⟩)
      (acceptX11Steps.map Step.event) (.returned ⟨[-1], [some x11Block]⟩) :=
    Prog.runs_of_replay rfl
  have hfresh : Fresh 4096 [] := by
    intro b hb
    cases hb
  refine .handler (a := .x11New 4096 (some .inet) 6 [6]) logDropped_reached hfresh (hrun.exec ?_)
  exact ⟨rfl, ⟨⟨rfl, rfl⟩, rfl⟩, rfl, ⟨rfl, rfl⟩, rfl, ⟨⟨rfl, rfl⟩, rfl⟩, rfl, ⟨rfl, rfl⟩, rfl,
    ⟨rfl, rfl⟩, rfl, ⟨rfl, rfl⟩, rfl⟩

theorem connections_in_one_slot_sample :
    (∀ fd ∈ [(-1 : ℤ)], fd = -1 ∨ ∃ n ∈ x11Connected.seen.log, fd = n) ∧
      ∃! i : ℕ, ∃ b, [some x11Block][i]? = some (some b) ∧ b.io.masterFd = (11 : ℕ) ∧
        b.io.slaveFd = (10 : ℕ) := by
  obtain ⟨⟨-, -, hlog, -⟩, ⟨-, hx11, -⟩, -⟩ := connections_in_one_slot x11Connected_reached
  exact ⟨hlog, hx11 (11, 10) List.mem_cons_self⟩

end HasherPriv.IoLoop.ConnectionTables
