/- GID: HasherPriv/SessionService/MainLoop
   layer: session
   source: hasher-privd.c, caller_server.c
   digest: The loop of the main server: which sessions it has not forgotten, and how it ends. -/

import HasherPriv.SessionService.MainServer
import Mathlib.Algebra.Order.BigOperators.Group.List

set_option autoImplicit false
set_option relaxedAutoImplicit false

namespace HasherPriv.SessionService.MainLoop

open Foundations.Descent (Run replay run_of_replay)
open Protocol.Communication
open Daemon (Host Session)
open CallerServer
open MainServer (findProc setPhase)

/-- The signals that `daemon_create_signal_fd` blocks. -/
inductive Signal
  | sighup
  | sigint
  | sigquit
  | sigterm
  | sigchld
  deriving DecidableEq

/-- The next call of the main server; `conn` tells whether its socket is ready in this turn, too. -/
inductive Position
  | epollWait
  | readSignal (conn : Bool)
  /-- In `wait_sessions (WNOHANG)`. -/
  | waitSessions (conn : Bool)
  | accept4
  /-- Before the end of `process_request`. -/
  | respond
  | closePipe
  /-- In `wait_sessions (0)`. -/
  | waitAll
  | removePid
  | returned
  deriving DecidableEq

/-- `finish_server` is set, or the loop has been left with an error. -/
def Position.Finishing : Position → Bool
  | .closePipe | .waitAll | .removePid | .returned => true
  | .epollWait | .readSignal _ | .waitSessions _ | .accept4 | .respond => false

/-- Behind the loop over the signal events. -/
def secondLoop (conn : Bool) : Position := if conn then .accept4 else .epollWait

/-- `base` is what the model of the sessions knows. -/
structure State where
  base : MainServer.State := {}
  position : Position := .epollWait
  pending : Signal → Bool := fun _ => false
  /-- The main server has `fd_pipe[1]`; `holders` are the session servers that still have it. -/
  pipeOpen : Bool := true
  holders : List ℕ := []
  /-- The session servers that have found a connection in this turn of their loop. -/
  serving : List ℕ := []
  /-- The pidfile has not been removed. -/
  pidfile : Bool := true

/-- What `epoll_wait` reports for the reading end of the pipe. -/
def State.hungUp (s : State) : Bool := ! s.pipeOpen && s.holders.isEmpty

def State.signaled (s : State) : Bool :=
  s.pending .sighup || s.pending .sigint || s.pending .sigquit || s.pending .sigterm ||
    s.pending .sigchld

def State.raise (s : State) (signal : Signal) : State :=
  { s with pending := Function.update s.pending signal true }

/-- The calls of the main server, those of the session servers, and what comes from outside. -/
inductive Label
  /-- Which descriptors are ready, the signals first; `none` for an error that is not `EINTR`. -/
  | epollWait (ready : Option (Bool × Bool))
  | readSignal (signal : Option Signal)
  /-- `none` where it answers 0 or `ECHILD`. -/
  | waitpid (pid : Option ℕ)
  | acceptFailed
  | request (client : ℕ) (hdr : Option CmdHeader) (cred : Option (UInt32 × UInt32))
      (calloc : Bool) (pid : Option ℕ)
  | respond
  | closePipe
  /-- Whether `unlink` succeeds; without a pidfile it is not called. -/
  | removePid (unlinked : Bool)
  | childClosePipe (pid : ℕ)
  | call (pid : ℕ) (ok : Bool)
  | serve (pid : ℕ)
  | served (pid : ℕ)
  | killed (pid : ℕ)
  | raise (signal : Signal)
  deriving DecidableEq

/-- The session server that has just been forked has both ends of the pipe. -/
def inherited (base : MainServer.State) (holders : List ℕ) : List ℕ :=
  match base.pending with
  | some ⟨_, .forked e, _⟩ => e.serverPid :: holders
  | _ => holders

def without (pid : ℕ) (pids : List ℕ) : List ℕ := pids.filter fun n => n ≠ pid

/-- The main server is told when a session server ends, whose descriptors are closed. -/
def State.exited (s : State) (base : MainServer.State) (pid : ℕ) : State :=
  { s.raise .sigchld with
    base := base, holders := without pid s.holders, serving := without pid s.serving }

def State.called (s : State) (base : MainServer.State) (pid : ℕ) : State :=
  if base.procs.any fun p => p.pid = pid ∧ p.phase = .terminated then s.exited base pid
  else { s with base := base }

/-- One step. -/
def step (h : Host) (s : State) : Label → Option State
  | .epollWait none =>
      if s.position = .epollWait then some { s with position := .closePipe } else none
  | .epollWait (some (signal, conn)) =>
      if s.position = .epollWait ∧ signal = s.signaled ∧ (signal ∨ conn) then
        some { s with position := if signal then .readSignal conn else .accept4 }
      else none
  | .readSignal signal =>
      match s.position, signal with
      | .readSignal conn, none => some { s with position := secondLoop conn }
      | .readSignal conn, some signal =>
          if s.pending signal then
            some { s with
              pending := Function.update s.pending signal false
              position := if signal = .sigchld then .waitSessions conn else .closePipe }
          else none
      | _, _ => none
  | .waitpid none =>
      match s.position with
      | .waitSessions conn =>
          if s.base.procs.any fun p => p.phase = .terminated then none
          else some { s with position := secondLoop conn }
      | .waitAll => if s.base.procs.isEmpty then some { s with position := .removePid } else none
      | _ => none
  | .waitpid (some pid) =>
      match s.position with
      | .waitSessions _ | .waitAll =>
          (MainServer.step h s.base (.reap pid)).map fun base => { s with base := base }
      | _ => none
  | .acceptFailed =>
      if s.position = .accept4 then some { s with position := .epollWait } else none
  | .request client hdr cred calloc pid =>
      if s.position = .accept4 then
        (MainServer.step h s.base (.request client hdr cred calloc pid)).map fun base =>
          { s with base := base, position := .respond, holders := inherited base s.holders }
      else none
  | .respond =>
      if s.position = .respond then
        (MainServer.step h s.base .finish).map fun base =>
          { s with base := base, position := .epollWait }
      else none
  | .closePipe =>
      if s.position = .closePipe then some { s with position := .waitAll, pipeOpen := false }
      else none
  | .removePid unlinked =>
      if s.position = .removePid then
        some { s with position := .returned, pidfile := s.pidfile && ! unlinked }
      else none
  | .childClosePipe pid =>
      if pid ∈ s.holders then some { s with holders := without pid s.holders } else none
  | .call pid ok =>
      -- the pipe is closed first, and a job is served without a look at the pipe
      if pid ∈ s.holders ∨ pid ∈ s.serving then none
      else (MainServer.step h s.base (.call pid ok)).map fun base => s.called base pid
  | .serve pid =>
      match findProc pid s.base.procs with
      | some p =>
          if p.phase = .callerServer ∧ pid ∉ s.serving ∧ s.hungUp = false then
            some { s with serving := pid :: s.serving }
          else none
      | none => none
  | .served pid =>
      if pid ∈ s.serving then some { s with serving := without pid s.serving } else none
  | .killed pid =>
      (MainServer.step h s.base (.killed pid)).map fun base => s.exited base pid
  | .raise signal => some (s.raise signal)

/-- The steps one by one, with what is known when each is taken. -/
inductive Move (h : Host) (s : State) : Label → State → Prop
  | failed (wait : s.position = .epollWait) :
      Move h s (.epollWait none) { s with position := .closePipe }
  | ready {signal conn : Bool} (wait : s.position = .epollWait) (signaled : signal = s.signaled)
      (either : signal ∨ conn) : Move h s (.epollWait (some (signal, conn)))
        { s with position := if signal then .readSignal conn else .accept4 }
  | unread {conn : Bool} (first : s.position = .readSignal conn) :
      Move h s (.readSignal none) { s with position := secondLoop conn }
  | read {conn : Bool} {signal : Signal} (first : s.position = .readSignal conn)
      (pending : s.pending signal = true) : Move h s (.readSignal (some signal))
        { s with
          pending := Function.update s.pending signal false
          position := if signal = .sigchld then .waitSessions conn else .closePipe }
  | reaped {pid : ℕ} {base : MainServer.State}
      (waits : (∃ conn, s.position = .waitSessions conn) ∨ s.position = .waitAll)
      (reap : MainServer.step h s.base (.reap pid) = some base) :
      Move h s (.waitpid (some pid)) { s with base := base }
  | idle {conn : Bool} (waits : s.position = .waitSessions conn)
      (alive : ∀ p ∈ s.base.procs, p.phase ≠ .terminated) :
      Move h s (.waitpid none) { s with position := secondLoop conn }
  | childless (waits : s.position = .waitAll) (empty : s.base.procs = []) :
      Move h s (.waitpid none) { s with position := .removePid }
  | acceptFailed (second : s.position = .accept4) :
      Move h s .acceptFailed { s with position := .epollWait }
  | request {client : ℕ} {hdr : Option CmdHeader} {cred : Option (UInt32 × UInt32)}
      {calloc : Bool} {pid : Option ℕ} {base : MainServer.State} (second : s.position = .accept4)
      (decided : MainServer.step h s.base (.request client hdr cred calloc pid) = some base) :
      Move h s (.request client hdr cred calloc pid)
        { s with base := base, position := .respond, holders := inherited base s.holders }
  | respond {base : MainServer.State} (decided : s.position = .respond)
      (finish : MainServer.step h s.base .finish = some base) :
      Move h s .respond { s with base := base, position := .epollWait }
  | closePipe (finishing : s.position = .closePipe) :
      Move h s .closePipe { s with position := .waitAll, pipeOpen := false }
  | removePid {unlinked : Bool} (finishing : s.position = .removePid) :
      Move h s (.removePid unlinked)
        { s with position := .returned, pidfile := s.pidfile && ! unlinked }
  | childClosePipe {pid : ℕ} (holder : pid ∈ s.holders) :
      Move h s (.childClosePipe pid) { s with holders := without pid s.holders }
  | call {pid : ℕ} {ok : Bool} {base : MainServer.State} (closed : pid ∉ s.holders)
      (idle : pid ∉ s.serving) (next : MainServer.step h s.base (.call pid ok) = some base) :
      Move h s (.call pid ok) (s.called base pid)
  | serve {p : Proc} (mem : p ∈ s.base.procs) (serves : p.phase = .callerServer)
      (idle : p.pid ∉ s.serving) (connected : s.hungUp = false) :
      Move h s (.serve p.pid) { s with serving := p.pid :: s.serving }
  | served {pid : ℕ} (serving : pid ∈ s.serving) :
      Move h s (.served pid) { s with serving := without pid s.serving }
  | killed {pid : ℕ} {base : MainServer.State}
      (kill : MainServer.step h s.base (.killed pid) = some base) :
      Move h s (.killed pid) (s.exited base pid)
  | raise (signal : Signal) : Move h s (.raise signal) (s.raise signal)

theorem move_of_step {h : Host} {s t : State} {l : Label} (hs : step h s l = some t) :
    Move h s l t := by
  unfold step at hs
  split at hs
  · split_ifs at hs with hwait
    obtain rfl := Option.some.inj hs
    exact .failed hwait
  · split at hs
    · next hready =>
        obtain rfl := Option.some.inj hs
        exact .ready hready.1 hready.2.1 hready.2.2
    · cases hs
  · split at hs
    · next conn hpos =>
        obtain rfl := Option.some.inj hs
        exact .unread hpos
    · next conn signal hpos =>
        split at hs
        · next hpending =>
            obtain rfl := Option.some.inj hs
            exact .read hpos hpending
        · cases hs
    · cases hs
  · split at hs
    · next conn hpos =>
        split at hs
        · cases hs
        · next hany =>
            obtain rfl := Option.some.inj hs
            refine .idle hpos ?_
            intro p hp hdead
            exact hany (List.any_eq_true.mpr ⟨p, hp, by simp [hdead]⟩)
    · next hpos =>
        split at hs
        · next hempty =>
            obtain rfl := Option.some.inj hs
            exact .childless hpos (List.isEmpty_iff.mp hempty)
        · cases hs
    · cases hs
  · split at hs
    · next conn hpos =>
        obtain ⟨base, hbase, rfl⟩ := Option.map_eq_some_iff.mp hs
        exact .reaped (.inl ⟨conn, hpos⟩) hbase
    · next hpos =>
        obtain ⟨base, hbase, rfl⟩ := Option.map_eq_some_iff.mp hs
        exact .reaped (.inr hpos) hbase
    · cases hs
  · split_ifs at hs with hpos
    obtain rfl := Option.some.inj hs
    exact .acceptFailed hpos
  · split_ifs at hs with hpos
    obtain ⟨base, hbase, rfl⟩ := Option.map_eq_some_iff.mp hs
    exact .request hpos hbase
  · split_ifs at hs with hpos
    obtain ⟨base, hbase, rfl⟩ := Option.map_eq_some_iff.mp hs
    exact .respond hpos hbase
  · split_ifs at hs with hpos
    obtain rfl := Option.some.inj hs
    exact .closePipe hpos
  · split_ifs at hs with hpos
    obtain rfl := Option.some.inj hs
    exact .removePid hpos
  · split_ifs at hs with hmem
    obtain rfl := Option.some.inj hs
    exact .childClosePipe hmem
  · split_ifs at hs with hbusy
    obtain ⟨base, hbase, rfl⟩ := Option.map_eq_some_iff.mp hs
    rw [not_or] at hbusy
    exact .call hbusy.1 hbusy.2 hbase
  · rename_i pid
    split at hs
    · next p hfind =>
        split_ifs at hs with hserves
        obtain rfl := Option.some.inj hs
        obtain rfl : p.pid = pid := by simpa using List.find?_some hfind
        exact .serve (List.mem_of_find?_eq_some hfind) hserves.1 hserves.2.1 hserves.2.2
    · cases hs
  · split_ifs at hs with hmem
    obtain rfl := Option.some.inj hs
    exact .served hmem
  · obtain ⟨base, hbase, rfl⟩ := Option.map_eq_some_iff.mp hs
    exact .killed hbase
  · obtain rfl := Option.some.inj hs
    exact .raise _

/-- Runs from the first `epoll_wait` on. -/
abbrev Reaches (h : Host) (ls : List Label) (s : State) : Prop :=
  Run (fun s l t => step h s l = some t) {} ls s

/-! The loop takes the steps of the model of the sessions. -/

theorem called_base (s : State) (base : MainServer.State) (pid : ℕ) :
    (s.called base pid).base = base := by
  rw [State.called]
  split_ifs <;> rfl

theorem called_same (s : State) (base : MainServer.State) (pid : ℕ) :
    (s.called base pid).position = s.position ∧ (s.called base pid).pipeOpen = s.pipeOpen ∧
      (s.called base pid).pidfile = s.pidfile := by
  rw [State.called]
  split_ifs <;> exact ⟨rfl, rfl, rfl⟩

/-- Every step of the loop is one of the sessions or none. -/
theorem Move.base {h : Host} {s t : State} {l : Label} (hm : Move h s l t) :
    t.base = s.base ∨ ∃ l', MainServer.step h s.base l' = some t.base := by
  cases hm with
  | reaped waits reap => exact .inr ⟨_, reap⟩
  | request second decided => exact .inr ⟨_, decided⟩
  | respond decided finish => exact .inr ⟨_, finish⟩
  | call closed idle next =>
      rw [called_base]
      exact .inr ⟨_, next⟩
  | killed kill => exact .inr ⟨_, kill⟩
  | _ => exact .inl rfl

theorem reaches_base {h : Host} {ls : List Label} {s : State} (hr : Reaches h ls s) :
    ∃ ls', MainServer.Reaches h ls' s.base := by
  refine @Run.invariant _ _ _ (fun s => ∃ ls', MainServer.Reaches h ls' s.base) ?_ _ _ _ hr
    ⟨[], .nil _⟩
  intro s l t hs hstep
  obtain ⟨ls', hbase⟩ := hs
  rcases (move_of_step hstep).base with heq | ⟨l', hl'⟩
  · rw [heq]
    exact ⟨ls', hbase⟩
  · exact ⟨ls' ++ [l'], hbase.append (.cons hl' (.nil _))⟩

/-! No session server that has ended is forgotten. -/

/-- Where the main server is when one of its children has ended. -/
def Noticed (s : State) : Prop :=
  (∃ p ∈ s.base.procs, p.phase = .terminated) → s.pending .sigchld = true ∨
    (∃ conn, s.position = .waitSessions conn) ∨ s.position.Finishing = true

structure Inv (s : State) : Prop where
  base : MainServer.Inv s.base
  decided : s.base.pending.isSome = true ↔ s.position = .respond
  noticed : Noticed s
  pipe : s.pipeOpen = false ↔ s.position.Finishing = true ∧ s.position ≠ .closePipe
  childless : s.position = .removePid ∨ s.position = .returned → s.base.procs = []

theorem inv_init : Inv {} := by
  refine ⟨MainServer.inv_init, by simp, ?_, by simp [Position.Finishing], by simp⟩
  rintro ⟨p, hp, -⟩
  exact (List.not_mem_nil hp).elim

/-- What the steps of the sessions do to the processes and to the pending request. -/
theorem step_call {h : Host} {b b' : MainServer.State} {pid : ℕ} {ok : Bool}
    (hb : MainServer.step h b (.call pid ok) = some b') :
    ∃ p ∈ b.procs, p.pid = pid ∧ p.phase ≠ .terminated ∧ b'.pending = b.pending ∧
      b'.procs = setPhase pid (p.advance b.sockets ok).1 b.procs := by
  cases MainServer.move_of_step hb with
  | call mem alive => exact ⟨_, mem, rfl, alive, rfl, rfl⟩

theorem step_killed {h : Host} {b b' : MainServer.State} {pid : ℕ}
    (hb : MainServer.step h b (.killed pid) = some b') :
    ∃ p ∈ b.procs, p.pid = pid ∧ p.phase ≠ .terminated ∧ b'.pending = b.pending ∧
      b'.procs = setPhase pid .terminated b.procs := by
  cases MainServer.move_of_step hb with
  | killed mem alive => exact ⟨_, mem, rfl, alive, rfl, rfl⟩

theorem step_reap {h : Host} {b b' : MainServer.State} {pid : ℕ}
    (hb : MainServer.step h b (.reap pid) = some b') :
    ∃ p ∈ b.procs, p.pid = pid ∧ b'.pending = b.pending ∧
      b'.procs = b.procs.filter fun q => q.pid ≠ pid := by
  cases MainServer.move_of_step hb with
  | reap idle mem dead => exact ⟨_, mem, rfl, rfl, rfl⟩

theorem step_finish {h : Host} {b b' : MainServer.State}
    (hb : MainServer.step h b .finish = some b') : b'.pending = none ∧ b'.procs = b.procs := by
  cases MainServer.move_of_step hb with
  | finish pending => exact ⟨rfl, rfl⟩

theorem step_request {h : Host} {b b' : MainServer.State} {client : ℕ} {hdr : Option CmdHeader}
    {cred : Option (UInt32 × UInt32)} {calloc : Bool} {pid : Option ℕ}
    (hb : MainServer.step h b (.request client hdr cred calloc pid) = some b') :
    b'.pending.isSome = true ∧ ∀ p ∈ b'.procs, p ∈ b.procs ∨ p.phase = .initCallerData := by
  cases MainServer.move_of_step hb with
  | answered idle plain found => exact ⟨rfl, fun p hp => .inl hp⟩
  | forked idle fresh new =>
      refine ⟨rfl, ?_⟩
      intro p hp
      rcases List.mem_append.mp hp with hp | hp
      · exact .inl hp
      · obtain rfl := List.mem_singleton.mp hp
        exact .inr rfl

theorem mem_setPhase {pid : ℕ} {phase : Phase} {procs : List Proc} {q : Proc}
    (hq : q ∈ setPhase pid phase procs) : q.pid = pid ∧ q.phase = phase ∨ q ∈ procs := by
  obtain ⟨p, hp, rfl⟩ := List.mem_map.mp hq
  by_cases hpid : p.pid = pid
  · rw [if_pos hpid]
    exact .inl ⟨hpid, rfl⟩
  · rw [if_neg hpid]
    exact .inr hp

theorem raise_pending (s : State) (signal : Signal) :
    (s.raise signal).pending signal = true := Function.update_self _ _ _

theorem raise_kept {s : State} {signal : Signal} (other : Signal) (h : s.pending signal = true) :
    (s.raise other).pending signal = true := by
  by_cases heq : signal = other
  · subst heq
    exact raise_pending s signal
  · show Function.update s.pending other true signal = true
    rw [Function.update_of_ne heq]
    exact h

/-- The signal of a child that ends in a call of its own. -/
theorem called_noticed {h : Host} {s : State} {base : MainServer.State} {pid : ℕ} {ok : Bool}
    (hs : Noticed s) (hb : MainServer.step h s.base (.call pid ok) = some base) :
    Noticed (s.called base pid) := by
  obtain ⟨p, -, -, -, -, hprocs⟩ := step_call hb
  rw [State.called]
  split_ifs with hexited
  · intro _
    exact .inl (raise_pending s .sigchld)
  · rintro ⟨q, hq, hdead⟩
    have hq : q ∈ base.procs := hq
    refine hs ⟨q, ?_, hdead⟩
    rw [hprocs] at hq
    rcases mem_setPhase hq with ⟨hpid, -⟩ | hmem
    · refine absurd (List.any_eq_true.mpr ⟨q, ?_, by simp [hpid, hdead]⟩) hexited
      rw [hprocs]
      exact hq
    · exact hmem

theorem Move.noticed {h : Host} {s t : State} {l : Label} (hi : Inv s) (hm : Move h s l t) :
    Noticed t := by
  have hs := hi.noticed
  -- from a position where no signal is being handled
  have hplain (hpos : (∀ conn, s.position ≠ .waitSessions conn) ∧ s.position.Finishing = false)
      (hended : ∃ p ∈ s.base.procs, p.phase = .terminated) : s.pending .sigchld = true := by
    rcases hs hended with hpending | ⟨conn, hwait⟩ | hfinishing
    · exact hpending
    · exact (hpos.1 conn hwait).elim
    · rw [hpos.2] at hfinishing
      cases hfinishing
  cases hm with
  | failed wait => exact fun _ => .inr (.inr rfl)
  | ready wait signaled either =>
      intro hended
      exact .inl (hplain (by simp [wait, Position.Finishing]) hended)
  | unread first =>
      intro hended
      exact .inl (hplain (by simp [first, Position.Finishing]) hended)
  | @read conn signal first pending =>
      intro hended
      by_cases hchild : signal = .sigchld
      · exact .inr (.inl ⟨conn, if_pos hchild⟩)
      · refine .inr (.inr ?_)
        show (if signal = .sigchld then _ else _ : Position).Finishing = true
        rw [if_neg hchild]
        rfl
  | reaped waits reap =>
      intro _
      rcases waits with ⟨conn, hpos⟩ | hpos
      · exact .inr (.inl ⟨conn, hpos⟩)
      · refine .inr (.inr ?_)
        show s.position.Finishing = true
        rw [hpos]
        rfl
  | idle waits alive =>
      rintro ⟨p, hp, hdead⟩
      exact (alive p hp hdead).elim
  | childless waits empty => exact fun _ => .inr (.inr rfl)
  | acceptFailed second =>
      intro hended
      exact .inl (hplain (by simp [second, Position.Finishing]) hended)
  | request second decided =>
      rintro ⟨p, hp, hdead⟩
      rcases (step_request decided).2 p hp with hmem | hinit
      · exact .inl (hplain (by simp [second, Position.Finishing]) ⟨p, hmem, hdead⟩)
      · rw [hinit] at hdead
        cases hdead
  | respond decided finish =>
      rintro ⟨p, hp, hdead⟩
      have hp : p ∈ s.base.procs := (step_finish finish).2 ▸ hp
      exact .inl (hplain (by simp [decided, Position.Finishing]) ⟨p, hp, hdead⟩)
  | closePipe finishing => exact fun _ => .inr (.inr rfl)
  | removePid finishing => exact fun _ => .inr (.inr rfl)
  | childClosePipe holder => exact hs
  | call closed idle next => exact called_noticed hs next
  | serve mem serves idle connected => exact hs
  | served serving => exact hs
  | killed kill => exact fun _ => .inl (raise_pending s .sigchld)
  | raise signal =>
      intro hended
      rcases hs hended with hpending | hrest
      · exact .inl (raise_kept signal hpending)
      · exact .inr hrest

/-- A request has been decided on exactly where it is answered. -/
theorem Move.decided {h : Host} {s t : State} {l : Label} (hi : Inv s) (hm : Move h s l t) :
    t.base.pending.isSome = true ↔ t.position = .respond := by
  have hs := hi.decided
  -- a step between two other positions
  have hother {pos pos' : Position} (hpos : s.position = pos) (hne : pos ≠ .respond)
      (hne' : pos' ≠ .respond) : s.base.pending.isSome = true ↔ pos' = .respond := by
    rw [hs, hpos]
    exact ⟨fun h => absurd h hne, fun h => absurd h hne'⟩
  have hsecond (conn : Bool) : secondLoop conn ≠ .respond := by
    cases conn <;> decide
  cases hm with
  | failed wait => exact hother wait (by decide) (by simp)
  | @ready signal conn wait signaled either =>
      refine hother wait (by decide) ?_
      cases signal <;> simp
  | @unread conn first => exact hother first (by simp) (hsecond conn)
  | @read conn signal first pending =>
      refine hother first (by simp) ?_
      split_ifs <;> simp
  | reaped waits reap =>
      obtain ⟨-, -, -, hpending, -⟩ := step_reap reap
      show _ ↔ s.position = .respond
      rw [hpending, hs]
  | @idle conn waits alive => exact hother waits (by simp) (hsecond conn)
  | childless waits empty => exact hother waits (by decide) (by simp)
  | acceptFailed second => exact hother second (by decide) (by simp)
  | request second decided => exact iff_of_true (step_request decided).1 rfl
  | respond decided finish =>
      show _ ↔ Position.epollWait = .respond
      rw [(step_finish finish).1]
      simp
  | closePipe finishing => exact hother finishing (by decide) (by simp)
  | removePid finishing => exact hother finishing (by decide) (by simp)
  | childClosePipe holder => exact hs
  | @call pid ok base closed idle next =>
      obtain ⟨-, -, -, -, hpending, -⟩ := step_call next
      rw [called_base, (called_same s base pid).1, hpending]
      exact hs
  | serve mem serves idle connected => exact hs
  | served serving => exact hs
  | killed kill =>
      obtain ⟨-, -, -, -, hpending, -⟩ := step_killed kill
      show _ ↔ s.position = .respond
      rw [← hs]
      exact iff_of_eq (congrArg (fun o => Option.isSome o = true) hpending)
  | raise signal => exact hs

/-- What the end of the main server has left so far. -/
structure Ending (s : State) : Prop where
  pipe : s.pipeOpen = false ↔ s.position.Finishing = true ∧ s.position ≠ .closePipe
  childless : s.position = .removePid ∨ s.position = .returned → s.base.procs = []

theorem ending_of_running {s : State} (hpipe : s.pipeOpen = true)
    (hpos : s.position.Finishing = false ∨ s.position = .closePipe) : Ending s := by
  constructor
  · rw [hpipe]
    rcases hpos with hpos | hpos
    · simp [hpos]
    · simp [hpos]
  · rintro (h | h) <;> simp [h, Position.Finishing] at hpos

theorem Inv.pipeOpen {s : State} (hi : Inv s)
    (hpos : s.position.Finishing = false ∨ s.position = .closePipe) : s.pipeOpen = true := by
  by_contra hclosed
  have hfinishing := hi.pipe.mp (Bool.not_eq_true _ ▸ hclosed)
  rcases hpos with hpos | hpos
  · rw [hpos] at hfinishing
    exact Bool.false_ne_true hfinishing.1
  · exact hfinishing.2 hpos

theorem Move.ending {h : Host} {s t : State} {l : Label} (hi : Inv s) (hm : Move h s l t) :
    Ending t := by
  have hs : Ending s := ⟨hi.pipe, hi.childless⟩
  -- a child that still makes calls keeps the main server from its end
  have halive {p : Proc} (hp : p ∈ s.base.procs) : s.position ≠ .removePid ∧
      s.position ≠ .returned := by
    constructor
    · intro hpos
      rw [hi.childless (.inl hpos)] at hp
      exact List.not_mem_nil hp
    · intro hpos
      rw [hi.childless (.inr hpos)] at hp
      exact List.not_mem_nil hp
  cases hm with
  | failed wait =>
      exact ending_of_running (hi.pipeOpen (by simp [wait, Position.Finishing])) (.inr rfl)
  | @ready signal conn wait signaled either =>
      refine ending_of_running (hi.pipeOpen (by simp [wait, Position.Finishing])) (.inl ?_)
      cases signal <;> rfl
  | @unread conn first =>
      refine ending_of_running (hi.pipeOpen (by simp [first, Position.Finishing])) (.inl ?_)
      cases conn <;> rfl
  | @read conn signal first pending =>
      refine ending_of_running (hi.pipeOpen (by simp [first, Position.Finishing])) ?_
      show (if signal = .sigchld then _ else _ : Position).Finishing = false ∨
        (if signal = .sigchld then _ else _ : Position) = .closePipe
      by_cases hchild : signal = .sigchld
      · rw [if_pos hchild]
        exact .inl rfl
      · rw [if_neg hchild]
        exact .inr rfl
  | reaped waits reap =>
      refine ⟨hs.pipe, ?_⟩
      intro hpos
      have hpos : s.position = .removePid ∨ s.position = .returned := hpos
      rcases waits with ⟨conn, hwait⟩ | hwait <;> simp [hwait] at hpos
  | @idle conn waits alive =>
      refine ending_of_running (hi.pipeOpen (by simp [waits, Position.Finishing])) (.inl ?_)
      cases conn <;> rfl
  | childless waits empty =>
      refine ⟨?_, fun _ => empty⟩
      have hclosed := hs.pipe.mpr (by simp [waits, Position.Finishing])
      exact iff_of_true hclosed ⟨rfl, by simp⟩
  | acceptFailed second =>
      exact ending_of_running (hi.pipeOpen (by simp [second, Position.Finishing])) (.inl rfl)
  | request second decided =>
      exact ending_of_running (hi.pipeOpen (by simp [second, Position.Finishing])) (.inl rfl)
  | respond decided finish =>
      exact ending_of_running (hi.pipeOpen (by simp [decided, Position.Finishing])) (.inl rfl)
  | closePipe finishing =>
      refine ⟨iff_of_true rfl ⟨rfl, by simp⟩, ?_⟩
      rintro (hpos | hpos) <;> cases hpos
  | removePid finishing =>
      refine ⟨?_, fun _ => hs.childless (.inl finishing)⟩
      have hclosed := hs.pipe.mpr (by simp [finishing, Position.Finishing])
      exact iff_of_true hclosed ⟨rfl, by simp⟩
  | childClosePipe holder => exact ⟨hs.pipe, hs.childless⟩
  | @call pid ok base closed idle next =>
      obtain ⟨p, hp, -⟩ := step_call next
      obtain ⟨hpos, hpipe, -⟩ := called_same s base pid
      constructor
      · rw [hpipe, hpos]
        exact hs.pipe
      · intro hend
        rw [hpos] at hend
        exact absurd hend (not_or.mpr (halive hp))
  | serve mem serves idle connected => exact ⟨hs.pipe, hs.childless⟩
  | served serving => exact ⟨hs.pipe, hs.childless⟩
  | killed kill =>
      obtain ⟨p, hp, -⟩ := step_killed kill
      exact ⟨hs.pipe, fun hend => absurd hend (not_or.mpr (halive hp))⟩
  | raise signal => exact ⟨hs.pipe, hs.childless⟩

theorem Inv.move {h : Host} {s t : State} {l : Label} (hi : Inv s) (hm : Move h s l t) :
    Inv t := by
  have hbase : MainServer.Inv t.base := by
    rcases hm.base with heq | ⟨l', hl'⟩
    · rw [heq]
      exact hi.base
    · exact hi.base.move (MainServer.move_of_step hl')
  obtain ⟨hpipe, hchildless⟩ := hm.ending hi
  exact ⟨hbase, hm.decided hi, hm.noticed hi, hpipe, hchildless⟩

/-- Removing the pidfile is the last thing that the main server does. -/
structure Unlinked (ls : List Label) (s : State) : Prop where
  kept : s.position ≠ .returned → s.pidfile = true
  removed : s.position = .returned →
    ∃ unlinked, Label.removePid unlinked ∈ ls ∧ s.pidfile = ! unlinked

theorem Move.pidfile {h : Host} {s t : State} {l : Label} (hm : Move h s l t) :
    (t.pidfile = s.pidfile ∧ (t.position = .returned ↔ s.position = .returned)) ∨
      ∃ unlinked, l = .removePid unlinked ∧ s.position = .removePid ∧ t.position = .returned ∧
        t.pidfile = (s.pidfile && ! unlinked) := by
  cases hm with
  | failed wait => exact .inl ⟨rfl, by simp [wait]⟩
  | @ready signal conn wait signaled either =>
      refine .inl ⟨rfl, ?_⟩
      cases signal <;> simp [wait]
  | @unread conn first =>
      refine .inl ⟨rfl, ?_⟩
      cases conn <;> simp [first, secondLoop]
  | @read conn signal first pending =>
      refine .inl ⟨rfl, ?_⟩
      show (if signal = .sigchld then _ else _ : Position) = .returned ↔ _
      split_ifs <;> simp [first]
  | reaped waits reap => exact .inl ⟨rfl, Iff.rfl⟩
  | @idle conn waits alive =>
      refine .inl ⟨rfl, ?_⟩
      cases conn <;> simp [waits, secondLoop]
  | childless waits empty => exact .inl ⟨rfl, by simp [waits]⟩
  | acceptFailed second => exact .inl ⟨rfl, by simp [second]⟩
  | request second decided => exact .inl ⟨rfl, by simp [second]⟩
  | respond decided finish => exact .inl ⟨rfl, by simp [decided]⟩
  | closePipe finishing => exact .inl ⟨rfl, by simp [finishing]⟩
  | removePid finishing => exact .inr ⟨_, rfl, finishing, rfl, rfl⟩
  | childClosePipe holder => exact .inl ⟨rfl, Iff.rfl⟩
  | @call pid ok base closed idle next =>
      obtain ⟨hpos, -, hpidfile⟩ := called_same s base pid
      exact .inl ⟨hpidfile, by rw [hpos]⟩
  | serve mem serves idle connected => exact .inl ⟨rfl, Iff.rfl⟩
  | served serving => exact .inl ⟨rfl, Iff.rfl⟩
  | killed kill => exact .inl ⟨rfl, Iff.rfl⟩
  | raise signal => exact .inl ⟨rfl, Iff.rfl⟩

theorem Unlinked.move {h : Host} {ls : List Label} {s t : State} {l : Label}
    (hs : Unlinked ls s) (hm : Move h s l t) : Unlinked (ls ++ [l]) t := by
  rcases hm.pidfile with ⟨hpidfile, hpos⟩ | ⟨unlinked, rfl, hbefore, hafter, hpidfile⟩
  · constructor
    · intro hrunning
      rw [hpidfile]
      exact hs.kept fun hend => hrunning (hpos.mpr hend)
    · intro hend
      obtain ⟨unlinked, hmem, hremoved⟩ := hs.removed (hpos.mp hend)
      exact ⟨unlinked, List.mem_append_left _ hmem, hpidfile.trans hremoved⟩
  · constructor
    · intro hrunning
      exact (hrunning hafter).elim
    · intro _
      refine ⟨unlinked, List.mem_append_right _ (List.mem_singleton.mpr rfl), ?_⟩
      rw [hpidfile, hs.kept (by simp [hbefore]), Bool.true_and]

theorem unlinked_of_reaches {h : Host} {ls : List Label} {s : State} (hr : Reaches h ls s) :
    Unlinked ls s := by
  have hinit : Unlinked [] ({} : State) := ⟨fun _ => rfl, nofun⟩
  exact Run.history (fun _ _ _ _ hs hstep => hs.move (move_of_step hstep)) hr hinit

theorem inv_of_reaches {h : Host} {ls : List Label} {s : State} (hr : Reaches h ls s) : Inv s :=
  hr.invariant (fun _ _ _ hi hs => hi.move (move_of_step hs)) inv_init

/-! What can happen once the main server is about to end. -/

/-- The longest way that is left for a session server. -/
def phaseRank : Phase → ℕ
  | .initCallerData => 13
  | .configureCaller => 12
  | .unlink => 11
  | .socket => 10
  | .bind => 9
  | .listen => 8
  | .chown => 7
  | .signalfd => 6
  | .epollCreate => 5
  | .epollAdd => 4
  | .failClose => 3
  | .failUnlink => 2
  | .respondDone => 2
  | .respondFailed => 1
  | .callerServer => 1
  | .terminated => 0

theorem advance_rank (p : Proc) (sockets : Sockets) (ok : Bool) (h : p.phase ≠ .terminated) :
    phaseRank (p.advance sockets ok).1 < phaseRank p.phase := by
  obtain ⟨session, client, phase⟩ := p
  cases phase with
  | bind =>
      by_cases hfree : ok ∧ sockets (Proc.name ⟨session, client, .bind⟩) = none
      · simp [Proc.advance, hfree, phaseRank]
      · simp [Proc.advance, hfree, phaseRank]
  | terminated => exact absurd rfl h
  | _ => cases ok <;> simp [Proc.advance, phaseRank]

def Position.rank : Position → ℕ
  | .closePipe => 3
  | .waitAll => 2
  | .removePid => 1
  | _ => 0

/-- What is left of the session servers until they have been waited for. -/
def left (procs : List Proc) : ℕ := (procs.map fun p => phaseRank p.phase + 1).sum

/-- How many steps are left, with those that end the jobs and close the copies of the pipe. -/
def State.rank (s : State) : ℕ :=
  s.position.rank + left s.base.procs + s.holders.length + s.serving.length

theorem length_without_le (pid : ℕ) (pids : List ℕ) : (without pid pids).length ≤ pids.length :=
  List.length_filter_le _ _

theorem length_without_lt {pid : ℕ} {pids : List ℕ} (h : pid ∈ pids) :
    (without pid pids).length < pids.length :=
  List.length_filter_lt_length_iff_exists.mpr ⟨pid, h, by simp⟩

/-- One of the processes has less left. -/
theorem left_setPhase_lt {pid : ℕ} {phase : Phase} {procs : List Proc} {p : Proc} (hp : p ∈ procs)
    (hpid : p.pid = pid) (hn : (procs.map Proc.pid).Nodup)
    (hrank : phaseRank phase < phaseRank p.phase) :
    left (setPhase pid phase procs) < left procs := by
  have hsame {q : Proc} (hq : q ∈ procs) (hqpid : q.pid = pid) : q = p :=
    List.inj_on_of_nodup_map hn hq hp (hqpid.trans hpid.symm)
  rw [left, left, setPhase, List.map_map]
  apply List.sum_lt_sum
  · intro q hq
    by_cases hqpid : q.pid = pid
    · obtain rfl := hsame hq hqpid
      simp only [Function.comp_apply, if_pos hqpid]
      omega
    · simp [hqpid]
  · refine ⟨p, hp, ?_⟩
    simp only [Function.comp_apply, if_pos hpid]
    omega

/-- One of the processes is gone. -/
theorem left_filter_lt {pid : ℕ} {procs : List Proc} {p : Proc} (hp : p ∈ procs)
    (hpid : p.pid = pid) :
    left (procs.filter fun q => q.pid ≠ pid) < left procs := by
  have hcons (q : Proc) (procs : List Proc) :
      left (q :: procs) = phaseRank q.phase + 1 + left procs := rfl
  induction procs with
  | nil => exact (List.not_mem_nil hp).elim
  | cons q procs ih =>
      rw [hcons]
      have hle : left (procs.filter fun q => q.pid ≠ pid) ≤ left procs :=
        (List.filter_sublist.map _).sum_le_sum fun _ _ => Nat.zero_le _
      by_cases hq : q.pid = pid
      · rw [List.filter_cons_of_neg (by simp [hq])]
        omega
      · have hmem : p ∈ procs := by
          rcases List.mem_cons.mp hp with rfl | hmem
          · exact absurd hpid hq
          · exact hmem
        have hlt := ih hmem
        rw [List.filter_cons_of_pos (by simpa using hq), hcons]
        omega

/-- The steps that the system takes by itself. -/
def Label.Proceeds : Label → Bool
  | .serve _ | .raise _ => false
  | _ => true

/-- A session server takes another job. -/
def Label.Serves : Label → Bool
  | .serve _ => true
  | _ => false

theorem exited_rank {s : State} {base : MainServer.State} {pid : ℕ}
    (hlt : left base.procs < left s.base.procs) : (s.exited base pid).rank < s.rank := by
  have hholders := length_without_le pid s.holders
  have hserving := length_without_le pid s.serving
  show s.position.rank + left base.procs + (without pid s.holders).length +
    (without pid s.serving).length < s.rank
  rw [State.rank]
  omega

theorem called_rank {s : State} {base : MainServer.State} {pid : ℕ}
    (hlt : left base.procs < left s.base.procs) : (s.called base pid).rank < s.rank := by
  rw [State.called]
  split_ifs
  · exact exited_rank hlt
  · show s.position.rank + left base.procs + s.holders.length + s.serving.length < s.rank
    rw [State.rank]
    omega

/-- No step undoes another one, except that a session server may take one more job. -/
theorem Move.rank {h : Host} {s t : State} {l : Label} (hi : Inv s)
    (hf : s.position.Finishing = true) (hm : Move h s l t) :
    t.rank + (if l.Proceeds then 1 else 0) ≤ s.rank + if l.Serves then 1 else 0 := by
  have hrank : s.rank = s.position.rank + left s.base.procs + s.holders.length +
    s.serving.length := rfl
  cases hm with
  | failed wait => simp [wait, Position.Finishing] at hf
  | ready wait signaled either => simp [wait, Position.Finishing] at hf
  | unread first => simp [first, Position.Finishing] at hf
  | read first pending => simp [first, Position.Finishing] at hf
  | @reaped pid base waits reap =>
      obtain ⟨p, hp, hpid, -, hprocs⟩ := step_reap reap
      have hlt := left_filter_lt hp hpid
      rw [← hprocs] at hlt
      show s.position.rank + left base.procs + s.holders.length + s.serving.length + 1 ≤ s.rank
      omega
  | idle waits alive => simp [waits, Position.Finishing] at hf
  | childless waits empty =>
      rw [waits] at hrank
      show 1 + left s.base.procs + s.holders.length + s.serving.length + 1 ≤ s.rank
      have hwaits : Position.waitAll.rank = 2 := rfl
      omega
  | acceptFailed second => simp [second, Position.Finishing] at hf
  | request second decided => simp [second, Position.Finishing] at hf
  | respond decided finish => simp [decided, Position.Finishing] at hf
  | closePipe finishing =>
      rw [finishing] at hrank
      show 2 + left s.base.procs + s.holders.length + s.serving.length + 1 ≤ s.rank
      have hcloses : Position.closePipe.rank = 3 := rfl
      omega
  | removePid finishing =>
      rw [finishing] at hrank
      show 0 + left s.base.procs + s.holders.length + s.serving.length + 1 ≤ s.rank
      have hremoves : Position.removePid.rank = 1 := rfl
      omega
  | @childClosePipe pid holder =>
      have hlt := length_without_lt holder
      show s.position.rank + left s.base.procs + (without pid s.holders).length +
        s.serving.length + 1 ≤ s.rank
      omega
  | @call pid ok base closed idle next =>
      obtain ⟨p, hp, hpid, hphase, -, hprocs⟩ := step_call next
      have hlt := left_setPhase_lt hp hpid hi.base.pids (advance_rank p s.base.sockets ok hphase)
      rw [← hprocs] at hlt
      exact called_rank hlt
  | @serve p mem serves idle connected =>
      show s.position.rank + left s.base.procs + s.holders.length +
        (p.pid :: s.serving).length + 0 ≤ s.rank + 1
      rw [List.length_cons]
      omega
  | @served pid serving =>
      have hlt := length_without_lt serving
      show s.position.rank + left s.base.procs + s.holders.length +
        (without pid s.serving).length + 1 ≤ s.rank
      omega
  | @killed pid base kill =>
      obtain ⟨p, hp, hpid, hphase, -, hprocs⟩ := step_killed kill
      have hdead : phaseRank .terminated < phaseRank p.phase := by
        cases hp' : p.phase with
        | terminated => exact absurd hp' hphase
        | _ => decide
      have hlt := left_setPhase_lt hp hpid hi.base.pids hdead
      rw [← hprocs] at hlt
      exact exited_rank hlt
  | raise signal => exact Nat.le_refl _

/-- Once nobody holds the writing end, this remains so. -/
theorem Move.hungUp {h : Host} {s t : State} {l : Label} (hf : s.position.Finishing = true)
    (hhung : s.hungUp = true) (hm : Move h s l t) : t.hungUp = true ∧ l.Serves = false := by
  obtain ⟨hopen, hholders⟩ : s.pipeOpen = false ∧ s.holders = [] := by
    simpa [State.hungUp, List.isEmpty_iff] using hhung
  have hkept {t : State} (hpipe : t.pipeOpen = s.pipeOpen ∨ t.pipeOpen = false)
      (h : t.holders = s.holders ∨ ∃ pid, t.holders = without pid s.holders) :
      t.hungUp = true := by
    have hempty : t.holders = [] := by
      rcases h with h | ⟨pid, h⟩
      · rw [h, hholders]
      · rw [h, hholders]
        rfl
    have hclosed : t.pipeOpen = false := by
      rcases hpipe with h | h
      · rw [h, hopen]
      · exact h
    rw [State.hungUp, hclosed, hempty]
    rfl
  cases hm with
  | request second decided => simp [second, Position.Finishing] at hf
  | serve mem serves idle connected =>
      rw [hhung] at connected
      cases connected
  | closePipe finishing => exact ⟨hkept (.inr rfl) (.inl rfl), rfl⟩
  | @childClosePipe pid holder => exact ⟨hkept (.inl rfl) (.inr ⟨pid, rfl⟩), rfl⟩
  | @killed pid base kill => exact ⟨hkept (.inl rfl) (.inr ⟨pid, rfl⟩), rfl⟩
  | @call pid ok base closed idle next =>
      refine ⟨?_, rfl⟩
      rw [State.called]
      split_ifs
      · exact hkept (.inl rfl) (.inr ⟨pid, rfl⟩)
      · exact hkept (.inl rfl) (.inl rfl)
  | _ => exact ⟨hkept (.inl rfl) (.inl rfl), rfl⟩

theorem Move.finishing {h : Host} {s t : State} {l : Label} (hf : s.position.Finishing = true)
    (hm : Move h s l t) : t.position.Finishing = true := by
  cases hm with
  | failed wait => rfl
  | ready wait signaled either => simp [wait, Position.Finishing] at hf
  | unread first => simp [first, Position.Finishing] at hf
  | read first pending => simp [first, Position.Finishing] at hf
  | idle waits alive => simp [waits, Position.Finishing] at hf
  | acceptFailed second => simp [second, Position.Finishing] at hf
  | request second decided => simp [second, Position.Finishing] at hf
  | respond decided finish => simp [decided, Position.Finishing] at hf
  | @call pid ok base closed idle next =>
      rw [(called_same s base pid).1]
      exact hf
  | childless waits empty => rfl
  | closePipe finishing => rfl
  | removePid finishing => rfl
  | _ => exact hf

/-- There is always something to do until the main server has returned. -/
theorem Inv.proceeds (h : Host) {s : State} (hi : Inv s) (hf : s.position.Finishing = true)
    (hpos : s.position ≠ .returned) : ∃ l t, l.Proceeds = true ∧ step h s l = some t := by
  have hidle : s.base.pending = none := by
    rw [← Option.not_isSome_iff_eq_none, hi.decided]
    intro hrespond
    rw [hrespond] at hf
    cases hf
  cases hposition : s.position with
  | closePipe => exact ⟨.closePipe, _, rfl, if_pos hposition⟩
  | removePid => exact ⟨.removePid true, _, rfl, if_pos hposition⟩
  | waitAll =>
      rcases hprocs : s.base.procs with _ | ⟨p, procs⟩
      · refine ⟨.waitpid none, { s with position := .removePid }, rfl, ?_⟩
        simp [step, hposition, hprocs]
      · have hfind : findProc p.pid s.base.procs = some p := by
          rw [hprocs, findProc, List.find?_cons_of_pos (by simp)]
        by_cases hdead : p.phase = .terminated
        · have hreap : (step h s (.waitpid (some p.pid))).isSome = true := by
            simp only [step, hposition, MainServer.step, hidle, hfind, if_pos hdead]
            rfl
          obtain ⟨t, ht⟩ := Option.isSome_iff_exists.mp hreap
          exact ⟨_, t, rfl, ht⟩
        · by_cases hholder : p.pid ∈ s.holders
          · exact ⟨.childClosePipe p.pid, _, rfl, if_pos hholder⟩
          · by_cases hserving : p.pid ∈ s.serving
            · exact ⟨.served p.pid, _, rfl, if_pos hserving⟩
            · have hbusy : ¬ (p.pid ∈ s.holders ∨ p.pid ∈ s.serving) :=
                not_or.mpr ⟨hholder, hserving⟩
              have hcall : (step h s (.call p.pid true)).isSome = true := by
                simp only [step, if_neg hbusy, MainServer.step, hfind, if_neg hdead]
                rfl
              obtain ⟨t, ht⟩ := Option.isSome_iff_exists.mp hcall
              exact ⟨_, t, rfl, ht⟩
  | returned => exact absurd hposition hpos
  | _ => simp [hposition, Position.Finishing] at hf

/-- Every step of the loop is a step of the sessions or none. Whenever the main server is about to
sleep, its pool has one entry for each session server that it has not waited for, and if one of
these has ended, the signal that wakes it is pending. -/
theorem ended_sessions_noticed {h : Host} {ls : List Label} {s : State} (hr : Reaches h ls s) :
    (∃ ls', MainServer.Reaches h ls' s.base) ∧
    (∀ l t, step h s l = some t →
      t.base = s.base ∨ ∃ l', MainServer.step h s.base l' = some t.base) ∧
    (s.position = .epollWait → s.base.pool = s.base.procs.map Proc.session ∧
      ((∃ p ∈ s.base.procs, p.phase = .terminated) → s.pending .sigchld = true)) := by
  refine ⟨reaches_base hr, fun l t hstep => (move_of_step hstep).base, fun hwait => ?_⟩
  have hi := inv_of_reaches hr
  constructor
  · have hidle : s.base.pending = none := by
      rw [← Option.not_isSome_iff_eq_none, hi.decided, hwait]
      decide
    rw [← MainServer.Inv.settled_eq_pool hidle]
    exact hi.base.entries
  · intro hended
    rcases hi.noticed hended with hpending | ⟨conn, hpos⟩ | hfinishing
    · exact hpending
    · rw [hwait] at hpos
      cases hpos
    · rw [hwait] at hfinishing
      cases hfinishing

/-- A session server is killed as soon as it has been forked. -/
def killedLabels : List Label :=
  [.epollWait (some (false, true)),
    .request 1 (some ⟨cmdOpenSession, 0⟩) (some (500, 500)) true (some 100), .respond, .killed 100]

/-- What a replay that can be evaluated says about a reachable state. -/
private theorem reaches_of_replay {α : Type} [DecidableEq α] {ls : List Label} {f : State → α}
    {a : α} (h : (replay (step {}) {} ls).map f = some a) : ∃ s, Reaches {} ls s ∧ f s = a := by
  obtain ⟨s, hs, hf⟩ := Option.map_eq_some_iff.mp h
  exact ⟨s, run_of_replay hs, hf⟩

theorem ended_sessions_noticed_sample : ∃ s, Reaches {} killedLabels s ∧
    s.base.procs.map (fun p => (p.pid, p.phase)) = [(100, .terminated)] ∧
      s.pending .sigchld = true := by
  obtain ⟨s, hr, hs⟩ := @reaches_of_replay _ _ killedLabels
    (fun s => (s.position, s.base.procs.map fun p => (p.pid, p.phase)))
    (.epollWait, [(100, .terminated)]) (by decide)
  obtain ⟨hwait, hprocs⟩ := Prod.mk.inj hs
  refine ⟨s, hr, hprocs, ((ended_sessions_noticed hr).2.2 hwait).2 ?_⟩
  rcases hlist : s.base.procs with _ | ⟨p, procs⟩
  · rw [hlist] at hprocs
    cases hprocs
  · rw [hlist] at hprocs
    exact ⟨p, List.mem_cons_self, congrArg Prod.snd (List.cons.inj hprocs).1⟩

/-- The main server is told to end while a session server is being started. -/
def stoppedLabels : List Label :=
  [.epollWait (some (false, true)),
    .request 1 (some ⟨cmdOpenSession, 0⟩) (some (500, 500)) true (some 100), .respond,
    .raise .sigterm, .epollWait (some (true, false)), .readSignal (some .sigterm)]

/-- It is killed, waited for, and the pidfile cannot be removed. -/
def endedLabels : List Label :=
  stoppedLabels ++
    [.closePipe, .killed 100, .waitpid (some 100), .waitpid none, .removePid false]

end HasherPriv.SessionService.MainLoop
