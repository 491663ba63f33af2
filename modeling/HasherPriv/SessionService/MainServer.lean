/- GID: HasherPriv/SessionService/MainServer
   layer: session
   source: hasher-privd.c, caller_server.c
   digest: The main server and its session servers side by side, and their invariant. -/

import HasherPriv.SessionService.CallerServer
import HasherPriv.Foundations.Descent

set_option autoImplicit false
set_option relaxedAutoImplicit false

namespace HasherPriv.SessionService.MainServer

open Foundations.ByteString
open Foundations.Descent (Run)
open Protocol.Communication
open Daemon
open CallerServer

/-- A request that the main server has decided on and not finished yet: `pool` is the pool
with the entry it is about to link, if any. -/
structure Pending where
  client : ℕ
  reply : Reply
  pool : List Session

/-- The pool of the main server, the children it has not waited for, in the order they were
forked, and the socket directory. -/
structure State where
  pool : List Session := []
  pending : Option Pending := none
  procs : List Proc := []
  sockets : Sockets := fun _ => none

/-- The steps of the system with what the environment contributes to each. -/
inductive Label
  | request (client : ℕ) (hdr : Option CmdHeader) (cred : Option (UInt32 × UInt32))
      (calloc : Bool) (pid : Option ℕ)
  | finish
  | reap (pid : ℕ)
  | call (pid : ℕ) (ok : Bool)
  | killed (pid : ℕ)
  deriving DecidableEq

/-- Replace the phase of the process with that pid. -/
def setPhase (pid : ℕ) (phase : Phase) (procs : List Proc) : List Proc :=
  procs.map fun p => if p.pid = pid then { p with phase := phase } else p

def findProc (pid : ℕ) (procs : List Proc) : Option Proc := procs.find? fun p => p.pid = pid

/-- One step. `fork` never answers the pid of a child that is not yet waited for. -/
def step (h : Host) (s : State) : Label → Option State
  | .request client hdr cred calloc pid =>
      if s.pending.isSome ∨ s.procs.any fun p => pid = some (p.pid) then none
      else
        match processRequest h s.pool hdr cred calloc pid with
        | (.forked e, pool) =>
            some { s with
              pending := some ⟨client, .forked e, pool⟩
              procs := s.procs ++ [⟨e, client, .initCallerData⟩] }
        | (reply, pool) => some { s with pending := some ⟨client, reply, pool⟩ }
  | .finish =>
      s.pending.map fun p => { s with pending := none, pool := p.pool }
  | .reap pid =>
      match s.pending, findProc pid s.procs with
      | none, some p =>
          if p.phase = .terminated then
            some { s with
              pool := freeSession pid s.pool
              procs := s.procs.filter fun p => p.pid ≠ pid }
          else none
      | _, _ => none
  | .call pid ok =>
      match findProc pid s.procs with
      | some p =>
          if p.phase = .terminated then none
          else
            some { s with
              procs := setPhase pid (p.advance s.sockets ok).1 s.procs
              sockets := (p.advance s.sockets ok).2 }
      | none => none
  | .killed pid =>
      match findProc pid s.procs with
      | some p =>
          if p.phase = .terminated then none
          else some { s with procs := setPhase pid .terminated s.procs }
      | none => none

/-- Runs of the system from the start of the main server. -/
abbrev Reaches (h : Host) (ls : List Label) (s : State) : Prop :=
  Run (fun s l t => step h s l = some t) {} ls s

/-- The pool once the pending request is finished. -/
def State.settled (s : State) : List Session := (s.pending.map (·.pool)).getD s.pool

/-- The steps one by one, with what is known when each is taken. -/
inductive Move (s : State) : Label → State → Prop
  | answered {client : ℕ} {hdr : Option CmdHeader} {cred : Option (UInt32 × UInt32)}
      {calloc : Bool} {pid : Option ℕ} {reply : Reply} (idle : s.pending = none)
      (plain : ∀ e, reply ≠ .forked e)
      (found : ∀ uid num, reply = .done uid num → ∃ e ∈ s.pool, e.key = (uid, num)) :
      Move s (.request client hdr cred calloc pid)
        { s with pending := some ⟨client, reply, s.pool⟩ }
  | forked {client : ℕ} {hdr : Option CmdHeader} {cred : Option (UInt32 × UInt32)}
      {calloc : Bool} {e : Session} (idle : s.pending = none)
      (fresh : ∀ p ∈ s.procs, p.pid ≠ e.serverPid) (new : ∀ e' ∈ s.pool, e'.key ≠ e.key) :
      Move s (.request client hdr cred calloc (some e.serverPid))
        { s with
          pending := some ⟨client, .forked e, s.pool ++ [e]⟩
          procs := s.procs ++ [⟨e, client, .initCallerData⟩] }
  | finish {p : Pending} (pending : s.pending = some p) :
      Move s .finish { s with pending := none, pool := p.pool }
  | reap {p : Proc} (idle : s.pending = none) (mem : p ∈ s.procs)
      (dead : p.phase = .terminated) :
      Move s (.reap p.pid)
        { s with
          pool := freeSession p.pid s.pool
          procs := s.procs.filter fun q => q.pid ≠ p.pid }
  | call {p : Proc} {ok : Bool} (mem : p ∈ s.procs) (alive : p.phase ≠ .terminated) :
      Move s (.call p.pid ok)
        { s with
          procs := setPhase p.pid (p.advance s.sockets ok).1 s.procs
          sockets := (p.advance s.sockets ok).2 }
  | killed {p : Proc} (mem : p ∈ s.procs) (alive : p.phase ≠ .terminated) :
      Move s (.killed p.pid) { s with procs := setPhase p.pid .terminated s.procs }

private theorem findProc_some {pid : ℕ} {procs : List Proc} {p : Proc}
    (h : findProc pid procs = some p) : p ∈ procs ∧ p.pid = pid :=
  ⟨List.mem_of_find?_eq_some h, by simpa using List.find?_some h⟩

theorem move_of_step {h : Host} {s t : State} {l : Label} (hs : step h s l = some t) :
    Move s l t := by
  cases l with
  | request client hdr cred calloc pid =>
      unfold step at hs
      dsimp only at hs
      split_ifs at hs with hguard
      rw [not_or, Option.not_isSome_iff_eq_none] at hguard
      obtain ⟨hidle, hfresh⟩ := hguard
      rcases hp : processRequest h s.pool hdr cred calloc pid with ⟨reply, pool⟩
      rw [hp] at hs
      rcases processRequest_cases hp with ⟨hr, rfl⟩ | ⟨uid, num, rfl, rfl, hfound⟩ |
        ⟨e, rfl, rfl, rfl, hnew⟩
      · have hplain : ∀ e, reply ≠ .forked e := by
          rintro e rfl
          rcases hr with hr | ⟨_, hr⟩ <;> cases hr
        have hst : t = { s with pending := some ⟨client, reply, s.pool⟩ } := by
          rcases hr with rfl | ⟨_, rfl⟩ <;> exact (Option.some.inj hs).symm
        subst hst
        refine .answered hidle hplain ?_
        rintro uid num rfl
        rcases hr with hr | ⟨_, hr⟩ <;> cases hr
      · obtain rfl := Option.some.inj hs
        refine .answered hidle nofun ?_
        rintro uid' num' he
        obtain ⟨rfl, rfl⟩ := Reply.done.inj he
        exact hfound
      · obtain rfl := Option.some.inj hs
        refine .forked hidle ?_ hnew
        intro p hp heq
        exact hfresh (List.any_eq_true.mpr ⟨p, hp, by simp [heq]⟩)
  | finish =>
      obtain ⟨p, hp, rfl⟩ := Option.map_eq_some_iff.mp hs
      exact .finish hp
  | reap pid =>
      unfold step at hs
      dsimp only at hs
      split at hs
      · rename_i p hidle hfind
        obtain ⟨hmem, rfl⟩ := findProc_some hfind
        split_ifs at hs with hdead
        obtain rfl := Option.some.inj hs
        exact .reap hidle hmem hdead
      · cases hs
  | call pid ok =>
      unfold step at hs
      dsimp only at hs
      split at hs
      · rename_i p hfind
        obtain ⟨hmem, rfl⟩ := findProc_some hfind
        split_ifs at hs with hdead
        obtain rfl := Option.some.inj hs
        exact .call hmem hdead
      · cases hs
  | killed pid =>
      unfold step at hs
      dsimp only at hs
      split at hs
      · rename_i p hfind
        obtain ⟨hmem, rfl⟩ := findProc_some hfind
        split_ifs at hs with hdead
        obtain rfl := Option.some.inj hs
        exact .killed hmem hdead
      · cases hs

/-! The invariant. -/

structure Inv (s : State) : Prop where
  /-- One entry for each child not waited for, in the order they were forked. -/
  entries : s.settled = s.procs.map Proc.session
  keys : (s.procs.map fun p => p.session.key).Nodup
  pids : (s.procs.map Proc.pid).Nodup
  /-- A reused session is one of the pool, and its server is not waited for meanwhile. -/
  reused : ∀ p uid num, s.pending = some p → p.reply = .done uid num →
    ∃ q ∈ s.procs, q.session.key = (uid, num)
  bound : ∀ p ∈ s.procs, p.phase.Bound → s.sockets p.name = some p.pid

theorem inv_init : Inv {} :=
  ⟨rfl, by simp, by simp, nofun, by simp⟩

private theorem mem_setPhase {pid : ℕ} {phase : Phase} {procs : List Proc} {q : Proc}
    (h : q ∈ setPhase pid phase procs) :
    ∃ p ∈ procs, q.session = p.session ∧
      (p.pid = pid ∧ q.phase = phase ∨ p.pid ≠ pid ∧ q = p) := by
  obtain ⟨p, hp, rfl⟩ := List.mem_map.mp h
  by_cases hpid : p.pid = pid
  · exact ⟨p, hp, by simp [hpid], .inl ⟨hpid, by simp [hpid]⟩⟩
  · exact ⟨p, hp, by simp [hpid], .inr ⟨hpid, by simp [hpid]⟩⟩

private theorem map_setPhase {α : Type} (f : Session → α) (pid : ℕ) (phase : Phase)
    (procs : List Proc) :
    (setPhase pid phase procs).map (fun p => f p.session) = procs.map fun p => f p.session := by
  unfold setPhase
  rw [List.map_map]
  refine List.map_congr_left fun p _ => ?_
  by_cases hpid : p.pid = pid <;> simp [hpid]

theorem Inv.settled_eq_pool {s : State} (h : s.pending = none) : s.settled = s.pool := by
  simp [State.settled, h]

/-- Two children with one name are one child. -/
theorem Inv.eq_of_name {s : State} (hi : Inv s) {p q : Proc} (hp : p ∈ s.procs)
    (hq : q ∈ s.procs) (h : p.name = q.name) : p = q := by
  obtain ⟨huid, hnum⟩ := socketName_injective h
  exact List.inj_on_of_nodup_map hi.keys hp hq (Prod.ext huid hnum)

/-- A change of one child's phase that keeps what bound children rely on. -/
private theorem Inv.setPhase {s : State} (hi : Inv s) {pid : ℕ} {phase : Phase}
    {sockets : Sockets}
    (hself : ∀ p ∈ s.procs, p.pid = pid → phase.Bound → sockets p.name = some p.pid)
    (hother : ∀ p ∈ s.procs, p.pid ≠ pid → sockets p.name = s.sockets p.name) :
    Inv { s with procs := MainServer.setPhase pid phase s.procs, sockets := sockets } := by
  refine ⟨?_, ?_, ?_, ?_, ?_⟩
  · exact hi.entries.trans (map_setPhase id pid phase s.procs).symm
  · rw [map_setPhase Session.key]
    exact hi.keys
  · exact (map_setPhase Session.serverPid pid phase s.procs).symm ▸ hi.pids
  · intro p uid num hp hr
    obtain ⟨q, hq, hkey⟩ := hi.reused p uid num hp hr
    have hmem : q.session.key ∈ (MainServer.setPhase pid phase s.procs).map fun p => p.session.key := by
      rw [map_setPhase Session.key]
      exact List.mem_map_of_mem hq
    obtain ⟨q', hq', hkey'⟩ := List.mem_map.mp hmem
    exact ⟨q', hq', hkey'.trans hkey⟩
  · intro q hq hb
    obtain ⟨p, hp, hsess, ⟨hpid, hph⟩ | ⟨hpid, rfl⟩⟩ := mem_setPhase hq
    · have hs := hself p hp hpid (hph ▸ hb)
      simpa only [Proc.name, Proc.pid, hsess] using hs
    · exact (hother q hp hpid).trans (hi.bound q hp hb)

theorem Inv.move {s t : State} {l : Label} (hi : Inv s) (h : Move s l t) : Inv t := by
  cases h with
  | answered idle plain found =>
      refine ⟨?_, hi.keys, hi.pids, ?_, hi.bound⟩
      · exact (Inv.settled_eq_pool idle).symm.trans hi.entries
      · intro p uid num hp hr
        obtain rfl := Option.some.inj hp
        obtain ⟨e, he, hkey⟩ := found uid num hr
        rw [← Inv.settled_eq_pool idle, hi.entries] at he
        obtain ⟨q, hq, rfl⟩ := List.mem_map.mp he
        exact ⟨q, hq, hkey⟩
  | @forked client hdr cred calloc e idle fresh new =>
      have hpool : s.pool = s.procs.map Proc.session :=
        (Inv.settled_eq_pool idle).symm.trans hi.entries
      refine ⟨?_, ?_, ?_, ?_, ?_⟩
      · change s.pool ++ [e] = _
        rw [hpool, List.map_append]
        rfl
      · rw [List.map_append, List.nodup_append]
        refine ⟨hi.keys, by simp, ?_⟩
        intro a ha b hb
        obtain ⟨p, hp, rfl⟩ := List.mem_map.mp ha
        obtain rfl := List.mem_singleton.mp hb
        exact new p.session (hpool ▸ List.mem_map_of_mem hp)
      · rw [List.map_append, List.nodup_append]
        refine ⟨hi.pids, by simp, ?_⟩
        intro a ha b hb
        obtain ⟨p, hp, rfl⟩ := List.mem_map.mp ha
        obtain rfl := List.mem_singleton.mp hb
        exact fresh p hp
      · intro p uid num hp hr
        obtain rfl := Option.some.inj hp
        cases hr
      · intro p hp hb
        rcases List.mem_append.mp hp with hp | hp
        · exact hi.bound p hp hb
        · obtain rfl := List.mem_singleton.mp hp
          cases hb
  | @finish p pending =>
      refine ⟨?_, hi.keys, hi.pids, nofun, hi.bound⟩
      have hsettled : s.settled = p.pool := by simp [State.settled, pending]
      exact hsettled.symm.trans hi.entries
  | @reap p idle mem dead =>
      have hpool : s.pool = s.procs.map Proc.session :=
        (Inv.settled_eq_pool idle).symm.trans hi.entries
      have hn : (s.pool.map Session.serverPid).Nodup := by
        rw [hpool, List.map_map]
        exact hi.pids
      refine ⟨?_, ?_, ?_, ?_, ?_⟩
      · have hsettled : freeSession p.pid s.pool =
            (s.procs.filter fun q => q.pid ≠ p.pid).map Proc.session := by
          rw [freeSession_eq_filter hn, hpool, List.filter_map]
          rfl
        simpa [State.settled, idle] using hsettled
      · exact hi.keys.sublist (List.filter_sublist.map _)
      · exact hi.pids.sublist (List.filter_sublist.map _)
      · intro p' uid num hp
        rw [idle] at hp
        cases hp
      · exact fun q hq hb => hi.bound q (List.mem_filter.mp hq).1 hb
  | @call p ok mem alive =>
      refine hi.setPhase ?_ ?_
      · intro q hq hpid hb
        obtain rfl := List.inj_on_of_nodup_map hi.pids hq mem hpid
        exact advance_bound (hi.bound q mem) hb
      · intro q hq hpid
        refine advance_sockets p s.sockets ok fun hname => hpid ?_
        rw [hi.eq_of_name hq mem hname]
  | @killed p mem alive =>
      exact hi.setPhase (fun _ _ _ hb => by cases hb) fun _ _ _ => rfl

/-- The invariant holds after every run. -/
theorem inv_of_reaches {h : Host} {ls : List Label} {s : State} (hr : Reaches h ls s) : Inv s :=
  hr.invariant (fun _ _ _ hi hs => hi.move (move_of_step hs)) inv_init

end HasherPriv.SessionService.MainServer
