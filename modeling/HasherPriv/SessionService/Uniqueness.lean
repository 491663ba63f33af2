/- GID: HasherPriv/SessionService/Uniqueness
   layer: session
   source: hasher-privd.c, caller_server.c
   digest: One session server for each caller and number, and no socket taken from another. -/

import HasherPriv.SessionService.MainServer

set_option autoImplicit false
set_option relaxedAutoImplicit false

namespace HasherPriv.SessionService.Uniqueness

open Foundations.Descent (Run replay run_of_replay)
open Protocol.Communication
open Daemon
open CallerServer
open MainServer

/-- What a pending request is about to do to the pool. -/
def Linking (s : State) : Prop :=
  ∀ p, s.pending = some p → p.pool = s.pool ∨ ∃ e, p.reply = .forked e ∧ p.pool = s.pool ++ [e]

private theorem linking_move {s t : State} {l : Label} (hl : Linking s) (h : Move s l t) :
    Linking t := by
  intro p hp
  cases h with
  | answered =>
      obtain rfl := Option.some.inj hp
      exact .inl rfl
  | forked =>
      obtain rfl := Option.some.inj hp
      exact .inr ⟨_, rfl, rfl⟩
  | finish => cases hp
  | reap idle =>
      have hnone : s.pending = some p := hp
      rw [idle] at hnone
      cases hnone
  | call => exact hl p hp
  | killed => exact hl p hp

theorem linking_of_reaches {h : Host} {ls : List Label} {s : State} (hr : Reaches h ls s) :
    Linking s :=
  hr.invariant (fun _ _ _ hl hs => linking_move hl (move_of_step hs)) nofun

/-- The pool is never ahead of the children, and behind them by the entry of a fork only. -/
theorem pool_prefix_settled {s : State} (hl : Linking s) : s.pool <+: s.settled := by
  rcases hp : s.pending with _ | p
  · rw [Inv.settled_eq_pool hp]
  · have hsettled : s.settled = p.pool := by simp [State.settled, hp]
    rw [hsettled]
    rcases hl p hp with h | ⟨e, -, h⟩
    · rw [h]
    · rw [h]
      exact List.prefix_append s.pool [e]

private theorem settled_keys {s : State} (hi : Inv s) : (s.settled.map Session.key).Nodup := by
  rw [hi.entries, List.map_map]
  exact hi.keys

private theorem settled_pids {s : State} (hi : Inv s) :
    (s.settled.map Session.serverPid).Nodup := by
  rw [hi.entries, List.map_map]
  exact hi.pids

/-- A call of one session server leaves alone what stands at the path of another. -/
theorem sockets_of_call {h : Host} {s t : State} (hi : Inv s) {p q : Proc} {ok : Bool}
    (hp : p ∈ s.procs) (hq : q ∈ s.procs) (hne : q ≠ p)
    (hs : step h s (.call p.pid ok) = some t) :
    t.sockets q.name = s.sockets q.name ∧ (q.phase.Bound → t.sockets q.name = some q.pid) := by
  have hsame : t.sockets q.name = s.sockets q.name := by
    generalize hl : Label.call p.pid ok = l at hs
    cases move_of_step hs with
    | @call p' ok' mem alive =>
        obtain ⟨hpid, -⟩ := Label.call.inj hl
        obtain rfl := List.inj_on_of_nodup_map hi.pids hp mem hpid
        exact advance_sockets p s.sockets ok' fun hname => hne (hi.eq_of_name hq hp hname)
    | answered => cases hl
    | forked => cases hl
    | finish => cases hl
    | reap => cases hl
    | killed => cases hl
  exact ⟨hsame, fun hb => hsame.trans (hi.bound q hq hb)⟩

/-- The pool has one entry for each child that is not waited for, a request under way lacking
at most the link of its own; no two entries are for one caller and number; a failed
`start_session` changes nothing, `free_session` takes out the entry with that pid; and no call
of a session server, the `unlink` of `srv_listen` among them, touches the path of another. -/
theorem sessions_unique {h : Host} {ls : List Label} {s : State} (hr : Reaches h ls s) :
    (s.pending = none → s.pool = s.procs.map Proc.session) ∧
    (∀ p, s.pending = some p → p.pool = s.procs.map Proc.session ∧
      (p.pool = s.pool ∨ ∃ e, p.reply = .forked e ∧ p.pool = s.pool ++ [e])) ∧
    (s.procs.map Proc.pid).Nodup ∧
    (s.pool.map Session.key).Nodup ∧
    (∀ num cred calloc pid pool,
      startSession h s.pool num cred calloc pid = (.failed, pool) → pool = s.pool) ∧
    (s.pool.map Session.serverPid).Nodup ∧
    (∀ pid, freeSession pid s.pool = s.pool.filter fun e => e.serverPid ≠ pid) ∧
    ∀ p ∈ s.procs, ∀ q ∈ s.procs, q ≠ p → ∀ ok t, step h s (.call p.pid ok) = some t →
      t.sockets q.name = s.sockets q.name ∧
      (q.phase.Bound → t.sockets q.name = some q.pid) := by
  have hi := inv_of_reaches hr
  have hl := linking_of_reaches hr
  have hsub := (pool_prefix_settled hl).sublist
  have hpids : (s.pool.map Session.serverPid).Nodup := (settled_pids hi).sublist (hsub.map _)
  refine ⟨?_, ?_, hi.pids, (settled_keys hi).sublist (hsub.map _), ?_, hpids,
    fun pid => freeSession_eq_filter hpids, ?_⟩
  · intro hidle
    exact (Inv.settled_eq_pool hidle).symm.trans hi.entries
  · intro p hp
    have hsettled : s.settled = p.pool := by simp [State.settled, hp]
    exact ⟨hsettled.symm.trans hi.entries, hl p hp⟩
  · intro num cred calloc pid pool hs
    rcases startSession_cases hs with ⟨-, rfl⟩ | ⟨_, hr', -⟩ | ⟨_, _, _, hr', -⟩
    · rfl
    · cases hr'
    · cases hr'
  · intro p hp q hq hne ok t hs
    exact sockets_of_call hi hp hq hne hs

/-- Two callers open sessions of one number, the first server serves, ends and is reaped, and
its pid is used again. -/
def sampleLabels : List Label :=
  let openSession : Option CmdHeader := some ⟨cmdOpenSession, 7⟩
  .request 1 openSession (some (500, 500)) true (some 100) :: .finish ::
  .request 2 openSession (some (501, 501)) true (some 101) :: .call 101 true :: .finish ::
  List.replicate 11 (.call 100 true) ++
  [.call 101 true, .call 101 true, .call 100 true, .reap 100,
    .request 3 openSession (some (500, 500)) true (some 100), .finish,
    .call 100 true, .call 100 true]

theorem sessions_unique_sample : ∃ s, Reaches {} sampleLabels s ∧
    s.pool.map Session.key = [(501, 7), (500, 7)] ∧ (s.pool.map Session.key).Nodup := by
  have hsome : (replay (step {}) {} sampleLabels).isSome := by decide
  obtain ⟨s, hs⟩ := Option.isSome_iff_exists.mp hsome
  have hkeys : (replay (step {}) {} sampleLabels).map (fun s => s.pool.map Session.key) =
      some [(501, 7), (500, 7)] := by decide
  rw [hs] at hkeys
  have hr : Reaches {} sampleLabels s := run_of_replay hs
  exact ⟨s, hr, Option.some.inj hkeys, (sessions_unique hr).2.2.2.1⟩

end HasherPriv.SessionService.Uniqueness
