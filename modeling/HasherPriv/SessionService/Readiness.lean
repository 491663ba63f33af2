/- GID: HasherPriv/SessionService/Readiness
   layer: session
   source: hasher-privd.c, hasher-priv.c
   digest: When a positive answer to a session request can be relied on. -/

import HasherPriv.SessionService.MainServer

set_option autoImplicit false
set_option relaxedAutoImplicit false

namespace HasherPriv.SessionService.Readiness

open Foundations.Descent (Run replay run_of_replay)
open Protocol.Communication
open Daemon
open CallerServer
open MainServer

/-- The caller and number for which a step sends `CMD_STATUS_DONE`, if it does: the main server
where it has found an entry, a session server where it is ready. -/
def announced (s : State) : Label → Option (UInt32 × UInt32)
  | .finish =>
      match s.pending with
      | some ⟨_, .done uid num, _⟩ => some (uid, num)
      | _ => none
  | .call pid _ =>
      match findProc pid s.procs with
      | some p => if p.phase = .respondDone then some p.session.key else none
      | none => none
  | _ => none

/-- A session server for that caller and number has completed `srv_listen` and still holds
the socket that stands under the name `connect_to_session` connects to. -/
def Usable (s : State) (key : UInt32 × UInt32) : Prop :=
  ∃ p ∈ s.procs, p.session.key = key ∧ p.phase.Listening ∧
    s.sockets (socketName key.1 key.2) = some p.pid

def Truthful (s : State) (l : Label) : Prop := ∀ key, announced s l = some key → Usable s key

/-- When the main server answers from the pool, the server of the entry it has found is past
`srv_listen` and has not terminated. -/
def PromptReuse (s : State) : Label → Prop
  | .finish => ∀ p uid num, s.pending = some p → p.reply = .done uid num →
      ∀ q ∈ s.procs, q.session.key = (uid, num) → q.phase.Listening
  | _ => True

private theorem usable_of_listening {s : State} (hi : Inv s) {p : Proc} (hp : p ∈ s.procs)
    (hlisten : p.phase.Listening) : Usable s p.session.key :=
  ⟨p, hp, rfl, hlisten, hi.bound p hp (Phase.bound_of_listening hlisten)⟩

private theorem announced_finish {s : State} {key : UInt32 × UInt32}
    (h : announced s .finish = some key) :
    ∃ p, s.pending = some p ∧ p.reply = .done key.1 key.2 := by
  rcases hp : s.pending with _ | ⟨client, reply, pool⟩
  · simp [announced, hp] at h
  · cases reply with
    | done uid num =>
        have hkey : (uid, num) = key := by simpa [announced, hp] using h
        subst hkey
        exact ⟨_, rfl, rfl⟩
    | _ => simp [announced, hp] at h

/-- A session server announces itself only when it listens. -/
private theorem announced_call {s : State} {pid : ℕ} {ok : Bool} {key : UInt32 × UInt32}
    (h : announced s (.call pid ok) = some key) :
    ∃ p ∈ s.procs, p.session.key = key ∧ p.phase = .respondDone := by
  rcases hp : findProc pid s.procs with _ | p
  · simp [announced, hp] at h
  · have hmem : p ∈ s.procs := List.mem_of_find?_eq_some hp
    by_cases hphase : p.phase = .respondDone
    · have hkey : p.session.key = key := by simpa [announced, hp, hphase] using h
      exact ⟨p, hmem, hkey, hphase⟩
    · simp [announced, hp, hphase] at h

/-- Of all the ways to announce a session, reuse alone can be wrong. -/
theorem truthful_iff_promptReuse {s : State} (hi : Inv s) (l : Label) :
    Truthful s l ↔ PromptReuse s l := by
  cases l with
  | finish =>
      constructor
      · intro ht p uid num hp hr q hq hkey
        obtain ⟨client, reply, pool⟩ := p
        have hsent : announced s .finish = some (uid, num) := by
          obtain rfl : reply = .done uid num := hr
          simp [announced, hp]
        obtain ⟨q', hq', hkey', hlisten, -⟩ := ht (uid, num) hsent
        have hsame : q = q' := List.inj_on_of_nodup_map hi.keys hq hq' (hkey.trans hkey'.symm)
        exact hsame ▸ hlisten
      · intro hready key hsent
        obtain ⟨p, hp, hr⟩ := announced_finish hsent
        obtain ⟨q, hq, hkey⟩ := hi.reused p key.1 key.2 hp hr
        have hlisten := hready p key.1 key.2 hp hr q hq hkey
        have husable := usable_of_listening hi hq hlisten
        rwa [hkey] at husable
  | call pid ok =>
      refine ⟨fun _ => trivial, fun _ key hsent => ?_⟩
      obtain ⟨p, hp, rfl, hphase⟩ := announced_call hsent
      have hlisten : p.phase.Listening := by rw [hphase]; rfl
      exact usable_of_listening hi hp hlisten
  | request client hdr cred calloc pid => exact ⟨fun _ => trivial, fun _ _ h => by cases h⟩
  | reap pid => exact ⟨fun _ => trivial, fun _ _ h => by cases h⟩
  | killed pid => exact ⟨fun _ => trivial, fun _ _ h => by cases h⟩

/-- Every positive answer of a run can be relied on exactly where every answer from the pool
is given while the server of the entry listens. -/
theorem done_usable_iff {h : Host} {ls : List Label} {s : State} :
    Run (fun s l t => step h s l = some t ∧ Truthful s l) {} ls s ↔
      Run (fun s l t => step h s l = some t ∧ PromptReuse s l) {} ls s := by
  constructor
  · exact fun hr => hr.mono_of_invariant inv_init (fun _ _ _ hi hs => hi.move (move_of_step hs.1))
      fun s l _ hi hs => ⟨hs.1, (truthful_iff_promptReuse hi l).mp hs.2⟩
  · exact fun hr => hr.mono_of_invariant inv_init (fun _ _ _ hi hs => hi.move (move_of_step hs.1))
      fun s l _ hi hs => ⟨hs.1, (truthful_iff_promptReuse hi l).mpr hs.2⟩

/-- A second client of the same caller asks while the new session server reads its
configuration. -/
def earlyLabels : List Label :=
  let openSession : Option CmdHeader := some ⟨cmdOpenSession, 0⟩
  [.request 1 openSession (some (500, 500)) true (some 100), .finish,
    .call 100 true, .request 2 openSession (some (500, 500)) true none]

/-- It asks after the session server has ended and before the main server has waited for it. -/
def lateLabels : List Label :=
  let openSession : Option CmdHeader := some ⟨cmdOpenSession, 0⟩
  [.request 1 openSession (some (500, 500)) true (some 100), .finish] ++
  List.replicate 12 (.call 100 true) ++
  [.request 2 openSession (some (500, 500)) true none]

/-- `Usable`, for a state whose session servers are known. -/
private theorem not_usable {s : State} {key : UInt32 × UInt32}
    (h : (s.procs.all fun p => !p.phase.Listening) = true) : ¬ Usable s key := by
  rintro ⟨p, hp, -, hlisten, -⟩
  have hnot := List.all_eq_true.mp h p hp
  simp [hlisten] at hnot

/-- After these steps an answer from the pool is sent that cannot be relied on. -/
def AnswersInVain (ls : List Label) : Prop :=
  ∃ s t, Reaches {} ls s ∧ step {} s .finish = some t ∧ announced s .finish = some (500, 0) ∧
    ¬ Usable s (500, 0)

private theorem answersInVain_of_replay {ls : List Label}
    (hsome : (replay (step {}) {} ls).isSome)
    (hend : (replay (step {}) {} ls).map (fun s => ((step {} s .finish).isSome,
      announced s .finish, s.procs.all fun p => !p.phase.Listening)) =
        some (true, some (500, 0), true)) : AnswersInVain ls := by
  obtain ⟨s, hs⟩ := Option.isSome_iff_exists.mp hsome
  rw [hs] at hend
  obtain ⟨hstep, hsent, hdeaf⟩ : (step {} s .finish).isSome ∧
      announced s .finish = some (500, 0) ∧ (s.procs.all fun p => !p.phase.Listening) = true := by
    simpa using hend
  obtain ⟨t, ht⟩ := Option.isSome_iff_exists.mp hstep
  exact ⟨s, t, run_of_replay hs, ht, hsent, not_usable hdeaf⟩

theorem reuse_unusable : AnswersInVain earlyLabels ∧ AnswersInVain lateLabels := by
  constructor
  · apply answersInVain_of_replay
    · decide
    · decide
  · apply answersInVain_of_replay
    · decide
    · decide

end HasherPriv.SessionService.Readiness
