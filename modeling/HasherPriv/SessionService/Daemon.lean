/- GID: HasherPriv/SessionService/Daemon
   layer: session
   source: hasher-privd.c
   digest: How the main server opens, finds and forgets sessions. -/

import HasherPriv.Config.CallerData
import HasherPriv.Protocol.Communication

set_option autoImplicit false
set_option relaxedAutoImplicit false

namespace HasherPriv.SessionService.Daemon

open Config.CallerData (Floors)
open Protocol.Communication

/-- `struct session`; the pool is the list of them. -/
structure Session where
  callerUid : UInt32
  callerGid : UInt32
  callerNum : UInt32
  serverPid : ℕ
  deriving DecidableEq

/-- What a session is for. -/
abbrev Session.key (s : Session) : UInt32 × UInt32 := (s.callerUid, s.callerNum)

/-- The main server: its floors and its own credentials. -/
structure Host where
  floors : Floors := {}
  uid : UInt32 := 0
  gid : UInt32 := 0

/-- The peer checks of `start_session`; a negative floor switches off both parts of a check. -/
def Host.admits (h : Host) (uid gid : UInt32) : Except String Unit :=
  if 0 ≤ h.floors.minUid ∧ (¬ h.floors.validUid uid ∨ uid = h.uid) then
    .error s!"invalid uid: {uid}"
  else if 0 ≤ h.floors.minGid ∧ (¬ h.floors.validGid gid ∨ gid = h.gid) then
    .error s!"invalid gid: {gid}"
  else .ok ()

/-- How a call of `start_session` ends: -1, 0 with an answer sent, 0 with a server forked. -/
inductive Started
  | failed
  | reused (uid num : UInt32)
  | forked (s : Session)
  deriving DecidableEq

/-- The walk along the pool: `none` where an entry matches, else the pool with the new entry
behind its last one. -/
def linkSession (s : Session) : List Session → Option (List Session)
  | [] => some [s]
  | e :: pool =>
      if e.callerUid = s.callerUid ∧ e.callerNum = s.callerNum then none
      else (linkSession s pool).map (e :: ·)

/-- `start_session`, given what `get_peercred`, `calloc` and `fork` answer. -/
def startSession (h : Host) (pool : List Session) (num : UInt32)
    (cred : Option (UInt32 × UInt32)) (calloc : Bool) (pid : Option ℕ) :
    Started × List Session :=
  match cred with
  | none => (.failed, pool)
  | some (uid, gid) =>
      match h.admits uid gid with
      | .error _ => (.failed, pool)
      | .ok () =>
          if pool.any fun e => e.callerUid = uid ∧ e.callerNum = num then (.reused uid num, pool)
          else if calloc then
            match pid with
            | none => (.failed, pool)
            | some pid =>
                let s : Session := ⟨uid, gid, num, pid⟩
                (.forked s, (linkSession s pool).getD pool)
          else (.failed, pool)

/-- `free_session`. -/
def freeSession (pid : ℕ) : List Session → List Session
  | [] => []
  | s :: rest => if pid = s.serverPid then rest else s :: freeSession pid rest

/-- What `process_request` answers by itself. -/
inductive Reply
  | silent
  | done (uid num : UInt32)
  | failed (reason : String)
  | forked (s : Session)
  deriving DecidableEq

/-- `process_request`, given the received header, if any. -/
def processRequest (h : Host) (pool : List Session) (hdr : Option CmdHeader)
    (cred : Option (UInt32 × UInt32)) (calloc : Bool) (pid : Option ℕ) : Reply × List Session :=
  match hdr with
  | none => (.silent, pool)
  | some hdr =>
      if hdr.type = cmdOpenSession then
        match startSession h pool hdr.len cred calloc pid with
        | (.failed, pool) => (.failed "command failed", pool)
        | (.reused uid num, pool) => (.done uid num, pool)
        | (.forked s, pool) => (.forked s, pool)
      else (.failed "unknown command", pool)

private theorem linkSession_eq {s : Session} {pool : List Session}
    (h : ∀ e ∈ pool, e.key ≠ s.key) : linkSession s pool = some (pool ++ [s]) := by
  induction pool with
  | nil => rfl
  | cons e pool ih =>
      obtain ⟨he, hpool⟩ := List.forall_mem_cons.mp h
      have hne : ¬ (e.callerUid = s.callerUid ∧ e.callerNum = s.callerNum) := by
        simpa [Prod.ext_iff] using he
      rw [linkSession, if_neg hne, ih hpool]
      rfl

/-- What a call of `start_session` can do. -/
theorem startSession_cases {h : Host} {pool pool' : List Session} {num : UInt32}
    {cred : Option (UInt32 × UInt32)} {calloc : Bool} {pid : Option ℕ} {r : Started}
    (hs : startSession h pool num cred calloc pid = (r, pool')) :
    (r = .failed ∧ pool' = pool) ∨
    (∃ uid, r = .reused uid num ∧ pool' = pool ∧ ∃ e ∈ pool, e.key = (uid, num)) ∨
    ∃ uid gid n, r = .forked ⟨uid, gid, num, n⟩ ∧ pid = some n ∧
      pool' = pool ++ [⟨uid, gid, num, n⟩] ∧ ∀ e ∈ pool, e.key ≠ (uid, num) := by
  unfold startSession at hs
  split at hs
  · obtain ⟨rfl, rfl⟩ := Prod.mk.inj hs
    exact .inl ⟨rfl, rfl⟩
  · rename_i uid gid
    split at hs
    · obtain ⟨rfl, rfl⟩ := Prod.mk.inj hs
      exact .inl ⟨rfl, rfl⟩
    · split_ifs at hs with hfound hcalloc
      · obtain ⟨rfl, rfl⟩ := Prod.mk.inj hs
        refine .inr (.inl ⟨uid, rfl, rfl, ?_⟩)
        simpa [Prod.ext_iff] using hfound
      · have hnew : ∀ e ∈ pool, e.key ≠ (uid, num) := by
          simpa [Prod.ext_iff] using hfound
        cases pid with
        | none =>
            obtain ⟨rfl, rfl⟩ := Prod.mk.inj hs
            exact .inl ⟨rfl, rfl⟩
        | some n =>
            obtain ⟨rfl, rfl⟩ := Prod.mk.inj hs
            refine .inr (.inr ⟨uid, gid, n, rfl, rfl, ?_, hnew⟩)
            rw [linkSession_eq hnew]
            rfl
      · obtain ⟨rfl, rfl⟩ := Prod.mk.inj hs
        exact .inl ⟨rfl, rfl⟩

/-- What `process_request` can do. -/
theorem processRequest_cases {h : Host} {pool pool' : List Session} {hdr : Option CmdHeader}
    {cred : Option (UInt32 × UInt32)} {calloc : Bool} {pid : Option ℕ} {r : Reply}
    (hp : processRequest h pool hdr cred calloc pid = (r, pool')) :
    ((r = .silent ∨ ∃ reason, r = .failed reason) ∧ pool' = pool) ∨
    (∃ uid num, r = .done uid num ∧ pool' = pool ∧ ∃ e ∈ pool, e.key = (uid, num)) ∨
    ∃ s, r = .forked s ∧ pid = some s.serverPid ∧ pool' = pool ++ [s] ∧
      ∀ e ∈ pool, e.key ≠ s.key := by
  unfold processRequest at hp
  split at hp
  · obtain ⟨rfl, rfl⟩ := Prod.mk.inj hp
    exact .inl ⟨.inl rfl, rfl⟩
  · rename_i hdr
    split_ifs at hp
    · rcases hs : startSession h pool hdr.len cred calloc pid with ⟨r', pool''⟩
      rw [hs] at hp
      rcases startSession_cases hs with ⟨rfl, rfl⟩ | ⟨uid, rfl, rfl, he⟩ |
        ⟨uid, gid, n, rfl, hpid, rfl, hnew⟩
      · obtain ⟨rfl, rfl⟩ := Prod.mk.inj hp
        exact .inl ⟨.inr ⟨_, rfl⟩, rfl⟩
      · obtain ⟨rfl, rfl⟩ := Prod.mk.inj hp
        exact .inr (.inl ⟨uid, _, rfl, rfl, he⟩)
      · obtain ⟨rfl, rfl⟩ := Prod.mk.inj hp
        exact .inr (.inr ⟨_, rfl, hpid, rfl, hnew⟩)
    · obtain ⟨rfl, rfl⟩ := Prod.mk.inj hp
      exact .inl ⟨.inr ⟨_, rfl⟩, rfl⟩

/-- Where pids are distinct it takes out exactly the entry with that pid. -/
theorem freeSession_eq_filter {pid : ℕ} {pool : List Session}
    (hn : (pool.map Session.serverPid).Nodup) :
    freeSession pid pool = pool.filter fun s => s.serverPid ≠ pid := by
  induction pool with
  | nil => rfl
  | cons s rest ih =>
      obtain ⟨hs, hrest⟩ := List.nodup_cons.mp hn
      rw [freeSession]
      by_cases h : pid = s.serverPid
      · subst h
        have hkeep : ∀ e ∈ rest, e.serverPid ≠ s.serverPid := by
          intro e he heq
          exact hs (heq ▸ List.mem_map_of_mem he)
        rw [if_pos rfl, List.filter_cons_of_neg (by simp)]
        exact (List.filter_eq_self.mpr fun e he => by simpa using hkeep e he).symm
      · rw [if_neg h, List.filter_cons_of_pos (by simpa using Ne.symm h), ih hrest]

end HasherPriv.SessionService.Daemon
