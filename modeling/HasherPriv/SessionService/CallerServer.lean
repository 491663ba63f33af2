/- GID: HasherPriv/SessionService/CallerServer
   layer: session
   source: caller_server.c, sockets.c, hasher-privd.c
   digest: The life of a session server, one call at a time, and the sockets it binds. -/

import HasherPriv.SessionService.Daemon
import HasherPriv.Foundations.ByteString

set_option autoImplicit false
set_option relaxedAutoImplicit false

namespace HasherPriv.SessionService.CallerServer

open Foundations.ByteString
open Daemon (Session)

/-- The socket name `%d:%u`: the uid is printed as a signed number. -/
def socketName (uid num : UInt32) : Bytes :=
  signedDecimal uid.toInt32.toInt ++ 58 :: decimal num.toNat

/-- The name is injective over all uids and numbers. -/
theorem socketName_injective {uid num uid' num' : UInt32}
    (h : socketName uid num = socketName uid' num') : uid = uid' ∧ num = num' := by
  have hcolon (z : ℤ) : (58 : UInt8) ∉ signedDecimal z := by
    intro hmem
    rcases mem_signedDecimal hmem with he | he
    · exact absurd he (by decide)
    · exact absurd he.2 (by decide)
  unfold socketName at h
  have hsplit : signedDecimal uid.toInt32.toInt = signedDecimal uid'.toInt32.toInt ∧
      decimal num.toNat = decimal num'.toNat := by
    rcases List.append_eq_append_iff.mp h with ⟨more, hl, hr⟩ | ⟨more, hl, hr⟩
    · cases more with
      | nil => exact ⟨by simpa using hl.symm, (List.cons.inj hr).2⟩
      | cons c more =>
          obtain rfl := (List.cons.inj hr).1
          exact (hcolon _ (by rw [hl]; simp)).elim
    · cases more with
      | nil => exact ⟨by simpa using hl, (List.cons.inj hr).2.symm⟩
      | cons c more =>
          obtain rfl := (List.cons.inj hr).1
          exact (hcolon _ (by rw [hl]; simp)).elim
  refine ⟨?_, UInt32.toNat_inj.mp (decimal_injective hsplit.2)⟩
  have hint := Int32.toInt_inj.mp (signedDecimal_injective hsplit.1)
  exact congrArg Int32.toUInt32 hint

/-- The next call of a session server. The calls of `run_caller_server` come first, with
those of `caller_server_listener_init` and of `srv_listen` in between. -/
inductive Phase
  | initCallerData
  | configureCaller
  | unlink
  | socket
  | bind
  | listen
  | chown
  | signalfd
  | epollCreate
  | epollAdd
  | failClose
  | failUnlink
  | respondFailed
  | respondDone
  | callerServer
  /-- Exited or killed, and not yet waited for. -/
  | terminated
  deriving DecidableEq

/-- The process holds open a socket that it has bound to its path. -/
def Phase.Bound : Phase → Bool
  | .listen | .chown | .signalfd | .epollCreate | .epollAdd | .failClose | .respondDone
  | .callerServer => true
  | .initCallerData | .configureCaller | .unlink | .socket | .bind | .failUnlink
  | .respondFailed | .terminated => false

/-- `srv_listen` has succeeded and the listening socket is open. -/
def Phase.Listening : Phase → Bool
  | .chown | .signalfd | .epollCreate | .epollAdd | .failClose | .respondDone
  | .callerServer => true
  | .initCallerData | .configureCaller | .unlink | .socket | .bind | .listen | .failUnlink
  | .respondFailed | .terminated => false

theorem Phase.bound_of_listening {p : Phase} (h : p.Listening) : p.Bound := by
  cases p <;> first | rfl | cases h

/-- A session server: the session it was forked for, with the client that asked for it. -/
structure Proc where
  session : Session
  client : ℕ
  phase : Phase
  deriving DecidableEq

def Proc.pid (p : Proc) : ℕ := p.session.serverPid

def Proc.name (p : Proc) : Bytes := socketName p.session.callerUid p.session.callerNum

/-- The socket directory: which process bound the socket that stands under a name. -/
abbrev Sockets := Bytes → Option ℕ

def Sockets.set (s : Sockets) (name : Bytes) (pid : Option ℕ) : Sockets :=
  fun n => if n = name then pid else s n

/-- One call of a session server, `ok` telling whether it succeeds. A failure of
`init_caller_data` or `configure_caller` is the end of the process. A name in use cannot be
bound; an `unlink` that finds nothing succeeds. -/
def Proc.advance (p : Proc) (sockets : Sockets) (ok : Bool) : Phase × Sockets :=
  match p.phase with
  | .initCallerData => (if ok then .configureCaller else .terminated, sockets)
  | .configureCaller => (if ok then .unlink else .terminated, sockets)
  | .unlink => if ok then (.socket, sockets.set p.name none) else (.respondFailed, sockets)
  | .socket => (if ok then .bind else .respondFailed, sockets)
  | .bind =>
      if ok ∧ sockets p.name = none then (.listen, sockets.set p.name (some p.pid))
      else (.respondFailed, sockets)
  | .listen => (if ok then .chown else .respondFailed, sockets)
  | .chown => (if ok then .signalfd else .failClose, sockets)
  | .signalfd => (if ok then .epollCreate else .failClose, sockets)
  | .epollCreate => (if ok then .epollAdd else .failClose, sockets)
  | .epollAdd => (if ok then .respondDone else .failClose, sockets)
  | .failClose => (.failUnlink, sockets)
  | .failUnlink => (.respondFailed, if ok then sockets.set p.name none else sockets)
  | .respondFailed => (.terminated, sockets)
  | .respondDone => (.callerServer, sockets)
  -- The loop of `caller_server` ends on a timeout, a signal, or the end of the main server.
  | .callerServer => (.terminated, sockets)
  | .terminated => (.terminated, sockets)

/-- What a call can do to the socket directory. -/
theorem advance_cases (p : Proc) (sockets : Sockets) (ok : Bool) :
    ((p.advance sockets ok).2 = sockets ∧
      ((p.advance sockets ok).1.Bound → p.phase.Bound)) ∨
    ((p.advance sockets ok).2 = sockets.set p.name none ∧
      (p.advance sockets ok).1.Bound = false) ∨
    (p.advance sockets ok).2 = sockets.set p.name (some p.pid) := by
  obtain ⟨session, client, phase⟩ := p
  cases phase with
  | bind =>
      by_cases h : ok ∧ sockets (Proc.name ⟨session, client, .bind⟩) = none
      · right; right
        simp [Proc.advance, h]
      · left
        simp [Proc.advance, h, Phase.Bound]
  | _ => cases ok <;> simp [Proc.advance, Phase.Bound]

/-- A call touches no name but the own one. -/
theorem advance_sockets (p : Proc) (sockets : Sockets) (ok : Bool) {n : Bytes}
    (hn : n ≠ p.name) : (p.advance sockets ok).2 n = sockets n := by
  have hset (pid : Option ℕ) : sockets.set p.name pid n = sockets n := if_neg hn
  rcases advance_cases p sockets ok with ⟨h, -⟩ | ⟨h, -⟩ | h
  · rw [h]
  · rw [h, hset]
  · rw [h, hset]

/-- A bound process keeps its socket until it unlinks it. -/
theorem advance_bound {p : Proc} {sockets : Sockets} {ok : Bool}
    (hbound : p.phase.Bound → sockets p.name = some p.pid)
    (hb : (p.advance sockets ok).1.Bound) :
    (p.advance sockets ok).2 p.name = some p.pid := by
  rcases advance_cases p sockets ok with ⟨h, hbefore⟩ | ⟨-, h⟩ | h
  · rw [h]
    exact hbound (hbefore hb)
  · rw [h] at hb
    cases hb
  · rw [h]
    exact if_pos rfl

end HasherPriv.SessionService.CallerServer
