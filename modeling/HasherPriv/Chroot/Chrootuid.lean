/- GID: HasherPriv/Chroot/Chrootuid
   layer: chroot
   source: chrootuid.c
   digest: The chrootuid jobs, from the first fork to the program in the chroot. -/

import HasherPriv.Chroot.Killuid
import HasherPriv.Chroot.Mount

set_option autoImplicit false
set_option relaxedAutoImplicit false

namespace HasherPriv.Chroot.Chrootuid

open Foundations.ByteString
open Foundations.Program
open Config.CallerData
open Syscall
open Chdir
open Chdiruid
open Mount
open Killuid

/-- What `parse_env` has made of the X11 variables. -/
structure X11 where
  display : Bool := false
  shareCallerNetwork : Bool := false

/-- What a `chrootuid` job executes. -/
structure Program where
  argv : List Bytes
  home : String
  user : String
  path : String

/-- The environment of the program. -/
def Program.env (p : Program) (x : X11) (s : Settings) : List Bytes :=
  [str p.home, str p.user, str p.path, str "TERM=" ++ s.term.getD (str "dumb")] ++
    if x.display then [str "DISPLAY=:10.0"] else []

/-- The supplementary groups of the target user, which the process then drops. -/
def obtainGroups (user : Bytes) (gid : UInt32) : SysProg (List UInt32) := do
  orDie (call (.initgroups user gid)) "initgroups"
  match ← call .getgroups with
  | none => .die "getgroups"
  | some [] => do
      orDie (call (.setgroups [])) "setgroups"
      return []
  | some _ => do
      match ← call .getgroups with
      | none => .die "getgroups"
      | some groups => do
          orDie (call (.setgroups [])) "setgroups"
          return groups

/-- The chroot directory once more, in the new mount namespace. -/
def reopenChroot (c : Caller) (s : Settings) (chrootFd : ℤ) : SysProg ℤ := do
  fchdiruid c s .callerOk chrootFd
  let _ ← helper .unshareMount
  match ← call .openDot with
  | none => .die "open: ."
  | some fd => return fd

/-- The pipes of a job without a pty. -/
def createPipes (usePty : Bool) : SysProg Unit :=
  if usePty then .ret ()
  else do
    orDie (call .pipe) "pipe"
    orDie (call .pipe) "pipe"

/-- The socket pair of a job with X11 forwarding. -/
def createSocketpair (x11 : ℤ) : SysProg Unit :=
  if x11 = 0 then orDie (call .socketpair) "socketpair AF_UNIX" else .ret ()

def unshareNetworkIf (b : Bool) : SysProg Unit :=
  if b then do
    let _ ← helper .unshareNetwork
    return ()
  else .ret ()

/-- The last setup before the second fork. -/
def enterChroot (x : X11) (s : Settings) : SysProg Unit := do
  let _ ← helper .endpwent
  let _ ← helper .sanitizeFds
  createPipes s.usePty
  let x11 ← helper .x11PrepareConnect
  createSocketpair x11
  let _ ← helper .unshareIpc
  let _ ← helper .unshareUts
  unshareNetworkIf (! x.shareCallerNetwork)
  let master ← helper .openPty
  orDie (call .chroot) "chroot"
  let master2 ← helper .openPty
  if max master master2 < 0 then .die "failed to create pty"
  else do
    let _ ← helper .setRlimits
    let _ ← helper .cloexecFds
    let _ ← helper .blockSigchld
    return ()

/-- The parent after the second fork: it gives up its privileges. -/
def becomeParent (c : Caller) : SysProg ℤ := do
  let _ ← helper .closeEnds
  orDie (call .prctlDumpable) "prctl PR_SET_DUMPABLE"
  orDie (call (.setgid c.gid)) "setgid"
  orDie (call (.setuid c.uid)) "setuid"
  helper .handleParent

/-- `personality`, called twice where the first answer looks like an error. -/
def setPersonality (persona : UInt32) : SysProg Unit :=
  if persona = 0xffffffff then .ret ()
  else do
    if ← call (.personality persona) then return ()
    else orDie (call (.personality persona)) "personality"

/-- The child after the second fork. The answer of its `setgroups` is not looked at. -/
def becomeChild (x : X11) (s : Settings) (p : Program) (groups : List UInt32)
    (uid gid persona : UInt32) : SysProg ℤ := do
  let _ ← helper .closeEnds
  unshareNetworkIf x.shareCallerNetwork
  orDie (call .prctlDumpable) "prctl PR_SET_DUMPABLE"
  let _ ← call (.setgroups groups)
  orDie (call (.setgid gid)) "setgid"
  orDie (call (.setuid uid)) "setuid"
  setPersonality persona
  let never ← call (.handleChild p.argv (p.env x s))
  nomatch never

/-- `chrootuid`. -/
def chrootuid (f : Floors) (c : Caller) (s : Settings) (x : X11) (chrootFd : ℤ) (p : Program)
    (uid gid persona : UInt32) (userName : Bytes) : SysProg ℤ := do
  spawnKilluid f s
  let groups ← obtainGroups userName gid
  let _ ← helper .setupNs
  let chrootFd ← reopenChroot c s chrootFd
  let _ ← setupMountpoints c s chrootFd
  fchdiruid c s .callerOk chrootFd
  enterChroot x s
  match ← call .fork with
  | .failed => .die "fork"
  | .parent _ => becomeParent c
  | .child => becomeChild x s p groups uid gid persona

/-- `do_chrootuid1`. -/
def doChrootuid1 (f : Floors) (c : Caller) (s : Settings) (x : X11) (chrootFd : ℤ)
    (argv : List Bytes) (persona : UInt32) : SysProg ℤ :=
  chrootuid f c s x chrootFd
    ⟨argv, "HOME=/root", "USER=root", "PATH=/sbin:/usr/sbin:/bin:/usr/bin"⟩
    s.changeUid1 s.changeGid1 persona (s.changeUser1.getD [])

/-- `do_chrootuid2`. -/
def doChrootuid2 (f : Floors) (c : Caller) (s : Settings) (x : X11) (chrootFd : ℤ)
    (argv : List Bytes) (persona : UInt32) : SysProg ℤ :=
  chrootuid f c s x chrootFd
    ⟨argv, "HOME=/usr/src", "USER=builder", "PATH=/bin:/usr/bin:/usr/X11R6/bin"⟩
    s.changeUid2 s.changeGid2 persona (s.changeUser2.getD [])

/-! The calls of the setup. -/

def IsSetupCall : Sys → Prop
  | .helper _ | .pipe | .socketpair | .chroot => True
  | _ => False

theorem helper_setup (h : Helper) : (helper h).Uses IsSetupCall := by
  refine ⟨trivial, fun rc => ?_⟩
  cases rc <;> trivial

theorem unshareNetworkIf_uses (b : Bool) : (unshareNetworkIf b).Uses IsSetupCall := by
  rw [unshareNetworkIf]
  split_ifs
  · exact (helper_setup .unshareNetwork).bind fun _ => trivial
  · trivial

theorem enterChroot_uses (x : X11) (s : Settings) : (enterChroot x s).Uses IsSetupCall := by
  have hcall (o : Sys) (h : IsSetupCall o) : (call o).Uses IsSetupCall := uses_op h
  have hpipes : (createPipes s.usePty).Uses IsSetupCall := by
    rw [createPipes]
    split_ifs
    · trivial
    · exact (orDie_uses (hcall .pipe trivial) _).bind fun _ =>
        orDie_uses (hcall .pipe trivial) _
  have hsocketpair (x11 : ℤ) : (createSocketpair x11).Uses IsSetupCall := by
    rw [createSocketpair]
    split_ifs
    · exact orDie_uses (hcall .socketpair trivial) _
    · trivial
  refine (helper_setup .endpwent).bind fun _ => (helper_setup .sanitizeFds).bind fun _ =>
    hpipes.bind fun _ => (helper_setup .x11PrepareConnect).bind fun x11 =>
    (hsocketpair x11).bind fun _ => (helper_setup .unshareIpc).bind fun _ =>
    (helper_setup .unshareUts).bind fun _ => (unshareNetworkIf_uses _).bind fun _ =>
    (helper_setup .openPty).bind fun master =>
    (orDie_uses (hcall .chroot trivial) _).bind fun _ =>
    (helper_setup .openPty).bind fun master2 => ?_
  split_ifs
  · trivial
  · exact (helper_setup .setRlimits).bind fun _ => (helper_setup .cloexecFds).bind fun _ =>
      (helper_setup .blockSigchld).bind fun _ => trivial

end HasherPriv.Chroot.Chrootuid
