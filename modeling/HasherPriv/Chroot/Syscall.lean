/- GID: HasherPriv.Chroot.Syscall
   layer: chroot
   source: none
   digest: The system calls, library calls and helper functions of the chroot programs. -/

import HasherPriv.Foundations.ByteString
import HasherPriv.Foundations.Program

set_option autoImplicit false
set_option relaxedAutoImplicit false

namespace HasherPriv.Chroot.Syscall

open Foundations.ByteString (Bytes)
open Foundations.Program

/-- `struct stat`; the link count and the size stand for what is never compared. -/
structure Stat where
  dev : ℕ
  ino : ℕ
  rdev : ℕ
  mode : ℕ
  nlink : ℕ
  size : ℕ
  uid : UInt32
  gid : UInt32
  deriving DecidableEq

/-- `struct mnt_ent`. -/
structure MntEnt where
  fsname : Bytes
  dir : Bytes
  type : Bytes
  opts : Bytes
  deriving DecidableEq

/-- What is used of `struct passwd`. -/
structure Passwd where
  name : Option Bytes
  uid : UInt32
  gid : UInt32
  deriving DecidableEq

/-- The answer of a call whose callers look at one value of `errno`. -/
inductive Answer
  | ok
  | expected
  | failed
  deriving DecidableEq

inductive ForkResult
  | failed
  | child
  | parent (pid : ℕ)
  deriving DecidableEq

/-- A wait status, decoded. -/
inductive WaitStatus
  | exited (rc : ℕ)
  | signaled (signo : ℕ)
  | other
  deriving DecidableEq

/-- Functions of the server that the chroot programs only call for their effect. Each may
end the process. -/
inductive Helper
  | setupNs
  | unshareMount
  | unshareIpc
  | unshareUts
  | unshareNetwork
  | endpwent
  | sanitizeFds
  | cloexecFds
  | x11PrepareConnect
  | openPty
  | setRlimits
  | raiseRlimitNproc
  | purgeIpc (uid1 uid2 : UInt32)
  | logListen
  | blockSigchld
  | handleParent
  | closeEnds
  deriving DecidableEq

/-- Functions whose entry is marked in a trace. -/
inductive Function
  | xmount (dir : Bytes)
  | copyDev (src : Bytes)
  deriving DecidableEq

inductive Sys
  | lstat (name : Bytes)
  | stat (name : Bytes)
  | fstat (fd : ℤ)
  | chdir (name : Bytes)
  | fchdir (fd : ℤ)
  | getcwd
  | openDot
  | setfsuid (uid : UInt32)
  | setfsgid (gid : UInt32)
  | initgroups (user : Bytes) (gid : UInt32)
  | getgroups
  | setgroups (groups : List UInt32)
  | getuid
  | setgid (gid : UInt32)
  | setuid (uid : UInt32)
  | setreuid (ruid euid : UInt32)
  | prctlDumpable
  | kill (pid : ℤ) (signo : ℕ)
  | fork
  | waitpid (pid : ℕ)
  | exit (rc : ℕ)
  | pipe
  | socketpair
  | chroot
  | personality (persona : UInt32)
  | mount (fsname target : Bytes) (type : Option Bytes) (flags : UInt64) (data : Option Bytes)
  | mknod (name : Bytes) (mode major minor : ℕ)
  | mkdir (name : Bytes) (mode : ℕ)
  | symlink (target linkpath : Bytes)
  | umask (mode : ℕ)
  | getgrnam (name : Bytes)
  | getpwnam (name : Bytes)
  | access (name : Bytes)
  | openFile (name : Bytes)
  | fdopen (fd : ℕ)
  | getmntents (fd : ℕ)
  | fgetsAll (fd : ℕ)
  | fclose (fd : ℕ)
  | helper (h : Helper)
  /-- `handle_child`, which executes the program and never returns. -/
  | handleChild (argv env : List Bytes)
  | enter (f : Function)
  deriving DecidableEq

@[reducible] def SysRes : Sys → Type
  | .lstat _ | .stat _ | .fstat _ => Option Stat
  | .chdir _ | .fchdir _ => Bool
  | .getcwd => Option Bytes
  | .openDot => Option ℕ
  | .setfsuid _ | .setfsgid _ => UInt32
  | .initgroups _ _ | .setgroups _ => Bool
  | .getgroups => Option (List UInt32)
  | .getuid => UInt32
  | .setgid _ | .setuid _ | .setreuid _ _ | .prctlDumpable | .kill _ _ => Bool
  | .fork => ForkResult
  | .waitpid _ => Option WaitStatus
  | .exit _ => Empty
  | .pipe | .socketpair | .chroot | .personality _ => Bool
  | .mount _ _ _ _ _ | .mkdir _ _ => Answer
  | .mknod _ _ _ _ | .symlink _ _ => Bool
  | .umask _ => ℕ
  | .getgrnam _ => Option UInt32
  | .getpwnam _ => Option Passwd
  | .access _ => Bool
  | .openFile _ => Option ℕ
  | .fdopen _ | .fclose _ => Bool
  | .getmntents _ => List MntEnt
  | .fgetsAll _ => List Bytes × Bool
  | .helper _ => Option ℤ
  | .handleChild _ _ => Empty
  | .enter _ => Unit

/-- The arguments of a call of `mount`. -/
structure MountCall where
  fsname : Bytes
  target : Bytes
  type : Option Bytes
  flags : UInt64
  data : Option Bytes
  deriving DecidableEq

def mountCall : Sys → Option MountCall
  | .mount fsname target type flags data => some ⟨fsname, target, type, flags, data⟩
  | _ => none

abbrev SysProg := Prog Sys SysRes

abbrev call (o : Sys) : SysProg (SysRes o) := .op o

/-- Call a helper function that may end the process. -/
def helper (h : Helper) : SysProg ℤ := do
  match ← call (.helper h) with
  | some rc => return rc
  | none => .die "helper"

/-- A call whose failure ends the process. -/
def orDie (o : SysProg Bool) (why : String) : SysProg Unit := do
  if ← o then return () else .die why

theorem orDie_uses {P : Sys → Prop} {o : SysProg Bool} (h : o.Uses P) (why : String) :
    (orDie o why).Uses P :=
  h.bind fun r => by cases r <;> trivial

theorem returns_orDie {o : SysProg Bool} {why : String} {tr : List (Event SysRes)} :
    Runs (orDie o why) tr (.returned ()) ↔ Runs o tr (.returned true) := by
  rw [orDie, bind_eq_bind, returns_bind]
  constructor
  · rintro ⟨r, t₁, t₂, rfl, h₁, h₂⟩
    cases r with
    | true =>
        obtain ⟨rfl, -⟩ := returns_ret.mp h₂
        rwa [List.append_nil]
    | false => exact (returns_die h₂).elim
  · intro h
    exact ⟨true, tr, [], (List.append_nil tr).symm, h, .ret ()⟩

theorem returns_helper {h : Helper} {tr : List (Event SysRes)} {rc : ℤ} :
    Runs (helper h) tr (.returned rc) ↔ tr = [⟨.helper h, some rc⟩] := by
  rw [helper, bind_eq_bind, returns_op_bind]
  constructor
  · rintro ⟨r, rest, rfl, hr⟩
    cases r with
    | none => exact (returns_die hr).elim
    | some rc' =>
        obtain ⟨rfl, rfl⟩ := returns_ret.mp hr
        rfl
  · rintro rfl
    exact ⟨some rc, [], rfl, .ret rc⟩

end HasherPriv.Chroot.Syscall
