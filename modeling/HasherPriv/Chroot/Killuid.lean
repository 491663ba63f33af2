/- GID: HasherPriv/Chroot/Killuid
   layer: chroot
   source: killuid.c, spawn_killuid.c
   digest: Killing every process of the two users, here or in a child. -/

import HasherPriv.Chroot.Syscall
import HasherPriv.Config.CallerData

set_option autoImplicit false
set_option relaxedAutoImplicit false

namespace HasherPriv.Chroot.Killuid

open Foundations.Program
open Config.CallerData
open Syscall

/-- `SIGKILL`. -/
def sigkill : ℕ := 9

/-- `do_killuid`; the value is 0. -/
def doKilluid (f : Floors) (s : Settings) : SysProg Unit := do
  let u ← call .getuid
  let uid1 := s.changeUid1
  let uid2 := s.changeUid2
  if ¬ f.validUid uid1 ∨ uid1 = u then .die s!"invalid uid: {uid1}"
  else if ¬ f.validUid uid2 ∨ uid2 = u then .die s!"invalid uid: {uid2}"
  else do
    let _ ← helper .raiseRlimitNproc
    orDie (call .prctlDumpable) "prctl PR_SET_DUMPABLE"
    orDie (call (.setreuid uid1 uid2)) "setreuid"
    orDie (call (.kill (-1) sigkill)) "kill"
    let _ ← helper (.purgeIpc uid1 uid2)
    orDie (call (.setreuid uid2 uid1)) "setreuid"
    let _ ← helper (.purgeIpc uid1 uid2)
    return ()

/-- `spawn_killuid`. -/
def spawnKilluid (f : Floors) (s : Settings) : SysProg Unit := do
  match ← call .fork with
  | .failed => .die "fork"
  | .child => do
      doKilluid f s
      let never ← call (.exit 0)
      nomatch never
  | .parent pid => do
      match ← call (.waitpid pid) with
      | none => .die "waitpid"
      | some (.exited rc) => if rc = 0 then return () else .die s!"exit status {rc}"
      | some (.signaled signo) => .die s!"terminated by signal {signo}"
      | some .other => .die "unrecognized status"

end HasherPriv.Chroot.Killuid
