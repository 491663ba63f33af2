/- GID: HasherPriv/Chroot/Chdiruid
   layer: chroot
   source: chdiruid.c, chid.c
   digest: Changing the working directory with the caller's credentials, inside the prefixes. -/

import HasherPriv.Chroot.Chdir
import HasherPriv.Config.CallerData

set_option autoImplicit false
set_option relaxedAutoImplicit false

namespace HasherPriv.Chroot.Chdiruid

open Foundations.ByteString
open Foundations.Program
open Config.CallerData
open Syscall
open Chdir

/-- `strncmp (a, b, n) == 0` for strings without NUL bytes. -/
def strncmpEq (a b : Bytes) (n : ℕ) : Bool := a.take n = b.take n

/-- `is_prefix`. -/
def isPrefix (pre sample : Bytes) : Bool :=
  let len := pre.length
  let next := (sample ++ [0]).getD len 0
  strncmpEq sample pre len && (next = 0 || next = slash)

/-- The variable `invalid` at the end of the loop of `check_cwd`. -/
def prefixMismatch (prefixes : Option (List Bytes)) (cwd : Bytes) : Bool :=
  match prefixes with
  | none => false
  | some list => ¬ list.any fun pre => isPrefix pre cwd

/-- `check_cwd`. -/
def checkCwd (s : Settings) : SysProg Unit := do
  match ← call .getcwd with
  | none => .die "getcwd"
  | some cwd =>
      if prefixMismatch s.prefixes.list cwd then
        let dir := text cwd
        let path := text s.prefixes.path
        .die s!"{dir}: prefix mismatch, working directory should start with one of directories listed in colon-separated prefix list ({path})"
      else return ()

/-- `ch_uid`: the second call tells whether the first one took effect. -/
def chUid (uid : UInt32) : SysProg UInt32 := do
  let save ← call (.setfsuid uid)
  if (← call (.setfsuid uid)) = uid then return save
  else .die s!"failed to change fsuid to {uid}"

/-- `ch_gid`. -/
def chGid (gid : UInt32) : SysProg UInt32 := do
  let save ← call (.setfsgid gid)
  if (← call (.setfsgid gid)) = gid then return save
  else .die s!"failed to change fsgid to {gid}"

/-- `change_creds`: the saved uid and gid. -/
def changeCreds (c : Caller) : SysProg (UInt32 × UInt32) := do
  orDie (call (.initgroups c.user c.gid)) "initgroups"
  let savedGid ← chGid c.gid
  let savedUid ← chUid c.uid
  return (savedUid, savedGid)

/-- `restore_creds`. -/
def restoreCreds (saved : UInt32 × UInt32) : SysProg Unit := do
  let _ ← chUid saved.1
  let _ ← chGid saved.2
  orDie (call (.setgroups [])) "setgroups"

/-- The identities that the validators are given. -/
def owners (c : Caller) (s : Settings) : Owners := ⟨c.uid, s.changeUid1, s.changeGid1⟩

/-- The middle part of `chdiruid`: its loop calls `safe_chdir`, which has such a loop too. -/
def chdirElements (who : Owners) (v : Validator) (path : Bytes) (saved : StrtokState) :
    SysProg StrtokState :=
  if isSingle path then safeChdir who v path saved
  else strtokEach (safeChdir who v) (path.length + 1) (some path) saved

/-- `chdiruid`. -/
def chdiruid (c : Caller) (s : Settings) (v : Validator) (path : Bytes) (saved : StrtokState) :
    SysProg StrtokState := do
  let creds ← changeCreds c
  let saved ← chdirElements (owners c s) v path saved
  checkCwd s
  restoreCreds creds
  return saved

/-- `fchdiruid`. -/
def fchdiruid (c : Caller) (s : Settings) (v : Validator) (fd : ℤ) : SysProg Unit :=
  if fd < 0 then .die "invalid chroot fd"
  else do
    let creds ← changeCreds c
    safeFchdir (owners c s) v fd
    checkCwd s
    restoreCreds creds

/-! The calls that a change of directory as the caller makes. -/

/-- The calls between the two changes of credentials. -/
def IsWalkCall : Sys → Prop
  | .lstat _ | .chdir _ | .fstat _ | .fchdir _ | .getcwd => True
  | _ => False

def IsChdiruidCall : Sys → Prop
  | .lstat _ | .chdir _ | .fstat _ | .fchdir _ | .getcwd => True
  | .setfsuid _ | .setfsgid _ | .initgroups _ _ | .setgroups _ => True
  | _ => False

theorem IsWalkCall.chdiruid {o : Sys} (h : IsWalkCall o) : IsChdiruidCall o := by
  cases o with
  | lstat name => trivial
  | chdir name => trivial
  | fstat fd => trivial
  | fchdir fd => trivial
  | getcwd => trivial
  | _ => exact h.elim

theorem isWalkCall_of_chdir {o : Sys} (h : IsChdirCall o) : IsWalkCall o := by
  cases o with
  | lstat name => trivial
  | chdir name => trivial
  | _ => exact h.elim

private theorem single_uses {o : Sys} (h : IsChdiruidCall o) : (call o).Uses IsChdiruidCall :=
  uses_op h

theorem checkCwd_walks (s : Settings) : (checkCwd s).Uses IsWalkCall := by
  refine ⟨trivial, fun cwd => ?_⟩
  rcases cwd with _ | cwd
  · trivial
  · change Prog.Uses _ (ite _ _ _)
    split_ifs <;> trivial

theorem chdirElements_walks (who : Owners) (v : Validator) (path : Bytes) (saved : StrtokState) :
    (chdirElements who v path saved).Uses IsWalkCall := by
  have hwalk (elem : Bytes) (saved : StrtokState) : (safeChdir who v elem saved).Uses IsWalkCall :=
    (safeChdir_uses who v elem saved).mono fun _ => isWalkCall_of_chdir
  rw [chdirElements]
  split_ifs
  · exact hwalk path saved
  · exact strtokEach_uses hwalk _ _ _

theorem safeFchdir_walks (who : Owners) (v : Validator) (fd : ℤ) :
    (safeFchdir who v fd).Uses IsWalkCall := by
  refine ⟨trivial, fun st => ?_⟩
  rcases st with _ | st
  · trivial
  · have hfchdir : (call (.fchdir fd)).Uses IsWalkCall := uses_op trivial
    exact (validate_uses _ who v st _).bind fun _ => orDie_uses hfchdir _

theorem chUid_uses (uid : UInt32) : (chUid uid).Uses IsChdiruidCall := by
  refine ⟨trivial, fun save => ⟨trivial, fun r => ?_⟩⟩
  change Prog.Uses _ (ite _ _ _)
  split_ifs <;> trivial

theorem chGid_uses (gid : UInt32) : (chGid gid).Uses IsChdiruidCall := by
  refine ⟨trivial, fun save => ⟨trivial, fun r => ?_⟩⟩
  change Prog.Uses _ (ite _ _ _)
  split_ifs <;> trivial

theorem changeCreds_uses (c : Caller) : (changeCreds c).Uses IsChdiruidCall :=
  (orDie_uses (single_uses (o := .initgroups c.user c.gid) trivial) _).bind fun _ =>
    (chGid_uses _).bind fun _ => (chUid_uses _).bind fun _ => trivial

theorem restoreCreds_uses (saved : UInt32 × UInt32) : (restoreCreds saved).Uses IsChdiruidCall :=
  (chUid_uses _).bind fun _ => (chGid_uses _).bind fun _ =>
    orDie_uses (single_uses (o := .setgroups []) trivial) _

theorem chdirElements_uses (who : Owners) (v : Validator) (path : Bytes) (saved : StrtokState) :
    (chdirElements who v path saved).Uses IsChdiruidCall :=
  (chdirElements_walks who v path saved).mono fun _ => IsWalkCall.chdiruid

theorem checkCwd_uses (s : Settings) : (checkCwd s).Uses IsChdiruidCall :=
  (checkCwd_walks s).mono fun _ => IsWalkCall.chdiruid

theorem safeFchdir_uses (who : Owners) (v : Validator) (fd : ℤ) :
    (safeFchdir who v fd).Uses IsChdiruidCall :=
  (safeFchdir_walks who v fd).mono fun _ => IsWalkCall.chdiruid

theorem chdiruid_uses (c : Caller) (s : Settings) (v : Validator) (path : Bytes)
    (saved : StrtokState) : (chdiruid c s v path saved).Uses IsChdiruidCall :=
  (changeCreds_uses c).bind fun _ => (chdirElements_uses _ v path saved).bind fun _ =>
    (checkCwd_uses s).bind fun _ => (restoreCreds_uses _).bind fun _ => trivial

theorem fchdiruid_uses (c : Caller) (s : Settings) (v : Validator) (fd : ℤ) :
    (fchdiruid c s v fd).Uses IsChdiruidCall := by
  rw [fchdiruid]
  split_ifs
  · trivial
  · exact (changeCreds_uses c).bind fun _ => (safeFchdir_uses _ v fd).bind fun _ =>
      (checkCwd_uses s).bind fun _ => restoreCreds_uses _

end HasherPriv.Chroot.Chdiruid
