/- GID: HasherPriv/Chroot/Mount
   layer: chroot
   source: mount.c
   digest: Mounting what the client requests and the configuration allows. -/

import HasherPriv.Chroot.Makedev
import HasherPriv.Config.FileConfig

set_option autoImplicit false
set_option relaxedAutoImplicit false

namespace HasherPriv.Chroot.Mount

open Foundations.ByteString
open Foundations.Numerals (isDigit)
open Foundations.Program
open Config.CallerData
open Config.ListOptions
open Config.FileConfig
open Syscall
open Chdir
open Chdiruid
open Makedev

/-- `SOCKETDIR`, as the Makefile sets it. -/
def socketDir : Bytes := str "/run/hasher-priv"

def defFstab : List MntEnt :=
  [⟨str "dev", str "/dev", str "tmpfs",
      str "nosuid,noexec,gid=0,mode=755,nr_blocks=0,nr_inodes=256"⟩,
    ⟨str "proc", str "/proc", str "proc", str "ro,nosuid,nodev,noexec,gid=proc,hidepid=2"⟩,
    ⟨str "devpts", str "/dev/pts", str "devpts",
      str "ro,nosuid,noexec,gid=tty,mode=0620,ptmxmode=0666,newinstance"⟩,
    ⟨str "sysfs", str "/sys", str "sysfs", str "ro,nosuid,nodev,noexec"⟩,
    ⟨str "shmfs", str "/dev/shm", str "tmpfs",
      str "nosuid,nodev,noexec,gid=0,mode=1777,nr_blocks=4096,nr_inodes=4096"⟩,
    ⟨str "/sys/fs/cgroup", str "/sys/fs/cgroup", str "rbind",
      str "ro,rbind,nosuid,nodev,noexec"⟩,
    ⟨socketDir, socketDir, str "rbind", str "rbind,nosuid,nodev,noexec"⟩]

/-! `<sys/mount.h>`. -/

def msRdonly : UInt64 := 1
def msNosuid : UInt64 := 2
def msNodev : UInt64 := 4
def msNoexec : UInt64 := 8
def msSynchronous : UInt64 := 16
def msMandlock : UInt64 := 64
def msDirsync : UInt64 := 128
def msNoatime : UInt64 := 1024
def msNodiratime : UInt64 := 2048
def msBind : UInt64 := 4096
def msRec : UInt64 := 16384
def msSlave : UInt64 := 0x80000
def msMgcVal : UInt64 := 0xc0ed0000

/-- `opt_map`: name, invert, value. -/
def optMap : List (String × Bool × UInt64) :=
  [("defaults", false, 0), ("rw", true, msRdonly), ("ro", false, msRdonly),
    ("suid", true, msNosuid), ("nosuid", false, msNosuid), ("dev", true, msNodev),
    ("nodev", false, msNodev), ("exec", true, msNoexec), ("noexec", false, msNoexec),
    ("sync", false, msSynchronous), ("async", true, msSynchronous), ("mand", false, msMandlock),
    ("nomand", true, msMandlock), ("dirsync", false, msDirsync), ("dirasync", true, msDirsync),
    ("bind", false, msBind), ("rbind", false, msBind ||| msRec), ("atime", true, msNoatime),
    ("noatime", false, msNoatime), ("diratime", true, msNodiratime),
    ("nodiratime", false, msNodiratime)]

/-- A `gid=` option with a name in place of the number. -/
def namesGroup (opt : Bytes) : Bool :=
  strncmpEq opt (str "gid=") 4 && ! isDigit ((opt ++ [0]).getD 4 0)

/-- The option as it is passed on: a known group name becomes its number. -/
def resolveOption (opt : Bytes) : SysProg Bytes :=
  if namesGroup opt then do
    match ← call (.getgrnam (opt.drop 4)) with
    | some gid => return str "gid=" ++ decimal gid.toNat
    | none => return opt
  else .ret opt

/-- `parse_opt`. -/
def parseOpt (opt : Bytes) (flags : UInt64) (options : Option Bytes) :
    SysProg (UInt64 × Option Bytes) :=
  match optMap.find? fun o => str o.1 = opt with
  | some (_, invert, value) =>
      .ret (if invert then flags &&& ~~~ value else flags ||| value, options)
  | none => do
      let opt ← resolveOption opt
      match options with
      | some options => return (flags, some (options ++ 44 :: opt))
      | none => return (flags, some opt)

/-- The loop of `xmount` over the options. -/
def parseOpts : List Bytes → UInt64 → Option Bytes → SysProg (UInt64 × Option Bytes)
  | [], flags, options => .ret (flags, options)
  | opt :: opts, flags, options => do
      let (flags, options) ← parseOpt opt flags options
      parseOpts opts flags options

theorem parseOpt_uses (opt : Bytes) (flags : UInt64) (options : Option Bytes) :
    (parseOpt opt flags options).Uses fun o => ∃ name, o = .getgrnam name := by
  have hresolve : (resolveOption opt).Uses fun o => ∃ name, o = .getgrnam name := by
    rw [resolveOption]
    split_ifs
    · refine ⟨⟨_, rfl⟩, fun gid => ?_⟩
      rcases gid with _ | gid <;> trivial
    · trivial
  rw [parseOpt]
  split
  · trivial
  · refine hresolve.bind fun opt => ?_
    cases options <;> trivial

theorem parseOpts_uses (opts : List Bytes) (flags : UInt64) (options : Option Bytes) :
    (parseOpts opts flags options).Uses fun o => ∃ name, o = .getgrnam name := by
  induction opts generalizing flags options with
  | nil => trivial
  | cons opt opts ih => exact (parseOpt_uses opt flags options).bind fun r => ih r.1 r.2

/-- `xmount`. -/
def xmount (c : Caller) (s : Settings) (chrootFd : ℤ) (e : MntEnt) : SysProg Unit := do
  call (.enter (.xmount e.dir))
  let dir := text e.dir
  if e.dir.head? ≠ some slash then .die dir
  else
    let opts := strtokLoop (· = 44) (e.opts.length + 1) e.opts
    let (flags, options) ← parseOpts opts (msMgcVal ||| msNosuid) none
    fchdiruid c s .callerOk chrootFd
    let isDevSubdir := strncmpEq (e.dir.drop 1) (str "dev/") 4
    -- Whatever `strtok` was left with is not read: every walk hands it a new string.
    let _ ← chdiruid c s (if isDevSubdir then .rootOk else .callerRooterOk) (e.dir.drop 1) []
    match ← call (.mount e.fsname (str ".") (some e.type) flags (some (options.getD []))) with
    | .ok => return ()
    | _ => .die s!"mount: {dir}"

/-- `setup_fstab`, which leaves the entries of the file in `var_fstab`. -/
def setupFstab (c : Caller) (s : Settings) : SysProg (List MntEnt) := do
  let who := owners c s
  let _ ← safeChdir who .rootOk (str "/") []
  let _ ← safeChdir who .rootOk (str "etc/hasher-priv") []
  let varFstab ← loadConfig who (str "fstab") fun fd => call (.getmntents fd)
  let _ ← safeChdir who .rootOk (str "/") []
  return varFstab

/-- `lookup_mount_entry`: the file has precedence over the built-in table. -/
def lookupMountEntry (varFstab : List MntEnt) (mpoint : Bytes) : Except String MntEnt :=
  match (varFstab ++ defFstab).find? fun e => e.dir = mpoint with
  | some e => .ok e
  | none =>
      let item := text mpoint
      .error s!"{item}: mount point is not supported"

/-- `xmount (lookup_mount_entry (mpoint))`. -/
def mountPoint (c : Caller) (s : Settings) (chrootFd : ℤ) (varFstab : List MntEnt)
    (mpoint : Bytes) : SysProg Unit :=
  match lookupMountEntry varFstab mpoint with
  | .error why => .die why
  | .ok e => xmount c s chrootFd e

/-- `dev_vec`, `mpoint_vec` and `dev_pts_mounted`. -/
structure Requested where
  devVec : List Bytes := []
  mpointVec : List Bytes := []
  devPtsMounted : Bool := false
  deriving DecidableEq

/-- The two items that are mounted unconditionally. -/
def unconditional (item : Bytes) : Bool := item = str "/dev" ∨ item = str "/dev/shm"

/-- The body of the first loop of `setup_mountpoints`. -/
def sortItem (s : Settings) (r : Requested) (item : Bytes) : Except String Requested :=
  let name := text item
  if unconditional item then .ok r
  else if item.head? ≠ some slash ∨ item.tail.head? = some slash then
    .error s!"{name}: mount point is not supported"
  else
    let allowedDev := isAllowed item s.allowedDevices
    let allowedMpoint := isAllowed item s.allowedMountpoints
    if allowedDev && allowedMpoint then
      .error s!"{name}: configured as device and mount point simultaneously"
    else if allowedDev then
      if strncmpEq item (str "/dev/") 5 then .ok { r with devVec := r.devVec ++ [item] }
      else .error s!"{name}: device name is not supported"
    else if allowedMpoint then
      .ok { r with
        mpointVec := r.mpointVec ++ [item]
        devPtsMounted := r.devPtsMounted || item = str "/dev/pts" }
    else .error s!"{name}: mount point is not allowed"

/-- The first loop of `setup_mountpoints`. -/
def sortItems (s : Settings) : List (Option Bytes) → Requested → Except String Requested
  | [], r => .ok r
  | none :: slots, r => sortItems s slots r
  | some item :: slots, r => do
      let r ← sortItem s r item
      sortItems s slots r

/-- `setup_mountpoints` after the first loop. `.expected` is `EINVAL`. -/
def mountAll (c : Caller) (s : Settings) (chrootFd : ℤ) (r : Requested) :
    SysProg Unit := do
  match ← call (.mount (str "/") (str "/") none (msSlave ||| msRec) none) with
  | .failed => .die "mount MS_SLAVE"
  | _ =>
      let varFstab ← setupFstab c s
      mountPoint c s chrootFd varFstab (str "/dev")
      setupDevices c s chrootFd r.devPtsMounted r.devVec
      mountPoint c s chrootFd varFstab (str "/dev/shm")
      .each (mountPoint c s chrootFd varFstab) r.mpointVec

/-- `setup_mountpoints`; the value is the new `dev_pts_mounted`. -/
def setupMountpoints (c : Caller) (s : Settings) (chrootFd : ℤ) : SysProg Bool :=
  match sortItems s (s.requestedMountpoints.slots.take s.requestedMountpoints.len) {} with
  | .error why => .die why
  | .ok r => do
      mountAll c s chrootFd r
      return r.devPtsMounted

end HasherPriv.Chroot.Mount
