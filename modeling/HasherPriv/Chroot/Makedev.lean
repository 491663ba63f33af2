/- GID: HasherPriv/Chroot/Makedev
   layer: chroot
   source: makedev.c
   digest: Creating the device files of the chroot. -/

import HasherPriv.Chroot.Chdiruid

set_option autoImplicit false
set_option relaxedAutoImplicit false

namespace HasherPriv.Chroot.Makedev

open Foundations.ByteString
open Foundations.Program
open Config.CallerData
open Syscall
open Chdir
open Chdiruid

def sIfchr : ℕ := 0o020000
def sIfblk : ℕ := 0o060000

def xmknod (name : Bytes) (mode major minor : ℕ) : SysProg Unit :=
  orDie (call (.mknod name mode major minor)) (text name)

def xmkdir (name : Bytes) (mode : ℕ) : SysProg Unit := do
  match ← call (.mkdir name mode) with
  | .ok => return ()
  | _ => .die (text name)

def xsymlink (target linkpath : Bytes) : SysProg Unit :=
  orDie (call (.symlink target linkpath)) (text linkpath)

/-- What stands before each slash of a name. -/
def parents : Bytes → List Bytes
  | [] => []
  | c :: name =>
      if c = slash then [] :: (parents name).map (c :: ·) else (parents name).map (c :: ·)

/-- `make_parent_directories`; `.expected` is `EEXIST`. -/
def makeParentDirectories (name : Bytes) : SysProg Unit :=
  .each (fun dir => do
    match ← call (.mkdir dir 0o755) with
    | .failed => .die (text dir)
    | _ => return ()) (parents name)

/-- The mode of the new device file. -/
def deviceMode (mode : ℕ) : ℕ :=
  let dev := mode &&& (sIfchr ||| sIfblk)
  let dev := if mode &&& 0o400 ≠ 0 ∧ mode &&& 0o044 ≠ 0 then dev ||| 0o444 else dev
  if mode &&& 0o200 ≠ 0 ∧ mode &&& 0o022 ≠ 0 then dev ||| 0o222 else dev

/-- The major and minor numbers of a device number. -/
def major (dev : ℕ) : ℕ := (dev >>> 8 &&& 0xfff) ||| (dev >>> 32 &&& 0xfffff000)
def minor (dev : ℕ) : ℕ := (dev &&& 0xff) ||| (dev >>> 12 &&& 0xffffff00)

/-- `copy_dev`. -/
def copyDev (src : Bytes) : SysProg Unit := do
  call (.enter (.copyDev src))
  let path := text src
  let name := src.drop 5
  if ¬ strncmpEq src (str "/dev/") 5 ∨ name = [] then .die s!"{path}: invalid device name"
  else
    match ← call (.stat src) with
    | none => .die s!"stat: {path}"
    | some st =>
        if st.mode &&& (sIfchr ||| sIfblk) = 0 then .die s!"{path}: not a device"
        else if slash ∈ name then do
          makeParentDirectories name
          xmknod name (deviceMode st.mode) (major st.rdev) (minor st.rdev)
        else xmknod name (deviceMode st.mode) (major st.rdev) (minor st.rdev)

/-- The device files that are always made. -/
def setupStandardDevices : SysProg Unit := do
  xmkdir (str "pts") 0o755
  xmkdir (str "shm") 0o755
  xsymlink (str "../proc/self/fd") (str "fd")
  xsymlink (str "../proc/self/fd/0") (str "stdin")
  xsymlink (str "../proc/self/fd/1") (str "stdout")
  xsymlink (str "../proc/self/fd/2") (str "stderr")
  xmknod (str "null") (sIfchr ||| 0o666) 1 3
  xmknod (str "zero") (sIfchr ||| 0o666) 1 5
  xmknod (str "full") (sIfchr ||| 0o666) 1 7
  xmknod (str "urandom") (sIfchr ||| 0o644) 1 9
  xmknod (str "random") (sIfchr ||| 0o644) 1 9

/-- The device files made on `makedev_console`. -/
def setupConsole (makedevConsole : Bool) : SysProg Unit :=
  if makedevConsole then do
    xmknod (str "console") (sIfchr ||| 0o600) 5 1
    xmknod (str "tty0") (sIfchr ||| 0o600) 4 0
    xmknod (str "fb0") (sIfchr ||| 0o600) 29 0
  else .ret ()

/-- The files made when `/dev/pts` is going to be mounted. -/
def setupPts (devPtsMounted : Bool) : SysProg Unit :=
  if devPtsMounted then do
    xmknod (str "tty") (sIfchr ||| 0o666) 5 0
    xsymlink (str "pts/ptmx") (str "ptmx")
  else .ret ()

/-- `setup_devices`; the gid to return to is the one saved by the first `ch_gid`. -/
def setupDevices (c : Caller) (s : Settings) (chrootFd : ℤ) (devPtsMounted : Bool)
    (vec : List Bytes) : SysProg Unit := do
  fchdiruid c s .callerOk chrootFd
  let _ ← chdiruid c s .rootOk (str "dev") []
  let savedGid ← chGid 0
  let m ← call (.umask 0)
  setupStandardDevices
  setupConsole s.makedevConsole
  setupPts devPtsMounted
  let _ ← helper .logListen
  .each copyDev vec
  let _ ← call (.umask m)
  let _ ← chGid savedGid
  return ()

/-! The calls that make the files. -/

def IsDeviceCall : Sys → Prop
  | .mkdir _ _ | .mknod _ _ _ _ | .symlink _ _ | .stat _ => True
  | _ => False

theorem xmknod_uses (name : Bytes) (mode maj min : ℕ) :
    (xmknod name mode maj min).Uses IsDeviceCall := by
  have hmknod : (call (.mknod name mode maj min)).Uses IsDeviceCall := uses_op trivial
  exact orDie_uses hmknod _

theorem xmkdir_uses (name : Bytes) (mode : ℕ) : (xmkdir name mode).Uses IsDeviceCall := by
  refine ⟨trivial, fun r => ?_⟩
  cases r <;> trivial

theorem xsymlink_uses (target linkpath : Bytes) : (xsymlink target linkpath).Uses IsDeviceCall := by
  have hsymlink : (call (.symlink target linkpath)).Uses IsDeviceCall := uses_op trivial
  exact orDie_uses hsymlink _

theorem makeParentDirectories_uses (name : Bytes) :
    (makeParentDirectories name).Uses IsDeviceCall := by
  refine Prog.Uses.each fun dir _ => ⟨trivial, fun r => ?_⟩
  cases r <;> trivial

theorem setupStandardDevices_uses : setupStandardDevices.Uses IsDeviceCall :=
  (xmkdir_uses _ _).bind fun _ => (xmkdir_uses _ _).bind fun _ =>
    (xsymlink_uses _ _).bind fun _ => (xsymlink_uses _ _).bind fun _ =>
    (xsymlink_uses _ _).bind fun _ => (xsymlink_uses _ _).bind fun _ =>
    (xmknod_uses _ _ _ _).bind fun _ => (xmknod_uses _ _ _ _).bind fun _ =>
    (xmknod_uses _ _ _ _).bind fun _ => (xmknod_uses _ _ _ _).bind fun _ =>
    xmknod_uses _ _ _ _

theorem setupConsole_uses (makedevConsole : Bool) :
    (setupConsole makedevConsole).Uses IsDeviceCall := by
  rw [setupConsole]
  split_ifs
  · exact (xmknod_uses _ _ _ _).bind fun _ => (xmknod_uses _ _ _ _).bind fun _ =>
      xmknod_uses _ _ _ _
  · trivial

theorem setupPts_uses (devPtsMounted : Bool) : (setupPts devPtsMounted).Uses IsDeviceCall := by
  rw [setupPts]
  split_ifs
  · exact (xmknod_uses _ _ _ _).bind fun _ => xsymlink_uses _ _
  · trivial

/-- `copy_dev` after its entry. -/
theorem copyDev_enters (src : Bytes) : ∃ k : Unit → SysProg Unit,
    copyDev src = .call (.enter (.copyDev src)) k ∧ ∀ r, (k r).Uses IsDeviceCall := by
  refine ⟨_, rfl, fun _ => ?_⟩
  change Prog.Uses _ (ite _ _ _)
  split
  · trivial
  · refine ⟨trivial, fun st => ?_⟩
    rcases st with _ | st
    · trivial
    · change Prog.Uses _ (ite _ _ _)
      split_ifs
      · trivial
      · exact (makeParentDirectories_uses _).bind fun _ => xmknod_uses _ _ _ _
      · exact xmknod_uses _ _ _ _

end HasherPriv.Chroot.Makedev
