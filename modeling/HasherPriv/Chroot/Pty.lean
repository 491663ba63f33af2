/- GID: HasherPriv/Chroot/Pty
   layer: chroot
   source: pty.c
   digest: Opening a pty with the caller's credentials, outside and inside the chroot. -/

import HasherPriv.Chroot.Makedev

set_option autoImplicit false
set_option relaxedAutoImplicit false

namespace HasherPriv.Chroot.Pty

open Foundations.ByteString
open Foundations.Program
open Config.CallerData
open Syscall
open Chdir
open Chdiruid
open Makedev (sIfchr)

/-- `enum open_pty_chrootedness`. -/
inductive Chrootedness
  | openPtyUnchrooted
  | openPtyChrooted
  deriving DecidableEq

/-- `enum open_pty_verbosity`. -/
inductive Verbosity
  | openPtySilent
  | openPtyVerbose
  deriving DecidableEq

/-- The calls that only this function makes. -/
inductive PtyCall
  | open (name : Bytes) (flags : ℕ)
  | tiocgptn (fd : ℤ)
  | tiocsptlck (fd : ℤ) (lock : ℕ)
  | close (fd : ℤ)
  | perrorMsg (text : String)
  deriving DecidableEq

@[reducible] def PtyCallRes : PtyCall → Type
  | .open _ _ => Option ℕ
  | .tiocgptn _ => Option UInt32
  | .tiocsptlck _ _ | .close _ => Bool
  | .perrorMsg _ => Unit

abbrev PtyOp := Sys ⊕ PtyCall

abbrev PtyRes := EitherRes SysRes PtyCallRes

abbrev PtyProg := Prog PtyOp PtyRes

abbrev sysCall (o : Sys) : PtyProg (SysRes o) := @Prog.op PtyOp PtyRes (.inl o)

abbrev ptyCall (o : PtyCall) : PtyProg (PtyCallRes o) := @Prog.op PtyOp PtyRes (.inr o)

/-- `O_RDWR | O_NOCTTY`. -/
def devOpenFlags : ℕ := 0o2 ||| 0o400

/-- `S_IFCHR | 0666`. -/
def rwdev : ℕ := sIfchr ||| 0o666

/-- `dev_ptmx`, and `pts_fmt` before its `%u`. -/
structure Names where
  devPtmx : Bytes
  pts : Bytes
  deriving DecidableEq

/-- `xclose`: the variable afterwards. -/
def xclose (fd : ℤ) : PtyProg ℤ :=
  if fd < 0 then return fd
  else do
    if ← ptyCall (.close fd) then return -1 else return fd

def complain (verboseError : Verbosity) (text : String) : PtyProg Unit :=
  match verboseError with
  | .openPtySilent => return ()
  | .openPtyVerbose => ptyCall (.perrorMsg text)

/-- From the label `err` to the label `out`. -/
def closeBoth (ptmx slave : ℤ) : PtyProg (ℤ × ℤ) := do
  let slave ← xclose slave
  let ptmx ← xclose ptmx
  return (ptmx, slave)

/-- Where the devices are; the first two ways to the label `err`. -/
def devNames (who : Owners) (devPtsMounted : Bool) : Chrootedness → PtyProg (Option Names)
  | .openPtyUnchrooted => return some ⟨str "/dev/ptmx", str "/dev/pts/"⟩
  | .openPtyChrooted =>
      if devPtsMounted then do
        let _ ← (safeChdir who .rootOk (str "dev") []).inl
        match ← sysCall (.stat (str "pts/ptmx")) with
        | none => return none
        | some st =>
            if st.mode &&& rwdev = rwdev then return some ⟨str "ptmx", str "pts/"⟩
            else return none
      else return none

/-- The two descriptors; the other four ways to the label `err`. -/
def openPair (verboseError : Verbosity) (names : Names) : PtyProg (ℤ × ℤ) := do
  let path := text names.devPtmx
  match ← ptyCall (.open names.devPtmx devOpenFlags) with
  | none =>
      complain verboseError s!"open: {path}"
      closeBoth (-1) (-1)
  | some ptmx =>
      match ← ptyCall (.tiocgptn ptmx) with
      | none =>
          complain verboseError s!"ioctl TIOCGPTN: {path}"
          closeBoth ptmx (-1)
      | some num =>
          let ptsname := names.pts ++ decimal num.toNat
          if ← ptyCall (.tiocsptlck ptmx 0) then
            match ← ptyCall (.open ptsname devOpenFlags) with
            | none =>
                let slavePath := text ptsname
                complain verboseError s!"open: {slavePath}"
                closeBoth ptmx (-1)
            | some slave => return (ptmx, slave)
          else
            complain verboseError s!"ioctl TIOCSPTLCK: {path}"
            closeBoth ptmx (-1)

/-- The part of `open_pty` that runs with the caller's credentials, up to the label `out`. -/
def openAsCaller (who : Owners) (devPtsMounted : Bool) (chrooted : Chrootedness)
    (verboseError : Verbosity) : PtyProg (ℤ × ℤ) := do
  match ← devNames who devPtsMounted chrooted with
  | none => closeBoth (-1) (-1)
  | some names => openPair verboseError names

/-- `chdir ("/")`. -/
def leaveDev : Chrootedness → PtyProg Unit
  | .openPtyUnchrooted => return ()
  | .openPtyChrooted => (orDie (call (.chdir (str "/"))) "chdir: /").inl

/-- `open_pty`: what it returns, and `*slave_fd`. -/
def openPty (c : Caller) (s : Settings) (devPtsMounted : Bool) (chrooted : Chrootedness)
    (verboseError : Verbosity) : PtyProg (ℤ × ℤ) := do
  let savedGid ← (chGid c.gid).inl
  let savedUid ← (chUid c.uid).inl
  let fds ← openAsCaller (owners c s) devPtsMounted chrooted verboseError
  leaveDev chrooted
  let _ ← (chUid savedUid).inl
  let _ ← (chGid savedGid).inl
  return fds

/-! The calls between the two changes of credentials. -/

def IsOpenCall : PtyOp → Prop
  | .inl (.stat _) => True
  | .inl o => IsWalkCall o
  | .inr _ => True

theorem ptyCall_uses (o : PtyCall) : (ptyCall o).Uses IsOpenCall := uses_op trivial

theorem xclose_uses (fd : ℤ) : (xclose fd).Uses IsOpenCall := by
  rw [xclose]
  split_ifs
  · trivial
  · refine ⟨trivial, fun closed => ?_⟩
    cases closed <;> trivial

theorem complain_uses (verboseError : Verbosity) (text : String) :
    (complain verboseError text).Uses IsOpenCall := by
  cases verboseError with
  | openPtySilent => trivial
  | openPtyVerbose => exact ptyCall_uses _

theorem closeBoth_uses (ptmx slave : ℤ) : (closeBoth ptmx slave).Uses IsOpenCall :=
  (xclose_uses slave).bind fun _ => (xclose_uses ptmx).bind fun _ => trivial

theorem devNames_uses (who : Owners) (devPtsMounted : Bool) (chrooted : Chrootedness) :
    (devNames who devPtsMounted chrooted).Uses IsOpenCall := by
  cases chrooted with
  | openPtyUnchrooted => trivial
  | openPtyChrooted =>
      rw [devNames]
      split_ifs
      · have hchdir : ∀ o, IsChdirCall o → IsOpenCall (.inl o) := by
          intro o ho
          cases o with
          | lstat name => trivial
          | chdir name => trivial
          | _ => exact ho.elim
        refine ((safeChdir_uses who .rootOk (str "dev") []).inl hchdir).bind fun _ => ?_
        refine ⟨trivial, fun st => ?_⟩
        rcases st with _ | st
        · trivial
        · change Prog.Uses _ (ite _ _ _)
          split_ifs <;> trivial
      · trivial

theorem openPair_uses (verboseError : Verbosity) (names : Names) :
    (openPair verboseError names).Uses IsOpenCall := by
  have hfail (text : String) (ptmx : ℤ) : ((complain verboseError text).bind fun _ =>
      closeBoth ptmx (-1)).Uses IsOpenCall :=
    (complain_uses verboseError text).bind fun _ => closeBoth_uses ptmx (-1)
  refine ⟨trivial, fun ptmx => ?_⟩
  rcases ptmx with _ | ptmx
  · exact hfail _ (-1)
  · refine ⟨trivial, fun num => ?_⟩
    rcases num with _ | num
    · exact hfail _ ptmx
    · refine ⟨trivial, fun unlocked => ?_⟩
      cases unlocked with
      | false => exact hfail _ ptmx
      | true =>
          refine ⟨trivial, fun slave => ?_⟩
          rcases slave with _ | slave
          · exact hfail _ ptmx
          · trivial

theorem openAsCaller_uses (who : Owners) (devPtsMounted : Bool) (chrooted : Chrootedness)
    (verboseError : Verbosity) :
    (openAsCaller who devPtsMounted chrooted verboseError).Uses IsOpenCall := by
  refine (devNames_uses who devPtsMounted chrooted).bind fun names => ?_
  cases names with
  | none => exact closeBoth_uses (-1) (-1)
  | some names => exact openPair_uses verboseError names

end HasherPriv.Chroot.Pty
