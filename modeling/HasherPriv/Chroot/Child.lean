/- GID: HasherPriv/Chroot/Child
   layer: chroot
   source: child.c, nullify_stdin.c, unix.c, x11.c
   digest: What the child of a job does, call by call, before it executes the program. -/

import HasherPriv.Chroot.Pty
import HasherPriv.Chroot.Unshare
import HasherPriv.Config.Environment
import HasherPriv.Foundations.Scanning
import HasherPriv.JobService.SanitizeFds

set_option autoImplicit false
set_option relaxedAutoImplicit false

namespace HasherPriv.Chroot.Child

open Foundations.ByteString
open Foundations.Program
open Foundations.Scanning (twoDigits)
open Config.CallerData
open Config.Environment (X11 x11DropDisplay)
open JobService.SanitizeFds (getOpenMax)
open Syscall
open Pty (PtyOp PtyRes openPty)
open Unshare (UnshareCall UnshareRes)

/-! The calls. Those that only `open_pty` and the functions of `unshare.c` make are theirs. -/

/-- `mkdir` answers `expected` for `EEXIST` and `unlink` for `ENOENT`. -/
inductive JobCall
  | open (name : Bytes)
  | pipe
  | socketpair
  | socket
  | dup2 (oldfd newfd : ℤ)
  | close (fd : ℤ)
  /-- `close_range` up to the last descriptor with `CLOSE_RANGE_CLOEXEC`. -/
  | closeRangeCloexec (first : ℕ)
  | sysconfOpenMax
  | getfd (fd : ℕ)
  | setfd (fd flags : ℕ)
  | isatty (fd : ℤ)
  | chroot (name : Bytes)
  | setRlimits
  | sigprocmask (signo : ℕ) (block : Bool)
  | dflSignalHandler (signo : ℕ)
  | fork
  | waitpid (pid : ℕ)
  | exit (rc : ℕ)
  | prctlDumpable
  | setgroups (groups : List UInt32)
  | setgid (gid : UInt32)
  | setuid (uid : UInt32)
  | personality (persona : UInt32)
  | setsid
  | tiocsctty (fd : ℤ)
  | nice (inc : ℕ)
  | setAffinityNproc (nproc : ℕ)
  | umask (mode : ℕ)
  | mkdir (name : Bytes) (mode : ℕ)
  | unlink (name : Bytes)
  | bind (fd : ℤ) (name : Bytes)
  | listen (fd : ℤ) (backlog : ℕ)
  | readLoop (fd : ℤ) (count : ℕ)
  | fdSend (ctl fd : ℤ) (data : Bytes)
  | perrorMsg (text : String)
  | execve (path : Bytes) (argv env : List Bytes)
  | handleParent (pid : ℕ) (pty pipeOut pipeErr ctl : ℤ)
  deriving DecidableEq

@[reducible] def JobCallRes : JobCall → Type
  | .open _ => Option ℕ
  | .pipe | .socketpair => Option (ℕ × ℕ)
  | .socket => Option ℕ
  | .dup2 _ _ | .close _ | .closeRangeCloexec _ => Bool
  | .sysconfOpenMax => ℤ
  | .getfd _ => Option ℕ
  | .setfd _ _ | .isatty _ | .chroot _ | .setRlimits => Bool
  | .sigprocmask _ _ | .dflSignalHandler _ => Bool
  | .fork => ForkResult
  | .waitpid _ => Option WaitStatus
  | .exit _ => Empty
  | .prctlDumpable | .setgroups _ | .setgid _ | .setuid _ | .personality _ => Bool
  | .setsid | .tiocsctty _ | .nice _ | .setAffinityNproc _ => Bool
  | .umask _ => Unit
  | .mkdir _ _ | .unlink _ => Answer
  | .bind _ _ | .listen _ _ => Bool
  | .readLoop _ count => { data : Bytes // data.length ≤ count }
  | .fdSend _ _ _ => Bool
  | .perrorMsg _ => Unit
  -- it only returns if it fails
  | .execve _ _ _ => Unit
  | .handleParent _ _ _ _ _ => ℤ

abbrev JobOp := PtyOp ⊕ (UnshareCall ⊕ JobCall)

abbrev JobRes := EitherRes PtyRes (EitherRes UnshareRes JobCallRes)

abbrev JobProg := Prog JobOp JobRes

abbrev jcall (o : JobCall) : JobProg (JobCallRes o) := @Prog.op JobOp JobRes (.inr (.inr o))

/-- A function of `unshare.c` among the other calls. -/
def ofUnshare (p : Unshare.UnshareProg Unit) : JobProg Unit :=
  (p.inl : Prog (UnshareCall ⊕ JobCall) (EitherRes UnshareRes JobCallRes) Unit).inr

/-- `xclose` where the variable is not used again: whether it has succeeded. -/
def xclose (fd : ℤ) : JobProg Bool := if fd < 0 then .ret true else jcall (.close fd)

def xcloseOrDie (fd : ℤ) (why : String) : JobProg Unit := do
  if ← xclose fd then return () else .die why

def dup2OrDie (oldfd newfd : ℤ) : JobProg Unit := do
  if ← jcall (.dup2 oldfd newfd) then return () else .die s!"dup2({oldfd}, {newfd})"

/-! `connect_fds`. -/

def nullifyStdin : JobProg Unit := do
  match ← jcall .pipe with
  | none => .die "pipe"
  | some (readEnd, writeEnd) =>
      xcloseOrDie writeEnd "close"
      if readEnd ≠ 0 then do
        if ← jcall (.dup2 readEnd 0) then xcloseOrDie readEnd "close" else .die "dup2"
      else return ()

/-- Standard input without a pty. -/
def checkStdin : JobProg Unit := do
  if ← jcall (.isatty 0) then nullifyStdin else return ()

/-- The end of `connect_fds`. -/
def closeAbove (fd : ℤ) (why : String) : JobProg Unit :=
  if fd > 2 then xcloseOrDie fd why else .ret ()

def connectFds (usePty : Bool) (ptyFd pipeOut pipeErr : ℤ) : JobProg Unit := do
  if ← jcall .setsid then
    if ← jcall (.tiocsctty ptyFd) then
      if usePty then dup2OrDie ptyFd 0 else checkStdin
      dup2OrDie (if usePty then ptyFd else pipeOut) 1
      dup2OrDie (if usePty then ptyFd else pipeErr) 2
      closeAbove ptyFd "close pty_fd"
      closeAbove pipeOut "close pipe_out"
      closeAbove pipeErr "close pipe_err"
    else .die "ioctl TIOCSCTTY"
  else .die "setsid"

/-! `x11_listen`. -/

def unixListen (fileName : Bytes) : JobProg ℤ := do
  match ← jcall .socket with
  | none =>
      jcall (.perrorMsg "socket")
      return -1
  | some fd =>
      if ← jcall (.bind fd fileName) then
        if ← jcall (.listen fd 16) then return (fd : ℤ)
        else
          jcall (.perrorMsg s!"listen: {text fileName}")
          let _ ← xclose fd
          return -1
      else
        jcall (.perrorMsg s!"bind: {text fileName}")
        let _ ← xclose fd
        return -1

def x11UnixDir : Bytes := str "/tmp/.X11-unix"

def x11Path : Bytes := x11UnixDir ++ str "/X10"

def x11Listen : JobProg ℤ := do
  match ← jcall (.mkdir x11UnixDir 0o700) with
  | .failed =>
      jcall (.perrorMsg s!"mkdir: {text x11UnixDir}")
      return -1
  | _ =>
      match ← jcall (.unlink x11Path) with
      | .failed =>
          jcall (.perrorMsg s!"unlink: {text x11Path}")
          return -1
      | _ => unixListen x11Path

/-! The fake authentication data. -/

def pathDevurandom : Bytes := str "/dev/urandom"

/-- The data, and the key that replaces the original one. -/
def xauthGenFake (x11DataLen : ℕ) : JobProg (Option (Bytes × Bytes)) := do
  match ← jcall (.open pathDevurandom) with
  | none =>
      jcall (.perrorMsg s!"open: {text pathDevurandom}")
      return none
  | some fd =>
      let data ← jcall (.readLoop fd x11DataLen)
      if data.val.length ≠ x11DataLen then
        jcall (.perrorMsg s!"read: {text pathDevurandom}")
        let _ ← xclose fd
        return none
      else
        let _ ← xclose fd
        return some (data.val, data.val.flatMap twoDigits)

def xauthPaths : List Bytes := [str "/usr/bin/xauth", str "/usr/X11R6/bin/xauth"]

/-- Every path is tried before anything is reported. -/
def xauthExec (x11Key : Bytes) (env : List Bytes) : JobProg Bool := do
  let av := [str "xauth", str "add", str ":10.0", str ".", x11Key]
  Prog.each (fun path => jcall (.execve path av env)) xauthPaths
  Prog.each (fun path => jcall (.perrorMsg s!"execve: {text path}")) xauthPaths
  let never ← jcall (.exit 1)
  never.elim

/-- `xauth_add_entry (env) == EXIT_SUCCESS`. -/
def xauthAddEntry (x11Key : Bytes) (env : List Bytes) : JobProg Bool := do
  match ← jcall .fork with
  | .failed => return false
  | .child => xauthExec x11Key env
  | .parent pid => return (← jcall (.waitpid pid)) = some (.exited 0)

/-- The part of `handle_child` for a job with a control socket. -/
def forwardX11 (x : X11) (ctlFd : ℤ) (env : List Bytes) : JobProg Unit := do
  let x11Fd ← x11Listen
  if x11Fd ≥ 0 then
    match ← xauthGenFake x.dataLen with
    | none =>
        let _ ← xclose x11Fd
        return ()
    | some (data, key) =>
        if ← xauthAddEntry key env then
          let _ ← jcall (.fdSend ctlFd x11Fd data)
        let _ ← xclose x11Fd
        return ()
  else return ()

/-- `SIGHUP`, `SIGPIPE`, `SIGTERM` and `SIGCHLD`. -/
def sighup : ℕ := 1
def sigpipe : ℕ := 13
def sigterm : ℕ := 15
def sigchld : ℕ := 17

def dflOrDie (signo : ℕ) : JobProg Unit := do
  if ← jcall (.dflSignalHandler signo) then return () else .die "signal"

def sigprocmaskOrDie (signo : ℕ) (block : Bool) : JobProg Unit := do
  if ← jcall (.sigprocmask signo block) then return () else .die "sigprocmask"

/-- `handle_child`. The client's key has been wiped before. -/
def handleChild (s : Settings) (x : X11) (argv env : List Bytes)
    (ptyFd pipeOut pipeErr ctlFd : ℤ) : JobProg ℤ := do
  connectFds s.usePty ptyFd pipeOut pipeErr
  dflOrDie sighup
  dflOrDie sigpipe
  dflOrDie sigterm
  let inc := s.changeNice
  let nproc := s.changeNproc
  if ← jcall (.nice inc) then
    if ← jcall (.setAffinityNproc nproc) then
      if ctlFd ≥ 0 then forwardX11 x ctlFd env
      jcall (.umask s.changeUmask)
      sigprocmaskOrDie sigchld false
      let path := argv.headD []
      jcall (.execve path argv env)
      .die s!"execve: {text path}"
    else .die s!"nproc: {nproc}"
  else .die s!"nice: {inc}"

end HasherPriv.Chroot.Child
