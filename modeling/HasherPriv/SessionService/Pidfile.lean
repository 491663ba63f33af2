/- GID: HasherPriv/SessionService/Pidfile
   layer: session service
   source: pidfile.c, hasher-privd.c
   digest: The pidfile: how a start-up of the daemon checks it and writes it. -/

import HasherPriv.Foundations.Numerals
import HasherPriv.Foundations.Shared

set_option autoImplicit false
set_option relaxedAutoImplicit false

namespace HasherPriv.SessionService.Pidfile

open Foundations.ByteString
open Foundations.Numerals
open Foundations.Program
open Foundations.Shared

/-! The code. -/

inductive PidOp
  /-- `fopen (pidfile, "r")`, `fscanf (fp, "%d", &pid)` and `fclose` of the stream. -/
  | fopen
  | fscanf
  | fclose
  | getpid
  /-- Whether `kill (pid, 0)` fails with `ESRCH`. -/
  | kill (pid : ℤ)
  /-- `daemon (0, 0)`, with the pid of the child. -/
  | daemon
  /-- `open (pidfile, O_RDWR | O_CREAT | O_TRUNC | O_CLOEXEC, 0644)`. -/
  | open
  | fdopen
  /-- `flock (fd, LOCK_EX | LOCK_NB)`. -/
  | flock
  | fprintf (pid : ℤ)
  /-- The two halves of `fclose` on the stream that has been written. -/
  | write (text : Bytes)
  | close
  deriving DecidableEq

@[reducible] def PidRes : PidOp → Type
  | .fscanf => Option ℤ
  | .fclose => Unit
  | .getpid => ℤ
  | .daemon => Option ℤ
  | _ => Bool

abbrev PidProg := Prog PidOp PidRes

abbrev call (o : PidOp) : PidProg (PidRes o) := .op o

def readPid : PidProg ℤ := do
  if ← call .fopen then
    let pid ← call .fscanf
    call .fclose
    return pid.getD 0
  else return 0

def checkPid : PidProg ℤ := do
  let pid ← readPid
  if pid = 0 then return 0
  else
    let self ← call .getpid
    if pid = self then return 0
    else if ← call (.kill pid) then return 0
    else return pid

/-- `"%d\n"`. -/
def pidText (pid : ℤ) : Bytes := signedDecimal pid ++ [10]

def writePid : PidProg ℤ := do
  if ← call .open then
    if ← call .fdopen then
      if ← call .flock then
        let pid ← call .getpid
        if ← call (.fprintf pid) then
          let written ← call (.write (pidText pid))
          let closed ← call .close
          return if written && closed then pid else 0
        else
          let _ ← call .close
          return 0
      else
        let _ ← call .fscanf
        let _ ← call .close
        return 0
    else
      let _ ← call .close
      return 0
  else return 0

/-- What `main` does with the pidfile; the result is whether the daemon goes on. -/
def startUp (daemonize : Bool) : PidProg Bool := do
  if (← checkPid) ≠ 0 then .die "already running"
  else
    if daemonize then
      match ← call .daemon with
      | none => .die "daemon"
      | some _ => return decide ((← writePid) ≠ 0)
    else return decide ((← writePid) ≠ 0)

/-! The kernel. -/

/-- The two start-ups. -/
inductive Starter
  | first
  | second
  deriving DecidableEq

def Starter.other : Starter → Starter
  | .first => .second
  | .second => .first

inductive Stage
  | absent
  | running
  | gone
  deriving DecidableEq

/-- What a start-up has done so far; nothing the programs look at. -/
structure Progress where
  /-- The number that `read_pid` has found, 0 if there is none. -/
  read : Option ℤ := none
  /-- Not a number that stops the start-up. -/
  cleared : Bool := false
  opened : Bool := false
  /-- The number in the file that `open` has emptied. -/
  wiped : Option ℤ := none
  /-- The lock has been tried for, or will not be. -/
  settled : Bool := false
  /-- `flock` has failed because the other one has the lock. -/
  refused : Bool := false
  wrote : Bool := false
  deriving DecidableEq

structure Kernel where
  content : Option Bytes
  lock : Option Starter := none
  stage : Starter → Stage := fun _ => .absent
  pid : Starter → ℤ := fun _ => 0
  seen : Starter → Progress := fun _ => {}

/-- `"%d"` on the text of a file: a number of type `long` cut down to an `int`. -/
def scanPid (s : Bytes) : Option ℤ :=
  if scanNumeral 10 s = none then none else some ((strtol 10 s).value.bmod (2 ^ 32))

/-- The number recorded in the file. -/
def Kernel.recorded (k : Kernel) : Option ℤ := k.content.bind scanPid

/-- Write at the beginning of a file. -/
def overwrite (text content : Bytes) : Bytes := text ++ content.drop text.length

/-- A pid for a new process. -/
def Kernel.Fresh (k : Kernel) (i : Starter) (pid : ℤ) : Prop :=
  0 < pid ∧ pid < 2 ^ 31 ∧ (k.stage i.other = .running → pid ≠ k.pid i.other)

instance (k : Kernel) (i : Starter) (pid : ℤ) : Decidable (k.Fresh i pid) :=
  inferInstanceAs (Decidable (_ ∧ _ ∧ _))

def Kernel.note (k : Kernel) (i : Starter) (f : Progress → Progress) : Kernel :=
  { k with seen := Function.update k.seen i (f (k.seen i)) }

/-- The pid belongs to one of the two processes. -/
def Kernel.Exists (k : Kernel) (pid : ℤ) : Prop :=
  (k.stage .first = .running ∧ k.pid .first = pid) ∨
    (k.stage .second = .running ∧ k.pid .second = pid)

instance (k : Kernel) (pid : ℤ) : Decidable (k.Exists pid) :=
  inferInstanceAs (Decidable (_ ∨ _))

def Kernel.perform (k : Kernel) (i : Starter) : (o : PidOp) → PidRes o → Option Kernel
  | .fopen, true => if k.content.isSome then some k else none
  -- Both can fail also where there is a file with a number in it.
  | .fopen, false => some (k.note i fun s => { s with read := some 0 })
  | .fscanf, n =>
      if n = k.recorded ∨ n = none then some (k.note i fun s => { s with read := some (n.getD 0) })
      else none
  | .fclose, _ => some k
  | .getpid, pid =>
      if pid = k.pid i then
        some (k.note i fun s => { s with cleared := s.cleared || decide (s.read = some pid) })
      else none
  | .kill pid, true =>
      if k.Exists pid then none else some (k.note i fun s => { s with cleared := true })
  | .kill _, false => some k
  | .daemon, some pid =>
      if k.Fresh i pid then some { k with pid := Function.update k.pid i pid } else none
  | .daemon, none => some k
  | .open, true =>
      some ({ k with content := some [] }.note i fun s =>
        { s with opened := true, wiped := k.recorded })
  | .open, false => some k
  | .fdopen, true => some k
  | .fdopen, false => some (k.note i fun s => { s with settled := true })
  | .flock, true =>
      if k.lock = none then
        some ({ k with lock := some i }.note i fun s => { s with settled := true })
      else none
  | .flock, false =>
      some (k.note i fun s => { s with settled := true, refused := decide (k.lock = some i.other) })
  | .fprintf _, _ => some k
  | .write text, true =>
      some ({ k with content := k.content.map (overwrite text) }.note i fun s =>
        { s with wrote := true })
  | .write _, false => some k
  | .close, _ => some { k with lock := if k.lock = some i then none else k.lock }

/-- A process starts, or ends at any time. -/
inductive Change
  | start (i : Starter) (pid : ℤ)
  | exit (i : Starter)

def machine : Machine Starter Change Kernel PidOp PidRes where
  answer k i o r := if k.stage i = .running then k.perform i o r else none
  env k
    | .start i pid =>
        if k.stage i = .absent ∧ k.Fresh i pid then
          some { k with
            stage := Function.update k.stage i .running
            pid := Function.update k.pid i pid }
        else none
    | .exit i =>
        if k.stage i = .running then
          some { k with
            stage := Function.update k.stage i .gone
            lock := if k.lock = some i then none else k.lock }
        else none

abbrev PidWorld := World Starter Kernel PidOp PidRes Bool

/-- Both start-ups are still to come; there may be a file. -/
def before (daemonize : Starter → Bool) (content : Option Bytes) : PidWorld where
  procs i := startUp (daemonize i)
  kernel := { content := content }

end HasherPriv.SessionService.Pidfile
