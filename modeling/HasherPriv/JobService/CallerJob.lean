/- GID: HasherPriv/JobService/CallerJob
   layer: job service
   source: caller_job.c, job2str.c
   digest: The job record and the loop that fills it from the commands of a client. -/

import HasherPriv.Protocol.Pass

set_option autoImplicit false
set_option relaxedAutoImplicit false

namespace HasherPriv.JobService.CallerJob

open Foundations.ByteString (Bytes CString str)
open Foundations.Program (Prog Event Runs LoopRuns)
open Foundations.Socket (SockProg SockRes malloc calloc)
open Protocol.Communication
open Protocol.Pass

/-- `struct job` with the initial values of `spawn_job_request_handler`. -/
@[ext] structure Job where
  type : UInt32 := 0
  mask : UInt32 := 0
  persona : UInt32 := 0xffffffff
  chrootFd : ℤ := -1
  stdFds : Fin 3 → ℤ := fun _ => -1
  argv : Option (List CString) := none
  env : Option (List CString) := none
  deriving DecidableEq

/-- `jobmap`. -/
def jobmap : List (String × UInt32) :=
  [("none", 0), ("getconf", 1), ("killuid", 2), ("getugid1", 3), ("getugid2", 5),
    ("chrootuid1", 4), ("chrootuid2", 6)]

def job2str (type : UInt32) : Option String :=
  (jobmap.find? (·.2 = type)).map (·.1)

/-- The bounds of `validate_arguments` on the number of arguments. -/
private def checkArgc (name : String) (argc requiredArgs : ℕ) (moreArgs : Bool) :
    Except String Unit :=
  if argc < requiredArgs then
    .error s!"{name} job requires at least {requiredArgs} arguments but got {argc}"
  else if argc > requiredArgs ∧ ¬ moreArgs then
    .error s!"{name} job requires exactly {requiredArgs} arguments but got {argc}"
  else .ok ()

/-- `validate_arguments`; an absent argument vector counts as an empty one. -/
def validateArguments (job : UInt32) (argv : Option (List CString)) : Except String Unit :=
  let argc := (argv.getD []).length
  let name := (job2str job).getD ""
  match JobType.ofWord job with
  | some .getconf | some .killuid | some .getugid1 | some .getugid2 =>
      checkArgc name argc 0 false
  | some .chrootuid1 | some .chrootuid2 => checkArgc name argc 1 true
  | none => .error s!"unknown job type: {job}"

/-- A job that executes a program takes any number of arguments but none. -/
theorem validateArguments_chrootuid {type : JobType} (h : type.isChrootuid = true)
    (program : CString) (args : List CString) :
    validateArguments type.code (some (program :: args)) = .ok () := by
  cases type with
  | chrootuid1 => simp [validateArguments, checkArgc]
  | chrootuid2 => simp [validateArguments, checkArgc]
  | getconf | killuid | getugid1 | getugid2 => cases h

/-- How `receive_job_request` ends: the request is cancelled with a reason, or control
passes to `spawn_job_runner`. -/
inductive JobEnd
  | cancelled (reason : String)
  | spawnJobRunner (job : Job)
  deriving DecidableEq

def cancelJob (reason : String) : SockProg (Job ⊕ JobEnd) := do
  let _ ← sendResponseToClient cmdStatusFailed (str reason)
  return .inr (.cancelled reason)

def respondServerError : SockProg (Job ⊕ JobEnd) := cancelJob "command failed"
def respondBadRequest : SockProg (Job ⊕ JobEnd) := cancelJob "bad request"

/-- `ARG_MAX`. -/
def maxArgsSize : ℕ := 0x20000

/-- `rawmemchr (p, '\0')`: the index of the first NUL from `p` on. -/
def rawmemchr (args : Bytes) (p : ℕ) : ℕ := p + (args.drop p).idxOf 0

/-- The positions the scanning loop of `recv_strings_from_client` visits from `p` on. -/
def scan (args : Bytes) (len : ℕ) : ℕ → ℕ → List ℕ
  | 0, _ => []
  | fuel + 1, p => if p < len then p :: scan args len fuel (rawmemchr args p + 1) else []

/-- The bytes of the strings; nothing is read when there are none. -/
def receiveArgs (len : ℕ) : SockProg (Option Bytes) :=
  if 0 < len then xrecvmsg len else return some []

/-- The strings that the pointers of the second scan point to. -/
def stringsOf (data : Bytes) : List CString :=
  -- The terminator is written just in case the data does not end in one.
  let args := data ++ [0]
  (scan args data.length data.length 0).map fun p => CString.ofPrefix (args.drop p)

/-- `recv_strings_from_client`. -/
def recvStringsFromClient (len : UInt32) : SockProg (Option (List CString)) := do
  if maxArgsSize < len.toNat then return none
  else if ← malloc (len.toNat + 1) then
    match ← receiveArgs len.toNat with
    | none => return none
    | some data =>
        if ← calloc ((stringsOf data).length + 1) 8 then return some (stringsOf data)
        else return none
  else return none

/-- `validate_job`. -/
def validateJob (job : Job) : Except String Unit :=
  match JobType.ofWord job.type with
  | some .chrootuid1 | some .chrootuid2 =>
      if job.mask &&& JobCommand.chrootFd.bit = 0 then .error "no root directory"
      else if job.mask &&& JobCommand.arguments.bit = 0 then .error "no arguments"
      else .ok ()
  | some .getconf | some .killuid | some .getugid1 | some .getugid2 | none => .ok ()

/-- The tail of the loop body: the command is acknowledged and the loop goes round. -/
def acknowledge (job : Job) : SockProg (Job ⊕ JobEnd) := do
  let _ ← sendResponseToClient cmdStatusDone []
  return .inl job

/-- The cases of `switch (hdr.type)`, the mask of the record being updated already. -/
def serveCommand (job : Job) (len : UInt32) : JobCommand → SockProg (Job ⊕ JobEnd)
  | .type => acknowledge { job with type := len }
  | .personality => acknowledge { job with persona := len }
  | .chrootFd =>
      if len ≠ 4 then respondBadRequest
      else do
        match ← fdRecv 1 with
        | none => respondBadRequest
        | some fds => acknowledge { job with chrootFd := fds ⟨0, Nat.one_pos⟩ }
  | .fds =>
      if len ≠ 4 * 3 then respondBadRequest
      else do
        match ← fdRecv 3 with
        | none => respondBadRequest
        | some fds => acknowledge { job with stdFds := fun i => fds i }
  | .arguments => do
      match ← recvStringsFromClient len with
      | none => respondBadRequest
      | some argv =>
          if (validateArguments job.type (some argv)).toBool then
            acknowledge { job with argv := some argv }
          else respondBadRequest
  | .environ => do
      match ← recvStringsFromClient len with
      | none => respondBadRequest
      | some env => acknowledge { job with env := some env }
  | .run =>
      if len ≠ 0 ∨ ¬ (validateJob job).toBool then respondBadRequest
      else return .inr (.spawnJobRunner job)

/-- One turn of the loop of `receive_job_request`. -/
def receiveCommand (job : Job) : SockProg (Job ⊕ JobEnd) := do
  match ← xrecvmsg 8 with
  | none => respondServerError
  | some data =>
      let hdr := CmdHeader.decode data
      if job.mask &&& hdr.type ≠ 0 then respondBadRequest
      else
        match JobCommand.ofWord hdr.type with
        | some c => serveCommand { job with mask := job.mask ||| hdr.type } hdr.len c
        | none => respondBadRequest

/-- `receive_job_request`: runs of the loop, one trace for each command. -/
abbrev ReceiveJobRequest := LoopRuns receiveCommand

end HasherPriv.JobService.CallerJob
