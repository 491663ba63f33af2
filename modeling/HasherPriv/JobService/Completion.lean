/- GID: HasherPriv/JobService/Completion
   layer: job
   source: parent.c, child.c, chrootuid.c, caller_runner.c, caller_job.c, hasher-priv.c
   digest: The way of a status from the program in the chroot to the client. -/

import HasherPriv.Foundations.WaitStatus
import HasherPriv.Protocol.Communication
import Mathlib.Logic.Relation

set_option autoImplicit false
set_option relaxedAutoImplicit false

namespace HasherPriv.JobService.Completion

open Foundations.WaitStatus
open Protocol.Communication

/-! What each process makes of a status. -/

def sigterm : ℕ := 15

/-- `sigchld_handler`: the new `child_rc`. -/
def sigchldHandler (childRc status : ℕ) : ℕ :=
  if wifexited status then
    if wexitstatus status ≠ 0 then wexitstatus status else childRc
  else if wifsignaled status then 128 + wtermsig status
  else 255

/-- `forget_child`: the new `child_rc`. -/
def forgetChild (childPid : Bool) (childRc : ℕ) : ℕ := if childPid then 128 + sigterm else childRc

/-- `wait_job`, given what `waitpid` stores, if it succeeds. -/
def waitJob : Option ℕ → ℕ
  | none => 1
  | some status =>
      if wifexited status then wexitstatus status
      else if wifsignaled status then 128 + wtermsig status
      else 1

/-- `recv_response`, once the response has been read: `none` is the end of the client. -/
def recvResponse (rc : Int32) : Option Int32 := if rc = cmdStatusFailed then none else some rc

/-- The status of a process whose `main` returns. -/
def exitStatus (rc : Int32) : ℕ := rc.toUInt32.toNat % 256

/-! The processes. -/

/-- The child of the executor: `starting` until it executes the program. -/
inductive Child
  | absent
  | starting
  | running
  | ended (e : Ending) (executed : Bool)
  deriving DecidableEq

/-- Where `handle_parent` is: in the loop, in `wait_child`, or past the last delivery of
SIGCHLD. -/
inductive Place
  | looping
  | waitChild
  | handlerOff
  deriving DecidableEq

/-- How an executor ends. -/
inductive ExecutorEnd
  | returned (rc : ℕ)
  | limitExceeded
  | died
  | killed (signo : Signal) (core : Bool)
  deriving DecidableEq

def ExecutorEnd.ending : ExecutorEnd → Ending
  | .returned rc => .exited rc
  | .limitExceeded => .exited (128 + sigterm)
  | .died => .exited 1
  | .killed signo core => .signaled signo core

/-- The executor: before its second fork, in `handle_parent` with `child_pid` (null or not) and
`child_rc`, in `sigchld_handler` waiting, or ended, `reaped` telling whether that wait is over. -/
inductive Executor
  | absent
  | starting
  | parent (place : Place) (childPid : Bool) (childRc : ℕ)
  | handling (place : Place) (childRc : ℕ)
  | ended (why : ExecutorEnd) (reaped : Bool)
  deriving DecidableEq

/-- The handler has reaped the child. -/
def Executor.reaped : Executor → Bool
  | .parent _ childPid _ => ! childPid
  | .ended _ reaped => reaped
  | .absent | .starting | .handling _ _ => false

def Executor.isLive : Executor → Bool
  | .starting | .parent _ _ _ | .handling _ _ => true
  | .absent | .ended _ _ => false

/-- The runner: before and after its fork, in `wait_job` on a SIGCHLD, about to respond, or
past its loop. -/
inductive Runner
  | absent
  | starting
  | polling
  | waiting
  | responding (status : Option ℕ)
  | terminating
  | ended
  deriving DecidableEq

def Runner.isLive : Runner → Bool
  | .absent | .ended => false
  | .starting | .polling | .waiting | .responding _ | .terminating => true

/-- Where a response comes from. Only its `rc` is on the wire. -/
inductive Response
  | accepted (command : ℕ)
  | refused
  | completed (status : Option ℕ)
  | terminated
  deriving DecidableEq

def Response.rc : Response → Int32
  | .accepted _ => cmdStatusDone
  | .refused | .terminated => cmdStatusFailed
  | .completed status => Int32.ofNat (waitJob status)

/-- How a client ends: with the response to its last command, on an error, or by a signal. -/
inductive ClientEnd
  | returned (r : Response)
  | died
  | killed (signo : Signal)
  deriving DecidableEq

/-- The client: about to send a command or waiting for the response to it. -/
inductive Client
  | sending (command : ℕ)
  | waiting (command : ℕ)
  | ended (why : ClientEnd)
  deriving DecidableEq

/-- The exit status of the client, where it has one. -/
def Client.exitCode : Client → Option ℕ
  | .ended (.returned r) => some (exitStatus r.rc)
  | .ended .died => some 1
  | .ended (.killed _) | .sending _ | .waiting _ => none

def Client.isLive : Client → Bool
  | .sending _ | .waiting _ => true
  | .ended _ => false

/-! What each process can do. The commands are numbered in the order they are sent, and `run`
is the number of `CMD_JOB_RUN`. -/

/-- The client, with the responses on their way to it; it may send a command. -/
inductive ClientStep (run : ℕ) :
    Client → List Response → Client → List ℕ → List Response → Prop
  | send (i : ℕ) (rs : List Response) : ClientStep run (.sending i) rs (.waiting i) [i] rs
  | proceed {i : ℕ} {r : Response} {rs : List Response} {rc : Int32}
      (ok : recvResponse r.rc = some rc) (more : i < run) :
      ClientStep run (.waiting i) (r :: rs) (.sending (i + 1)) [] rs
  | finish {r : Response} {rs : List Response} {rc : Int32} (ok : recvResponse r.rc = some rc) :
      ClientStep run (.waiting run) (r :: rs) (.ended (.returned r)) [] rs
  /-- A failed call, or a response that says `CMD_STATUS_FAILED`. -/
  | dies {c : Client} (live : c.isLive) (rs : List Response) :
      ClientStep run c rs (.ended .died) [] rs
  | killed {c : Client} (live : c.isLive) (signo : Signal) (rs : List Response) :
      ClientStep run c rs (.ended (.killed signo)) [] rs

/-- The request handler, with the commands on their way to it: whether it goes on serving and
whether it has spawned the runner. A response that cannot be sent is given up silently. -/
inductive HandlerStep (run : ℕ) : List ℕ → List ℕ → List Response → Bool → Bool → Prop
  | accept {i : ℕ} (other : i ≠ run) (rest : List ℕ) (sent : Bool) :
      HandlerStep run (i :: rest) rest (if sent then [.accepted i] else []) true false
  /-- A bad command, a failed call, or no command for too long. -/
  | refuse (requests : List ℕ) (consumed sent : Bool) :
      HandlerStep run requests (if consumed then requests.tail else requests)
        (if sent then [.refused] else []) false false
  | spawnJobRunner (rest : List ℕ) : HandlerStep run (run :: rest) rest [] false true
  | ends (requests : List ℕ) : HandlerStep run requests requests [] false false

/-- The runner, with the executor and the client in sight: what it sends, and whether it has
spawned the executor. -/
inductive RunnerStep : Executor → Client → Runner → Runner → List Response → Bool → Prop
  | spawnJobExecutor (e : Executor) (c : Client) : RunnerStep e c .starting .polling [] true
  | sigchld (e : Executor) (c : Client) : RunnerStep e c .polling .waiting [] false
  | waitJob (why : ExecutorEnd) (reaped : Bool) (c : Client) :
      RunnerStep (.ended why reaped) c .waiting (.responding (some why.ending.status)) [] false
  | waitJobFails (e : Executor) (c : Client) :
      RunnerStep e c .waiting (.responding none) [] false
  | respond (e : Executor) (c : Client) (status : Option ℕ) (sent : Bool) :
      RunnerStep e c (.responding status) .ended (if sent then [.completed status] else []) false
  | disconnected (e : Executor) (why : ClientEnd) :
      RunnerStep e (.ended why) .polling .ended [] false
  /-- A termination signal, or a failed `epoll_wait`. -/
  | terminate (e : Executor) (c : Client) : RunnerStep e c .polling .terminating [] false
  | respondTerminated (e : Executor) (c : Client) (sent : Bool) :
      RunnerStep e c .terminating .ended (if sent then [.terminated] else []) false
  /-- A failed call or a signal. -/
  | ends {r : Runner} (live : r.isLive) (e : Executor) (c : Client) :
      RunnerStep e c r .ended [] false

/-- The executor and its child. SIGCHLD may arrive at any time where it is not blocked, also
when somebody else has sent it; the handler then waits for the child to end. -/
inductive ExecutorStep : Executor → Child → Executor → Child → Prop
  | fork (c : Child) : ExecutorStep .starting c (.parent .looping true 0) .starting
  | sigchld {place : Place} (unblocked : place ≠ .handlerOff) (childRc : ℕ) (c : Child) :
      ExecutorStep (.parent place true childRc) c (.handling place childRc) c
  | reap (place : Place) (childRc : ℕ) (e : Ending) (executed : Bool) :
      ExecutorStep (.handling place childRc) (.ended e executed)
        (.parent place false (sigchldHandler childRc e.status)) (.ended e executed)
  | leaveLoop (childPid : Bool) (childRc : ℕ) (c : Child) :
      ExecutorStep (.parent .looping childPid childRc) c (.parent .waitChild childPid childRc) c
  | stopWaiting (childPid : Bool) (childRc : ℕ) (c : Child) :
      ExecutorStep (.parent .waitChild childPid childRc) c
        (.parent .handlerOff childPid childRc) c
  | handleParentReturns (childPid : Bool) (childRc : ℕ) (c : Child) :
      ExecutorStep (.parent .handlerOff childPid childRc) c
        (.ended (.returned (forgetChild childPid childRc)) (! childPid)) c
  | limitExceeded (childPid : Bool) (childRc : ℕ) (c : Child) :
      ExecutorStep (.parent .looping childPid childRc) c (.ended .limitExceeded (! childPid)) c
  | dies {e : Executor} (live : e.isLive) (c : Child) :
      ExecutorStep e c (.ended .died e.reaped) c
  | killed {e : Executor} (live : e.isLive) (signo : Signal) (core : Bool) (c : Child) :
      ExecutorStep e c (.ended (.killed signo core) e.reaped) c

inductive ChildStep : Child → Child → Prop
  | execve : ChildStep .starting .running
  | fails : ChildStep .starting (.ended (.exited 1) false)
  | killedEarly (signo : Signal) (core : Bool) :
      ChildStep .starting (.ended (.signaled signo core) false)
  | exits (code : ℕ) : ChildStep .running (.ended (.exited code) true)
  | killed (signo : Signal) (core : Bool) : ChildStep .running (.ended (.signaled signo core) true)

/-! The processes side by side. -/

/-- The client, the request handler (serving or not), the runner, the executor and its child,
with the commands and responses that are under way. -/
structure State where
  client : Client := .sending 0
  requests : List ℕ := []
  responses : List Response := []
  serving : Bool := true
  runner : Runner := .absent
  executor : Executor := .absent
  child : Child := .absent
  deriving DecidableEq

inductive Step (run : ℕ) (s : State) : State → Prop
  | client {c : Client} {sent : List ℕ} {rs : List Response}
      (h : ClientStep run s.client s.responses c sent rs) :
      Step run s { s with client := c, requests := s.requests ++ sent, responses := rs }
  | handler {requests : List ℕ} {sent : List Response} {serving spawned : Bool}
      (h : HandlerStep run s.requests requests sent serving spawned) (serves : s.serving) :
      Step run s
        { s with
          requests := requests
          responses := s.responses ++ sent
          serving := serving
          runner := if spawned then .starting else s.runner }
  | runner {r : Runner} {sent : List Response} {spawned : Bool}
      (h : RunnerStep s.executor s.client s.runner r sent spawned) :
      Step run s
        { s with
          runner := r
          responses := s.responses ++ sent
          executor := if spawned then .starting else s.executor }
  | executor {e : Executor} {c : Child} (h : ExecutorStep s.executor s.child e c) :
      Step run s { s with executor := e, child := c }
  | child {c : Child} (h : ChildStep s.child c) : Step run s { s with child := c }

/-- The states that a job with `run` commands before `CMD_JOB_RUN` can get into. -/
abbrev Reaches (run : ℕ) (s : State) : Prop := Relation.ReflTransGen (Step run) {} s

end HasherPriv.JobService.Completion
