/- GID: HasherPriv/Client/Main
   layer: client
   source: hasher-priv.c
   digest: The client: the commands it sends and the responses it waits for. -/

import HasherPriv.Client.Cmdline
import HasherPriv.Protocol.Pass

set_option autoImplicit false
set_option relaxedAutoImplicit false

namespace HasherPriv.Client.Main

open Foundations.ByteString (Bytes CString)
open Foundations.Program (Prog)
open Foundations.Socket
open Protocol.Communication
open Protocol.Pass
open Cmdline (Parsed)

/-- The data of a response; its text goes to standard error. -/
def recvData (name : String) (len : UInt32) : SockProg Unit := do
  if ← calloc 1 len.toNat then
    match ← xrecvmsg len.toNat with
    | none => .die s!"failed to receive data in response to {name}"
    | some _ => return ()
  else .die "xzalloc: out of memory"

def recvResponse (name : String) : SockProg Int32 := do
  match ← xrecvmsg 8 with
  | none => .die s!"failed to receive header in response to {name}"
  | some data => do
      let rs := SrvCmdResp.decode data
      if rs.len ≠ 0 then recvData name rs.len
      if rs.rc = cmdStatusFailed then .die "failed" else return rs.rc

/-- A header on its own. -/
def sendHeader (hdr : CmdHeader) (failure : String) : SockProg Unit := do
  if ← xsendmsg hdr.encode then return () else .die failure

def sendType (type : JobType) : SockProg Unit := do
  sendHeader ⟨JobCommand.type.bit, type.code⟩ "failed to send header"
  let _ ← recvResponse "job type"

/-- `send_personality`; `pers` is what `personality (0xffffffff)` returns. -/
def sendPersonality (pers : Int32) : SockProg Unit := do
  if pers < 0 then return ()
  else
    sendHeader ⟨JobCommand.personality.bit, pers.toUInt32⟩ "failed to send header"
    let _ ← recvResponse "personality"

def sendFds (cmd : JobCommand) (name : String) (fds : List ℕ) : SockProg Unit := do
  sendHeader ⟨cmd.bit, UInt32.ofNat (4 * fds.length)⟩ s!"{name}: failed to send header"
  fdSend fds
  let _ ← recvResponse name

/-- A string with its terminator. -/
def terminated (s : CString) : Bytes := s.bytes ++ [0]

/-- The bytes of a string list on the wire. -/
def encodeStrings (argv : List CString) : Bytes := (argv.map terminated).flatten

def sendStrings (cmd : JobCommand) (name : String) (argv : List CString) : SockProg Unit := do
  let size := (encodeStrings argv).length
  let hdr : CmdHeader := ⟨cmd.bit, UInt32.ofNat size⟩
  if hdr.len.toNat ≠ size then .die s!"{name}: too big to send"
  else
    sendHeader hdr s!"{name}: error sending header"
    Prog.each (fun arg => do
      if ← xsendmsg (terminated arg) then return () else .die s!"{name}: error sending data") argv
    let _ ← recvResponse name

def sendRun : SockProg Int32 := do
  sendHeader ⟨JobCommand.run.bit, 0⟩ "failed to send header"
  recvResponse "run"

/-- What only the jobs that execute a program send. -/
def sendChroot (p : Parsed) (ev : List CString) (pers : Int32) : SockProg Unit := do
  sendStrings .environ "environment" ev
  sendFds .chrootFd "chroot descriptor" [p.chrootFd.toNat]
  sendPersonality pers

/-- `main`, once it is connected to the session. -/
def main (p : Parsed) (ev : List CString) (pers : Int32) : SockProg Int32 := do
  sendType p.job
  sendFds .fds "stdio" [0, 1, 2]
  match p.args with
  | some args => sendStrings .arguments "arguments" args
  | none => pure ()
  if p.job.isChrootuid then sendChroot p ev pers
  sendRun

end HasherPriv.Client.Main
