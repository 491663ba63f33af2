/- GID: HasherPriv/Protocol/Pass
   layer: protocol
   source: sockets.c, pass.c, server_comm.c
   digest: Exact-length transfers, descriptor passing and responses over one socket. -/

import HasherPriv.Protocol.Communication

set_option autoImplicit false
set_option relaxedAutoImplicit false

namespace HasherPriv.Protocol.Pass

open Foundations.ByteString (Bytes str)
open Foundations.Program (Prog Event Runs)
open Foundations.Socket
open Communication

/-- `SOL_SOCKET` and `SCM_RIGHTS`. -/
def solSocket : ℤ := 1
def scmRights : ℤ := 1

/-- `CMSG_LEN (len)`: the header is 16 bytes long. -/
def cmsgLen (len : ℕ) : ℕ := 16 + len

/-- `CMSG_SPACE (len)`: the data is padded to a multiple of 8. -/
def cmsgSpace (len : ℕ) : ℕ := 16 + (len + 7) / 8 * 8

/-- `xsendmsg`: all of `data` or a failure. -/
def xsendmsg (data : Bytes) : SockProg Bool := do
  match ← sendmsg data [] with
  | .ok n => return n = data.length
  | .error _ => return false

/-- `xrecvmsg`: exactly `len` bytes or a failure. -/
def xrecvmsg (len : ℕ) : SockProg (Option Bytes) := do
  match ← recvmsg len 0 true with
  | some m => return if m.data.length = len then some m.data else none
  | none => return none

/-- `fd_send` with no data of its own: one dummy byte carries the descriptors. The byte is
the first one of the control buffer, the low byte of `cmsg_len`. -/
def fdSend (fds : List ℕ) : SockProg Unit := do
  let data : Bytes := [UInt8.ofNat (cmsgLen (4 * fds.length))]
  match ← sendmsg data [⟨solSocket, scmRights, fds⟩] with
  | .error _ => .die "sendmsg"
  | .ok n =>
      if n = data.length then return ()
      else if n ≠ 0 then .die "expected size, got"
      else .die "unexpected EOF"

/-- The checks of `fd_recv` on a received message. -/
def receivedRights (n : ℕ) (m : Message) : Except String (Fin n → ℕ) :=
  match m.cmsgs with
  | [] => .error "no ancillary data"
  | cmsg :: rest =>
      if cmsg.level ≠ solSocket then .error "expected SOL_SOCKET"
      else if cmsg.type ≠ scmRights then .error "expected SCM_RIGHTS"
      else if h : cmsg.fds.length = n then
        if rest = [] then .ok fun i => cmsg.fds.get (i.cast h.symm)
        else .error "stray ancillary data"
      else .error "SCM_RIGHTS: expected size, got"

/-- `fd_recv` with no data of its own. -/
def fdRecv (n : ℕ) : SockProg (Option (Fin n → ℕ)) := do
  match ← recvmsg 1 (cmsgSpace (4 * n)) false with
  | none => return none
  | some m => return if m.data.length = 1 then (receivedRights n m).toOption else none

/-- The formatted text of a response with its terminator. An empty text is no data at all,
and so is one that finds no memory. -/
def responseData (text : Bytes) : SockProg Bytes := do
  if text = [] then return []
  else if ← malloc (text.length + 1) then return text ++ [0]
  else return []

/-- `send_response_to_client`; a client that left early is no failure. -/
def sendResponseToClient (rc : Int32) (text : Bytes) : SockProg Bool := do
  let data ← responseData text
  match ← sendmsg (SrvCmdResp.encode ⟨rc, UInt32.ofNat data.length⟩) [] with
  | .error .epipe => return true
  | .error .other => return false
  | .ok _ =>
      if data = [] then return true
      else
        match ← sendmsg data [] with
        | .error .other => return false
        | .error .epipe => return true
        | .ok _ => return true

end HasherPriv.Protocol.Pass
