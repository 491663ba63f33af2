/- GID: HasherPriv/Protocol/Transfer
   layer: protocol
   source: sockets.c, pass.c, server_comm.c
   digest: What each transfer takes off an open connection and puts on it. -/

import HasherPriv.Foundations.Duplex
import HasherPriv.Protocol.Pass

set_option autoImplicit false
set_option relaxedAutoImplicit false

namespace HasherPriv.Protocol.Transfer

open Foundations.ByteString (Bytes)
open Foundations.Duplex
open Foundations.Socket
open Communication
open Pass

variable {φ : Type}

/-- Bytes without files. -/
abbrev plain (data : Bytes) : Packet φ := ⟨data, []⟩

theorem does_xsendmsg {data : Bytes} (h : data ≠ []) (q : List (Packet φ)) (t : Table φ) :
    Does (xsendmsg data) q t true [plain data] q t := by
  have hanswer : answer q t (.sendmsg data []) = some ⟨.ok data.length, q, t, [plain data]⟩ := by
    simp [answer, h]
  have hrest : Does (.ret (decide (data.length = data.length))) q t true [] q t := by
    simpa using Does.ret true q t
  exact Does.call hanswer hrest

theorem does_xrecvmsg {n : ℕ} {data : Bytes} {q q' : List (Packet φ)}
    (h : takeBytes n q = some (data, [], q')) (hlen : data.length = n) (t : Table φ) :
    Does (xrecvmsg n) q t (some data) [] q' t := by
  have hanswer : answer q t (.recvmsg n 0 true) = some ⟨some ⟨data, []⟩, q', t, []⟩ := by
    simp [answer, h, deliver, Table.installAll]
  have hrest : Does (.ret (if data.length = n then some data else none)) q' t (some data) [] q'
      t := by
    rw [if_pos hlen]
    exact .ret _ _ _
  exact Does.call hanswer hrest

/-- Bytes sent in pieces are received as one. -/
theorem does_xrecvmsg_plain (bs : List Bytes) (h : ∀ b ∈ bs, b ≠ []) (q : List (Packet φ))
    (t : Table φ) :
    Does (xrecvmsg bs.flatten.length) (bs.map plain ++ q) t (some bs.flatten) [] q t :=
  does_xrecvmsg (takeBytes_plain h q) rfl t

theorem does_fdSend {fds : List ℕ} {files : List φ} {t : Table φ}
    (h : fds.mapM t.file = some files) (q : List (Packet φ)) :
    Does (fdSend fds) q t () [⟨[UInt8.ofNat (cmsgLen (4 * fds.length))], files⟩] q t := by
  have hanswer : answer q t
      (.sendmsg [UInt8.ofNat (cmsgLen (4 * fds.length))] [⟨solSocket, scmRights, fds⟩]) =
        some ⟨.ok 1, q, t, [⟨[UInt8.ofNat (cmsgLen (4 * fds.length))], files⟩]⟩ := by
    simp [answer, h]
  exact Does.call hanswer (.ret () q t)

/-- The received descriptors are the new numbers of the files that came with the byte. -/
theorem does_fdRecv (b : UInt8) (files : List φ) (q : List (Packet φ)) (t : Table φ)
    (hne : files ≠ []) :
    ∃ fds : Fin files.length → ℕ, Does (fdRecv files.length) (⟨[b], files⟩ :: q) t (some fds) []
        q (t.installAll files).2 ∧
      ∀ i, (t.installAll files).2.file (fds i) = some (files.get i) := by
  have hroom : room (cmsgSpace (4 * files.length)) ≥ files.length := by
    simp only [room, cmsgSpace]
    omega
  have hlen := Table.installAll_length t files
  have hnumbers : (t.installAll files).1 ≠ [] := by
    intro hnil
    rw [hnil] at hlen
    exact hne (List.length_eq_zero_iff.mp hlen.symm)
  refine ⟨fun i => (t.installAll files).1.get (i.cast hlen.symm), ?_, fun i => ?_⟩
  · have htake : files.take (room (cmsgSpace (4 * files.length))) = files :=
      List.take_of_length_le hroom
    have hanswer : answer (⟨[b], files⟩ :: q) t
        (.recvmsg 1 (cmsgSpace (4 * files.length)) false) =
          some ⟨some ⟨[b], [⟨1, 1, (t.installAll files).1⟩]⟩, q, (t.installAll files).2, []⟩ := by
      simp [answer, takeBytes, hne, deliver, htake, hnumbers]
    have hrights : receivedRights files.length ⟨[b], [⟨1, 1, (t.installAll files).1⟩]⟩ =
        .ok fun i => (t.installAll files).1.get (i.cast hlen.symm) := by
      simp [receivedRights, solSocket, scmRights, hlen]
    have hrest : Does
        (.ret (receivedRights files.length ⟨[b], [⟨1, 1, (t.installAll files).1⟩]⟩).toOption) q
        (t.installAll files).2 (some fun i => (t.installAll files).1.get (i.cast hlen.symm)) [] q
        (t.installAll files).2 := by
      rw [hrights]
      exact Does.ret _ _ _
    exact Does.call hanswer hrest
  · have hfile := congrArg (·[i.val]?) (Table.file_installAll t files)
    simpa [hlen] using hfile

/-- The response to a command that has been taken. -/
def doneResponse : Packet φ := plain (SrvCmdResp.encode ⟨cmdStatusDone, 0⟩)

theorem does_sendResponse_done (q : List (Packet φ)) (t : Table φ) :
    Does (sendResponseToClient cmdStatusDone []) q t true [doneResponse] q t := by
  have hanswer : answer q t (.sendmsg (SrvCmdResp.encode ⟨cmdStatusDone, 0⟩) []) =
      some ⟨.ok 8, q, t, [doneResponse]⟩ := rfl
  exact Does.call hanswer (.ret true q t)

end HasherPriv.Protocol.Transfer
