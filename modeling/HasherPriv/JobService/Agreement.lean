/- GID: HasherPriv/JobService/Agreement
   layer: job
   source: hasher-priv.c, caller_job.c
   digest: The client and the request handler agree on every command, in every interleaving. -/

import HasherPriv.Client.Main
import HasherPriv.JobService.Admission
import HasherPriv.Protocol.Transfer

set_option autoImplicit false
set_option relaxedAutoImplicit false

namespace HasherPriv.JobService.Agreement

open Foundations.ByteString (Bytes CString str)
open Foundations.Descent (Steps Final)
open Foundations.Duplex
open Foundations.Program
open Foundations.Socket
open Protocol.Communication
open Protocol.Pass
open Protocol.Transfer
open Client.Cmdline
open Client.Main
open CallerJob

variable {φ : Type}

/-! String lists on the wire. -/

theorem encodeStrings_cons (s : CString) (argv : List CString) :
    encodeStrings (s :: argv) = s.bytes ++ 0 :: encodeStrings argv := by
  simp [encodeStrings, terminated]

theorem ofPrefix_terminated (s : CString) (rest : Bytes) :
    CString.ofPrefix (s.bytes ++ 0 :: rest) = s := by
  apply CString.ext
  have hne : ∀ b ∈ s.bytes, decide (b ≠ 0) = true := by
    intro b hb
    simpa using fun hzero : b = 0 => s.nulFree (hzero ▸ hb)
  simp only [CString.ofPrefix]
  rw [List.takeWhile_append_of_pos hne]
  simp

private theorem scan_strings (argv : List CString) :
    ∀ (before : Bytes) (fuel : ℕ), (encodeStrings argv).length ≤ fuel →
      (scan (before ++ encodeStrings argv ++ [0]) (before.length + (encodeStrings argv).length) fuel
        before.length).map (fun p =>
          CString.ofPrefix ((before ++ encodeStrings argv ++ [0]).drop p)) = argv := by
  induction argv with
  | nil =>
      intro before fuel _
      cases fuel <;> simp [scan, encodeStrings]
  | cons s argv ih =>
      intro before fuel hfuel
      have hlen : (encodeStrings (s :: argv)).length =
          s.bytes.length + 1 + (encodeStrings argv).length := by
        rw [encodeStrings_cons, List.length_append, List.length_cons]
        omega
      obtain ⟨fuel, rfl⟩ : ∃ k, fuel = k + 1 := ⟨fuel - 1, by omega⟩
      -- the string that the pointer is at, and the first byte behind its terminator
      have hargs : before ++ encodeStrings (s :: argv) ++ [0] =
          before ++ (s.bytes ++ 0 :: (encodeStrings argv ++ [0])) := by
        rw [encodeStrings_cons]
        simp
      have hnext : before ++ encodeStrings (s :: argv) ++ [0] =
          before ++ terminated s ++ encodeStrings argv ++ [0] := by
        rw [encodeStrings_cons]
        simp [terminated]
      have hat : rawmemchr (before ++ encodeStrings (s :: argv) ++ [0]) before.length + 1 =
          (before ++ terminated s).length := by
        rw [rawmemchr, hargs, List.drop_left, List.idxOf_append_of_notMem s.nulFree]
        simp [terminated]
        omega
      have hlt : before.length < before.length + (encodeStrings (s :: argv)).length := by omega
      have hend : before.length + (encodeStrings (s :: argv)).length =
          (before ++ terminated s).length + (encodeStrings argv).length := by
        rw [hlen, List.length_append]
        simp only [terminated, List.length_append, List.length_singleton]
        omega
      have hrest := ih (before ++ terminated s) fuel (by omega)
      rw [scan, if_pos hlt, List.map_cons, hat, hend, hnext, hrest]
      congr 1
      rw [← hnext, hargs, List.drop_left]
      exact ofPrefix_terminated s _

/-- A string list is received as it was sent, empty lists and empty strings included. -/
theorem stringsOf_encodeStrings (argv : List CString) : stringsOf (encodeStrings argv) = argv := by
  simpa [stringsOf] using scan_strings argv [] _ le_rfl

/-! What the server does with each command that is there. -/

private theorem does_recvStrings {argv : List CString}
    (h : (encodeStrings argv).length ≤ maxArgsSize) (q : List (Packet φ)) (t : Table φ) :
    Does (recvStringsFromClient (UInt32.ofNat (encodeStrings argv).length))
      ((argv.map terminated).map plain ++ q) t (some argv) [] q t := by
  have hsize : (UInt32.ofNat (encodeStrings argv).length).toNat = (encodeStrings argv).length := by
    refine UInt32.toNat_ofNat_of_lt' ?_
    simp only [maxArgsSize] at h
    simp only [UInt32.size]
    omega
  have hargs : Does (receiveArgs (encodeStrings argv).length)
      ((argv.map terminated).map plain ++ q) t (some (encodeStrings argv)) [] q t := by
    unfold receiveArgs
    split_ifs with hpos
    · refine does_xrecvmsg_plain _ ?_ q t
      intro b hb
      obtain ⟨s, -, rfl⟩ := List.mem_map.mp hb
      simp [terminated]
    · obtain rfl : argv = [] := by
        cases argv with
        | nil => rfl
        | cons s argv => simp [encodeStrings_cons] at hpos
      exact .ret _ _ _
  unfold recvStringsFromClient
  rw [hsize, if_neg (by omega)]
  refine Does.call (x := ⟨true, _, t, []⟩) rfl ?_
  change Does ((receiveArgs _).bind _) _ _ _ _ _ _
  refine hargs.bind ?_
  simp only [stringsOf_encodeStrings]
  refine Does.call (x := ⟨true, q, t, []⟩) rfl ?_
  exact .ret (some argv) q t

private theorem does_acknowledge (job : Job) (q : List (Packet φ)) (t : Table φ) :
    Does (acknowledge job) q t (.inl job) [doneResponse] q t :=
  (does_sendResponse_done q t).bind (.ret _ q t)

/-- A fresh command goes to its case of the switch. -/
private theorem does_receiveCommand {job : Job} {c : JobCommand} {len : UInt32}
    {q q' ps : List (Packet φ)} {t t' : Table φ} {r : Job ⊕ JobEnd}
    (hfresh : job.mask &&& c.bit = 0)
    (h : Does (serveCommand { job with mask := job.mask ||| c.bit } len c) q t r ps q' t') :
    Does (receiveCommand job) (plain (CmdHeader.encode ⟨c.bit, len⟩) :: q) t r ps q' t' := by
  have hheader : Does (xrecvmsg 8) (plain (CmdHeader.encode ⟨c.bit, len⟩) :: q) t
      (some (CmdHeader.encode ⟨c.bit, len⟩)) [] q t :=
    does_xrecvmsg_plain [CmdHeader.encode ⟨c.bit, len⟩]
      (List.forall_mem_singleton.mpr (List.cons_ne_nil _ _)) q t
  refine hheader.bind ?_
  simp only [CmdHeader.decode_encode, hfresh, ne_eq, not_true_eq_false, if_false,
    JobCommand.ofWord_bit]
  exact h

/-! Exchanges: a command and its response, as the calls of both sides. -/

structure Exchange where
  client : List (Event SockRes)
  server : List (Event SockRes)

/-- The bytes that a run has received. -/
def receivedBytes (tr : List (Event SockRes)) : Bytes := (received tr).flatMap Message.data

/-- The server has read exactly what the client has sent, has taken the command, and the one
response that the client has read is what the server has sent. -/
structure Exchange.Accepted (x : Exchange) (send : SockProg Unit) (job job' : Job) : Prop where
  client : Runs send x.client (.returned ())
  server : Runs (receiveCommand job) x.server (.returned (.inl job'))
  consumed : receivedBytes x.server = sent x.client
  response : ∃ m, received x.client = [m] ∧ m.data = sent x.server ∧
    SrvCmdResp.decode m.data = ⟨cmdStatusDone, 0⟩

/-- Client and server between two exchanges. -/
def between (client : SockProg Int32) (tc : Table φ) (job : Job) (ts : Table φ)
    (xs : List Exchange) : System (SockProg Int32) (SockProg (Job ⊕ JobEnd)) φ where
  left := ⟨client, tc, xs.flatMap Exchange.client⟩
  right := ⟨receiveCommand job, ts, xs.flatMap Exchange.server⟩

/-- The steps of the two programs. -/
abbrev JobMove : System (SockProg Int32) (SockProg (Job ⊕ JobEnd)) φ →
    System (SockProg Int32) (SockProg (Job ⊕ JobEnd)) φ → Prop :=
  Move progAct (loopAct receiveCommand)

/-- The client sends a command and the server takes it. -/
def Takes (tc : Table φ) (send : SockProg Unit) (job : Job) (ts : Table φ) (job' : Job)
    (ts' : Table φ) : Prop :=
  ∃ x : Exchange, x.Accepted send job job' ∧ ∀ (f : Unit → SockProg Int32) (xs : List Exchange),
    Leads JobMove (between (send.bind f) tc job ts xs) (between (f ()) tc job' ts' (xs ++ [x]))

private theorem performs_recvResponse_done (name : String) (t : Table φ) :
    Performs (recvResponse name) [doneResponse] t cmdStatusDone
      [⟨.recvmsg 8 0 true, some ⟨SrvCmdResp.encode ⟨cmdStatusDone, 0⟩, []⟩⟩] [] [] t := by
  have hanswer : answer [doneResponse] t (.recvmsg 8 0 true) =
      some ⟨some ⟨SrvCmdResp.encode ⟨cmdStatusDone, 0⟩, []⟩, [], t, []⟩ := rfl
  exact Performs.call hanswer (.ret cmdStatusDone [] t)

/-- Whatever is sent without waiting, taken and acknowledged, is an exchange. -/
private theorem takes_of_does {sends : SockProg Unit} {name : String} {job job' : Job}
    {ps : List (Packet φ)} {tc ts ts' : Table φ} (hsends : Does sends [] tc () ps [] tc)
    (hquiet : sends.Uses SockOp.Quiet)
    (hserver : Does (receiveCommand job) ps ts (.inl job') [doneResponse] [] ts') :
    Takes tc (sends.bind fun _ => (recvResponse name).bind fun _ => .ret ()) job ts job' ts' := by
  obtain ⟨trs, htrs⟩ := hsends
  obtain ⟨trr, htrr⟩ := hserver
  have hresponse := (performs_recvResponse_done name tc).bind (f := fun _ => .ret ())
    (.ret () [] tc)
  refine ⟨⟨trs ++ _, trr⟩, ⟨htrs.runs.bind hresponse.runs, htrr.runs, ?_, ?_⟩, fun f xs => ?_⟩
  · have hread := htrr.received_contents
    rw [htrs.sent_contents] at hread
    simpa [receivedBytes, contents, sent] using hread.symm
  · have hnothing : received trs = [] := received_of_quiet (htrs.runs.uses hquiet)
    have hdone := htrr.sent_contents
    refine ⟨⟨SrvCmdResp.encode ⟨cmdStatusDone, 0⟩, []⟩, ?_, ?_, SrvCmdResp.decode_encode _⟩
    · rw [received_append, hnothing]
      rfl
    · simpa [contents, doneResponse] using hdone
  · have hsent := Leads.left (loopAct receiveCommand) [] htrs
      (fun _ => ((recvResponse name).bind fun _ => .ret ()).bind f)
      (xs.flatMap Exchange.client) ⟨receiveCommand job, ts, xs.flatMap Exchange.server⟩
    have hserved := Leads.right progAct receiveCommand [] htrr
      (xs.flatMap Exchange.server)
      ⟨((recvResponse name).bind fun _ => .ret ()).bind f, tc, xs.flatMap Exchange.client ++ trs⟩
    have hturn := Leads.turn progAct receiveCommand job' ts'
      (xs.flatMap Exchange.server ++ trr)
      ⟨((recvResponse name).bind fun _ => .ret ()).bind f, tc, xs.flatMap Exchange.client ++ trs⟩
      [] [doneResponse]
    have hread := Leads.left (loopAct receiveCommand) [] hresponse f
      (xs.flatMap Exchange.client ++ trs)
      ⟨receiveCommand job', ts', xs.flatMap Exchange.server ++ trr⟩
    have hall := ((hsent.trans hserved).trans hturn).trans hread
    simpa [between, prog_bind_assoc] using hall

/-! The exchanges of the client. -/

private theorem does_sendHeader (hdr : CmdHeader) (failure : String) (q : List (Packet φ))
    (t : Table φ) : Does (sendHeader hdr failure) q t () [plain hdr.encode] q t :=
  (does_xsendmsg (List.cons_ne_nil _ _) q t).bind (.ret () q t)

private theorem sendHeader_quiet (hdr : CmdHeader) (failure : String) :
    (sendHeader hdr failure).Uses SockOp.Quiet := by
  refine Prog.Uses.bind ?_ fun sent => ?_
  · refine ⟨trivial, fun r => ?_⟩
    cases r <;> trivial
  · cases sent <;> trivial

private theorem takes_type (tc ts : Table φ) {job : Job} (type : JobType)
    (hfresh : job.mask &&& JobCommand.type.bit = 0) :
    Takes tc (sendType type) job ts
      { job with type := type.code, mask := job.mask ||| JobCommand.type.bit } ts :=
  takes_of_does (does_sendHeader _ _ [] tc) (sendHeader_quiet _ _)
    (does_receiveCommand hfresh (does_acknowledge _ [] ts))

private theorem takes_personality (tc ts : Table φ) {job : Job} {pers : Int32}
    (hpers : ¬ pers < 0) (hfresh : job.mask &&& JobCommand.personality.bit = 0) :
    Takes tc (sendPersonality pers) job ts
      { job with persona := pers.toUInt32, mask := job.mask ||| JobCommand.personality.bit } ts := by
  have heq : sendPersonality pers =
      (sendHeader ⟨JobCommand.personality.bit, pers.toUInt32⟩ "failed to send header").bind
        fun _ => (recvResponse "personality").bind fun _ => .ret () := if_neg hpers
  rw [heq]
  exact takes_of_does (does_sendHeader _ _ [] tc) (sendHeader_quiet _ _)
    (does_receiveCommand hfresh (does_acknowledge _ [] ts))

private theorem fdSend_quiet (fds : List ℕ) : (fdSend fds).Uses SockOp.Quiet := by
  refine ⟨trivial, fun r => ?_⟩
  cases r with
  | error e => trivial
  | ok n =>
      change Prog.Uses _ (ite _ _ _)
      split_ifs <;> trivial

/-- Sending descriptors, up to the response. -/
private theorem does_sendFds {fds : List ℕ} {files : List φ} {tc : Table φ}
    (h : fds.mapM tc.file = some files) (hdr : CmdHeader) (failure : String) :
    Does ((sendHeader hdr failure).bind fun _ => fdSend fds) [] tc ()
      [plain hdr.encode, ⟨[UInt8.ofNat (cmsgLen (4 * fds.length))], files⟩] [] tc :=
  (does_sendHeader hdr failure [] tc).bind (does_fdSend h [])

private theorem sendFds_quiet (fds : List ℕ) (hdr : CmdHeader) (failure : String) :
    ((sendHeader hdr failure).bind fun _ => fdSend fds).Uses SockOp.Quiet :=
  (sendHeader_quiet hdr failure).bind fun _ => fdSend_quiet fds

private theorem sendFds_eq (cmd : JobCommand) (name : String) (fds : List ℕ) :
    sendFds cmd name fds =
      ((sendHeader ⟨cmd.bit, UInt32.ofNat (4 * fds.length)⟩
        s!"{name}: failed to send header").bind fun _ => fdSend fds).bind
          fun _ => (recvResponse name).bind fun _ => .ret () := by
  rw [prog_bind_assoc]
  rfl

private theorem takes_fds (ts : Table φ) (job : Job) {tc : Table φ} {std : Fin 3 → φ}
    (hstd : ∀ i : Fin 3, tc.file i = some (std i))
    (hfresh : job.mask &&& JobCommand.fds.bit = 0) :
    ∃ (fds : Fin 3 → ℕ) (ts' : Table φ),
      Takes tc (sendFds .fds "stdio" [0, 1, 2]) job ts
        { job with stdFds := fun i => fds i, mask := job.mask ||| JobCommand.fds.bit } ts' ∧
      (∀ i, ts'.file (fds i) = some (std i)) ∧
      ∀ n f, ts.file n = some f → ts'.file n = some f := by
  have hfiles : [0, 1, 2].mapM tc.file = some [std 0, std 1, std 2] := by
    have h0 := hstd 0
    have h1 := hstd 1
    have h2 := hstd 2
    simp only [Fin.val_zero, Fin.val_one, Fin.val_two] at h0 h1 h2
    simp [h0, h1, h2]
  obtain ⟨fds, hrecv, hget⟩ := does_fdRecv (UInt8.ofNat (cmsgLen (4 * 3)))
    [std 0, std 1, std 2] [] ts (List.cons_ne_nil _ _)
  refine ⟨fds, (ts.installAll [std 0, std 1, std 2]).2, ?_, fun i => ?_,
    fun n f hn => Table.file_installAll_of_open _ hn⟩
  · rw [sendFds_eq]
    refine takes_of_does (does_sendFds hfiles _ _) (sendFds_quiet _ _ _)
      (does_receiveCommand hfresh ?_)
    exact hrecv.bind (does_acknowledge _ [] _)
  · have hi := hget i
    fin_cases i <;> exact hi

private theorem takes_chrootFd (ts : Table φ) (job : Job) {tc : Table φ} {fd : ℕ} {dir : φ}
    (hdir : tc.file fd = some dir) (hfresh : job.mask &&& JobCommand.chrootFd.bit = 0) :
    ∃ (n : ℕ) (ts' : Table φ),
      Takes tc (sendFds .chrootFd "chroot descriptor" [fd]) job ts
        { job with chrootFd := n, mask := job.mask ||| JobCommand.chrootFd.bit } ts' ∧
      ts'.file n = some dir ∧ ∀ m f, ts.file m = some f → ts'.file m = some f := by
  have hfiles : [fd].mapM tc.file = some [dir] := by simp [hdir]
  obtain ⟨fds, hrecv, hget⟩ := does_fdRecv (UInt8.ofNat (cmsgLen (4 * 1))) [dir] [] ts
    (List.cons_ne_nil _ _)
  refine ⟨fds 0, (ts.installAll [dir]).2, ?_, hget 0,
    fun n f hn => Table.file_installAll_of_open _ hn⟩
  rw [sendFds_eq]
  refine takes_of_does (does_sendFds hfiles _ _) (sendFds_quiet _ _ _)
    (does_receiveCommand hfresh ?_)
  exact hrecv.bind (does_acknowledge _ [] _)

/-- Sending strings, up to the response. -/
def sendEach (name : String) (argv : List CString) : SockProg Unit :=
  Prog.each (fun arg => do
    if ← xsendmsg (terminated arg) then return () else .die s!"{name}: error sending data") argv

private theorem does_sendEach (name : String) (argv : List CString) (q : List (Packet φ))
    (t : Table φ) :
    Does (sendEach name argv) q t () ((argv.map terminated).map plain) q t := by
  induction argv with
  | nil => exact .ret () q t
  | cons arg argv ih =>
      have hne : terminated arg ≠ [] := by simp [terminated]
      have hfirst := (does_xsendmsg hne q t).bind (f := fun sent =>
        if sent = true then Prog.ret () else .die s!"{name}: error sending data") (.ret () q t)
      exact hfirst.bind ih

private theorem sendEach_quiet (name : String) (argv : List CString) :
    (sendEach name argv).Uses SockOp.Quiet := by
  refine Prog.Uses.each fun arg _ => Prog.Uses.bind ?_ fun sent => ?_
  · refine ⟨trivial, fun r => ?_⟩
    cases r <;> trivial
  · cases sent <;> trivial

theorem sendStrings_eq {cmd : JobCommand} (name : String) {argv : List CString}
    (hmax : (encodeStrings argv).length ≤ maxArgsSize) :
    sendStrings cmd name argv =
      ((sendHeader ⟨cmd.bit, UInt32.ofNat (encodeStrings argv).length⟩
        s!"{name}: error sending header").bind fun _ => sendEach name argv).bind
          fun _ => (recvResponse name).bind fun _ => .ret () := by
  have hsize : (UInt32.ofNat (encodeStrings argv).length).toNat = (encodeStrings argv).length := by
    refine UInt32.toNat_ofNat_of_lt' ?_
    simp only [maxArgsSize] at hmax
    simp only [UInt32.size]
    omega
  rw [prog_bind_assoc]
  exact if_neg (not_not.mpr hsize)

private theorem takes_strings {cmd : JobCommand} {name : String} {argv : List CString}
    {tc ts : Table φ} {job job' : Job} (hmax : (encodeStrings argv).length ≤ maxArgsSize)
    (hfresh : job.mask &&& cmd.bit = 0)
    (hserve : ∀ q, Does (recvStringsFromClient (UInt32.ofNat (encodeStrings argv).length)) q ts
        (some argv) [] [] ts →
      Does (serveCommand { job with mask := job.mask ||| cmd.bit }
        (UInt32.ofNat (encodeStrings argv).length) cmd) q ts (.inl job') [doneResponse] [] ts) :
    Takes tc (sendStrings cmd name argv) job ts job' ts := by
  rw [sendStrings_eq name hmax]
  have hsends := (does_sendHeader ⟨cmd.bit, UInt32.ofNat (encodeStrings argv).length⟩
    s!"{name}: error sending header" [] tc).bind (f := fun _ => sendEach name argv)
      (does_sendEach name argv [] tc)
  refine takes_of_does hsends ((sendHeader_quiet _ _).bind fun _ => sendEach_quiet name argv)
    (does_receiveCommand hfresh (hserve _ ?_))
  simpa using does_recvStrings hmax [] ts

private theorem takes_arguments (tc ts : Table φ) (argv : List CString) (job : Job)
    (hmax : (encodeStrings argv).length ≤ maxArgsSize)
    (hfresh : job.mask &&& JobCommand.arguments.bit = 0)
    (hvalid : (validateArguments job.type (some argv)).toBool = true) :
    Takes tc (sendStrings .arguments "arguments" argv) job ts
      { job with argv := some argv, mask := job.mask ||| JobCommand.arguments.bit } ts := by
  refine takes_strings hmax hfresh fun q hrecv => hrecv.bind ?_
  simp only [hvalid, if_true]
  exact does_acknowledge _ [] ts

private theorem takes_environ (tc ts : Table φ) (env : List CString) (job : Job)
    (hmax : (encodeStrings env).length ≤ maxArgsSize)
    (hfresh : job.mask &&& JobCommand.environ.bit = 0) :
    Takes tc (sendStrings .environ "environment" env) job ts
      { job with env := some env, mask := job.mask ||| JobCommand.environ.bit } ts :=
  takes_strings hmax hfresh fun _ hrecv => hrecv.bind (does_acknowledge _ [] ts)

/-! The whole job. -/

/-- The commands of a job before `CMD_JOB_RUN`. -/
def commands (p : Parsed) (ev : List CString) (pers : Int32) : List (SockProg Unit) :=
  [sendType p.job, sendFds .fds "stdio" [0, 1, 2]] ++
    (p.args.map fun args => sendStrings .arguments "arguments" args).toList ++
    if p.job.isChrootuid then
      [sendStrings .environ "environment" ev,
        sendFds .chrootFd "chroot descriptor" [p.chrootFd.toNat]] ++
        if pers < 0 then [] else [sendPersonality pers]
    else []

/-- `main` sends these commands, one after the other, and then `CMD_JOB_RUN`. -/
theorem main_eq (p : Parsed) (ev : List CString) (pers : Int32) :
    main p ev pers = (Prog.each id (commands p ev pers)).bind fun _ => sendRun := by
  have hquery : pers < 0 → sendPersonality pers = .ret () := fun hneg => if_pos hneg
  by_cases hneg : pers < 0 <;> cases hargs : p.args <;> cases hjob : p.job.isChrootuid <;>
    simp [main, commands, sendChroot, hargs, hjob, hneg, hquery, prog_bind_assoc]

/-- The exchanges of a list of commands, from one record to the next. -/
inductive Accepts : List (SockProg Unit) → List Exchange → Job → Job → Prop
  | nil (job : Job) : Accepts [] [] job job
  | cons {send : SockProg Unit} {sends : List (SockProg Unit)} {x : Exchange}
      {xs : List Exchange} {job job' job'' : Job} (h : x.Accepted send job job')
      (hs : Accepts sends xs job' job'') : Accepts (send :: sends) (x :: xs) job job''

def TakesAll (tc : Table φ) (sends : List (SockProg Unit)) (job : Job) (ts : Table φ) (job' : Job)
    (ts' : Table φ) : Prop :=
  ∃ xs, Accepts sends xs job job' ∧ ∀ (f : Unit → SockProg Int32) (ys : List Exchange),
    Leads JobMove (between ((Prog.each id sends).bind f) tc job ts ys)
      (between (f ()) tc job' ts' (ys ++ xs))

private theorem TakesAll.nil (tc ts : Table φ) (job : Job) : TakesAll tc [] job ts job ts :=
  ⟨[], .nil job, fun f ys => by simpa using Leads.refl _⟩

private theorem TakesAll.cons {tc ts ts' ts'' : Table φ} {send : SockProg Unit}
    {sends : List (SockProg Unit)} {job job' job'' : Job} (h : Takes tc send job ts job' ts')
    (hs : TakesAll tc sends job' ts' job'' ts'') : TakesAll tc (send :: sends) job ts job'' ts'' := by
  obtain ⟨x, hx, hlead⟩ := h
  obtain ⟨xs, hxs, hleads⟩ := hs
  refine ⟨x :: xs, .cons hx hxs, fun f ys => ?_⟩
  have hfirst := hlead (fun _ => (Prog.each id sends).bind f) ys
  have hrest := hleads f (ys ++ [x])
  simp only [List.append_assoc, List.singleton_append] at hrest
  rw [each_cons, prog_bind_assoc]
  exact hfirst.trans hrest

/-- The record describes the job of the client; `t` are the descriptors of the server. -/
structure Records (p : Parsed) (ev : List CString) (pers : Int32) (std : Fin 3 → φ) (dir : φ)
    (t : Table φ) (job : Job) : Prop where
  type : job.type = p.job.code
  argv : job.argv = p.args
  env : job.env = if p.job.isChrootuid then some ev else none
  persona : job.persona =
    if p.job.isChrootuid ∧ ¬ pers < 0 then pers.toUInt32 else 0xffffffff
  stdFds : ∀ i, ∃ n : ℕ, job.stdFds i = n ∧ t.file n = some (std i)
  chrootFd : if p.job.isChrootuid then ∃ n : ℕ, job.chrootFd = n ∧ t.file n = some dir
    else job.chrootFd = -1

/-- The mask after these commands. -/
private def masks (cs : List JobCommand) : UInt32 := cs.foldl (fun mask c => mask ||| c.bit) 0

/-- What the commands before `CMD_JOB_RUN` make of the record; `CMD_JOB_RUN` can follow. -/
private theorem takes_commands {p : Parsed} (hp : p.Proper) (ev : List CString) (pers : Int32)
    (hargs : ∀ args, p.args = some args → (encodeStrings args).length ≤ maxArgsSize)
    (henv : (encodeStrings ev).length ≤ maxArgsSize) {tc : Table φ} (ts : Table φ)
    {std : Fin 3 → φ} {dir : φ} (hstd : ∀ i : Fin 3, tc.file i = some (std i))
    (hdir : p.job.isChrootuid = true → tc.file p.chrootFd.toNat = some dir) :
    ∃ job ts', TakesAll tc (commands p ev pers) {} ts job ts' ∧
      Records p ev pers std dir ts' job ∧ job.mask &&& JobCommand.run.bit = 0 ∧
      (validateJob { job with mask := job.mask ||| JobCommand.run.bit }).toBool = true := by
  obtain ⟨fds, t₁, htakes, hfds, -⟩ := takes_fds ts
    { type := p.job.code, mask := masks [.type] } hstd (by dsimp only; decide)
  have htype : Takes tc (sendType p.job) {} ts { type := p.job.code, mask := masks [.type] } ts :=
    takes_type tc ts p.job (by decide)
  cases hjob : p.job.isChrootuid with
  | false =>
      have hnone := hp.simple hjob
      have hcommands : commands p ev pers = [sendType p.job, sendFds .fds "stdio" [0, 1, 2]] := by
        simp [commands, hnone, hjob]
      rw [hcommands]
      refine ⟨_, t₁, .cons htype (.cons htakes (.nil _ _ _)), ?_, by dsimp only; decide, ?_⟩
      · exact ⟨rfl, hnone.symm, by simp [hjob], by simp [hjob], fun i => ⟨fds i, rfl, hfds i⟩,
          by simp [hjob]⟩
      · simp only [validateJob, JobType.ofWord_code]
        generalize p.job = type at hjob
        cases type <;> first | rfl | cases hjob
  | true =>
      obtain ⟨program, args, hsome⟩ := hp.chrootuid hjob
      have hvalid : (validateArguments p.job.code (some (program :: args))).toBool = true := by
        rw [validateArguments_chrootuid hjob]
        rfl
      have harguments := takes_arguments tc t₁ (program :: args)
        { type := p.job.code, mask := masks [.type, .fds], stdFds := fun i => fds i }
        (hargs _ hsome) (by dsimp only; decide) hvalid
      have henviron := takes_environ tc t₁ ev
        { type := p.job.code, mask := masks [.type, .fds, .arguments]
          stdFds := fun i => fds i, argv := some (program :: args) } henv
        (by dsimp only; decide)
      obtain ⟨n, t₂, hchroot, hn, hkeep⟩ := takes_chrootFd t₁
        { type := p.job.code, mask := masks [.type, .fds, .arguments, .environ]
          stdFds := fun i => fds i, argv := some (program :: args), env := some ev }
        (hdir hjob) (by dsimp only; decide)
      have hstdFds : ∀ i, t₂.file (fds i) = some (std i) := fun i => hkeep _ _ (hfds i)
      have hpersona : ∃ mask : UInt32,
          TakesAll tc (if pers < 0 then [] else [sendPersonality pers])
            { type := p.job.code, mask := masks [.type, .fds, .arguments, .environ, .chrootFd]
              stdFds := fun i => fds i, argv := some (program :: args), env := some ev
              chrootFd := n } t₂
            { type := p.job.code, mask := mask, stdFds := fun i => fds i
              argv := some (program :: args), env := some ev, chrootFd := n
              persona := if pers < 0 then 0xffffffff else pers.toUInt32 } t₂ ∧
          mask &&& JobCommand.run.bit = 0 ∧
          (mask ||| JobCommand.run.bit) &&& JobCommand.chrootFd.bit ≠ 0 ∧
          (mask ||| JobCommand.run.bit) &&& JobCommand.arguments.bit ≠ 0 := by
        split_ifs with hneg
        · exact ⟨_, .nil _ _ _, by decide, by decide, by decide⟩
        · exact ⟨_, .cons (takes_personality tc t₂ hneg (by dsimp only; decide)) (.nil _ _ _),
            by dsimp only; decide, by dsimp only; decide, by dsimp only; decide⟩
      obtain ⟨mask, hlast, hrun, hroot, hgiven⟩ := hpersona
      have hcommands : commands p ev pers =
          sendType p.job :: sendFds .fds "stdio" [0, 1, 2] ::
            sendStrings .arguments "arguments" (program :: args) ::
            sendStrings .environ "environment" ev ::
            sendFds .chrootFd "chroot descriptor" [p.chrootFd.toNat] ::
            if pers < 0 then [] else [sendPersonality pers] := by
        simp [commands, hsome, hjob]
      rw [hcommands]
      refine ⟨_, t₂, .cons htype (.cons htakes (.cons harguments (.cons henviron
        (.cons hchroot hlast)))), ?_, hrun, ?_⟩
      · refine ⟨rfl, hsome.symm, by simp [hjob], ?_, fun i => ⟨fds i, rfl, hstdFds i⟩, ?_⟩
        · by_cases hneg : pers < 0 <;> simp [hjob, hneg]
        · simpa [hjob] using hn
      · simp only [validateJob, JobType.ofWord_code, hroot, hgiven, if_false]
        generalize p.job = type
        cases type <;> rfl

/-- The server is at `spawn_job_runner`, the client waits for the response to `CMD_JOB_RUN` and
nothing is under way; `xs` and `run` are all that the two have done. -/
structure Agreed (p : Parsed) (ev : List CString) (pers : Int32) (std : Fin 3 → φ) (dir : φ)
    (f : System (SockProg Int32) (SockProg (Job ⊕ JobEnd)) φ) (xs : List Exchange)
    (run : Exchange) (taken job : Job) : Prop where
  accepted : Accepts (commands p ev pers) xs {} taken
  spawns : Runs (receiveCommand taken) run.server (.returned (.inr (.spawnJobRunner job)))
  consumed : receivedBytes run.server = sent run.client
  unanswered : received run.client = [] ∧ sent run.server = []
  waiting : f.left.process = recvResponse "run"
  client : f.left.history = (xs ++ [run]).flatMap Exchange.client
  spawning : f.right.process = .ret (.inr (.spawnJobRunner job))
  server : f.right.history = (xs ++ [run]).flatMap Exchange.server
  nothing : f.up = [] ∧ f.down = []
  record : Records p ev pers std dir f.right.table job

private theorem Records.run {p : Parsed} {ev : List CString} {pers : Int32} {std : Fin 3 → φ}
    {dir : φ} {t : Table φ} {job : Job} (h : Records p ev pers std dir t job) (mask : UInt32) :
    Records p ev pers std dir t { job with mask := mask } :=
  ⟨h.type, h.argv, h.env, h.persona, h.stdFds, h.chrootFd⟩

private theorem does_serveRun {job : Job} (hvalid : (validateJob job).toBool = true)
    (t : Table φ) :
    Does (serveCommand job 0 .run) [] t (.inr (.spawnJobRunner job)) [] [] t := by
  have hgo : ¬ ((0 : UInt32) ≠ 0 ∨ ¬ (validateJob job).toBool = true) := by
    rw [hvalid]
    decide
  have heq : serveCommand job 0 .run = .ret (.inr (.spawnJobRunner job)) := if_neg hgo
  rw [heq]
  exact .ret _ [] t

/-- The last command, from the state in which all others have been taken. -/
private theorem leads_run (tc ts : Table φ) {job : Job} (xs : List Exchange)
    (hfresh : job.mask &&& JobCommand.run.bit = 0)
    (hvalid : (validateJob { job with mask := job.mask ||| JobCommand.run.bit }).toBool = true) :
    ∃ run : Exchange,
      Runs (receiveCommand job) run.server (.returned
        (.inr (.spawnJobRunner { job with mask := job.mask ||| JobCommand.run.bit }))) ∧
      receivedBytes run.server = sent run.client ∧
      (received run.client = [] ∧ sent run.server = []) ∧
      Leads JobMove (between sendRun tc job ts xs)
        ⟨⟨recvResponse "run", tc, (xs ++ [run]).flatMap Exchange.client⟩,
          ⟨.ret (.inr (.spawnJobRunner { job with mask := job.mask ||| JobCommand.run.bit })), ts,
            (xs ++ [run]).flatMap Exchange.server⟩, [], []⟩ := by
  obtain ⟨trs, htrs⟩ := does_sendHeader ⟨JobCommand.run.bit, 0⟩ "failed to send header"
    ([] : List (Packet φ)) tc
  obtain ⟨trr, htrr⟩ := does_receiveCommand hfresh (does_serveRun hvalid ts)
  refine ⟨⟨trs, trr⟩, htrr.runs, ?_, ⟨?_, ?_⟩, ?_⟩
  · have hread := htrr.received_contents
    rw [htrs.sent_contents] at hread
    simpa [receivedBytes, contents] using hread.symm
  · exact received_of_quiet (htrs.runs.uses (sendHeader_quiet _ _))
  · exact htrr.sent_contents.symm
  · have hsent := Leads.left (loopAct receiveCommand) [] htrs
      (fun _ => recvResponse "run") (xs.flatMap Exchange.client)
      ⟨receiveCommand job, ts, xs.flatMap Exchange.server⟩
    have hserved := Leads.right progAct receiveCommand [] htrr
      (xs.flatMap Exchange.server) ⟨recvResponse "run", tc, xs.flatMap Exchange.client ++ trs⟩
    have hall := hsent.trans hserved
    simpa [between, sendRun] using hall

/-- Client and server agree on the job: however their steps are interleaved, they get to the one
state in which they agree, after as many steps. -/
theorem job_protocol_agrees {openDirectory : Bytes → Option ℕ} {cmdline : List CString}
    {p : Parsed} (hp : parseCmdline openDirectory cmdline = .ok p) (ev : List CString)
    (pers : Int32)
    (hargs : ∀ args, p.args = some args → (encodeStrings args).length ≤ maxArgsSize)
    (henv : (encodeStrings ev).length ≤ maxArgsSize) {tc : Table φ} (ts : Table φ)
    {std : Fin 3 → φ} {dir : φ} (hstd : ∀ i : Fin 3, tc.file i = some (std i))
    (hdir : p.job.isChrootuid = true → tc.file p.chrootFd.toNat = some dir) :
    ∃ f xs run taken job total, Agreed p ev pers std dir f xs run taken job ∧ Final JobMove f ∧
      ∀ n s, Steps JobMove n (between (main p ev pers) tc {} ts []) s →
        ∃ k, total = n + k ∧ Steps JobMove k s f := by
  obtain ⟨taken, ts', ⟨xs, haccepted, hleads⟩, hrecord, hfresh, hvalid⟩ :=
    takes_commands (parseCmdline_proper hp) ev pers hargs henv ts hstd hdir
  obtain ⟨run, hspawns, hconsumed, hunanswered, hrun⟩ := leads_run tc ts' xs hfresh hvalid
  have hstart := hleads (fun _ => sendRun) []
  rw [← main_eq, List.nil_append] at hstart
  obtain ⟨total, htotal⟩ := hstart.trans hrun
  have hfinal := final_of_halt progAct (loopAct receiveCommand)
    (s := ⟨⟨recvResponse "run", tc, (xs ++ [run]).flatMap Exchange.client⟩,
      ⟨.ret (.inr (.spawnJobRunner { taken with mask := taken.mask ||| JobCommand.run.bit })), ts',
        (xs ++ [run]).flatMap Exchange.server⟩, [], []⟩) rfl rfl
  exact ⟨_, xs, run, taken, _, total,
    ⟨haccepted, hspawns, hconsumed, hunanswered, rfl, rfl, rfl, rfl, ⟨rfl, rfl⟩, hrecord.run _⟩,
    hfinal, fun n s hs => htotal.descent (move_commuting _ _) hfinal hs⟩

/-- `hasher-priv -1 chrootuid1 / a`, its environment holding an empty string. -/
def sampleCmdline : List CString :=
  [⟨str "hasher-priv", by decide⟩, ⟨str "-1", by decide⟩, ⟨str "chrootuid1", by decide⟩,
    ⟨str "/", by decide⟩, ⟨str "a", by decide⟩]

def sampleParsed : Parsed where
  callerNum := 1
  job := .chrootuid1
  args := some [⟨str "a", by decide⟩]
  chrootFd := 3

theorem job_protocol_agrees_sample :
    ∃ f xs run taken job total,
      Agreed sampleParsed [⟨[], by decide⟩] 8 (fun i => 10 + i.val) 13 f xs run taken job ∧
      Final JobMove f ∧
      ∀ n s, Steps JobMove n
        (between (main sampleParsed [⟨[], by decide⟩] 8) [some 10, some 11, some 12, some 13] {}
          [some 0, none, some 2] []) s →
        ∃ k, total = n + k ∧ Steps JobMove k s f := by
  have hparse : parseCmdline (fun _ => some 3) sampleCmdline = .ok sampleParsed := by rfl
  refine job_protocol_agrees hparse [⟨[], by decide⟩] 8 ?_ (by decide) [some 0, none, some 2] ?_
    fun _ => rfl
  · intro args hargs
    obtain rfl := Option.some.inj hargs
    decide
  · decide

end HasherPriv.JobService.Agreement
