/- GID: HasherPriv/JobService/Admission
   layer: job service
   source: caller_job.c
   digest: What the commands of a client can and cannot make of the job record. -/

import HasherPriv.JobService.CallerJob

set_option autoImplicit false
set_option relaxedAutoImplicit false

namespace HasherPriv.JobService.Admission

open Foundations.ByteString (Bytes CString)
open Foundations.Program
open Foundations.Socket
open Protocol.Communication
open Protocol.Pass
open CallerJob

/-! Requests: what one turn of the loop reads from the client. -/

/-- A command header with the message that followed it, if any. -/
structure Request where
  hdr : CmdHeader
  payload : Option Message
  deriving DecidableEq

/-- The request read during a turn. -/
def Request.ofTurn (tr : List (Event SockRes)) : Option Request :=
  match received tr with
  | [] => none
  | m :: rest => if m.data.length = 8 then some ⟨CmdHeader.decode m.data, rest.head?⟩ else none

/-- The requests read during a run, in order. -/
def requests (trs : List (List (Event SockRes))) : List Request := trs.filterMap Request.ofTurn

def Request.strings (q : Request) : Option (List CString) :=
  if maxArgsSize < q.hdr.len.toNat then none
  else if q.hdr.len.toNat = 0 then some []
  else q.payload.bind fun m =>
    if m.data.length = q.hdr.len.toNat then some (stringsOf m.data) else none

def Request.rights (n : ℕ) (q : Request) : Option (Fin n → ℕ) :=
  if q.hdr.len.toNat = 4 * n then
    q.payload.bind fun m =>
      if m.data.length = 1 then (receivedRights n m).toOption else none
  else none

/-- The payload a command needs was there. -/
def Request.Complete (q : Request) : JobCommand → Prop
  | .chrootFd => (q.rights 1).isSome
  | .fds => (q.rights 3).isSome
  | .arguments | .environ => q.strings.isSome
  | .type | .personality | .run => True

/-- The record after a command: the field the command names, and its mask bit. -/
def setField (job : Job) (c : JobCommand) (q : Request) : Job :=
  let job := { job with mask := job.mask ||| c.bit }
  match c with
  | .type => { job with type := q.hdr.len }
  | .personality => { job with persona := q.hdr.len }
  | .chrootFd => { job with chrootFd := (q.rights 1).elim (-1) fun fds => fds 0 }
  | .fds => { job with stdFds := (q.rights 3).elim (fun _ => -1) fun fds i => fds i }
  | .arguments => { job with argv := q.strings }
  | .environ => { job with env := q.strings }
  | .run => job

/-- The command is taken in this state of the record. -/
structure Accepts (job : Job) (c : JobCommand) (q : Request) : Prop where
  named : q.hdr.type = c.bit
  fresh : job.mask &&& c.bit = 0
  complete : q.Complete c
  arguments : c = .arguments → (validateArguments job.type q.strings).toBool
  run : c = .run → q.hdr.len = 0 ∧ (validateJob (setField job c q)).toBool

/-! One turn. -/

private theorem xrecvmsg_received {n : ℕ} {tr : List (Event SockRes)} {d : Bytes}
    (h : Runs (xrecvmsg n) tr (.returned (some d))) :
    ∃ m : Message, received tr = [m] ∧ m.data = d ∧ d.length = n := by
  obtain ⟨r, rest, rfl, hr⟩ := returns_op_bind.mp h
  cases r with
  | none => simp at hr
  | some m =>
      obtain ⟨rfl, hd⟩ := returns_ret.mp hr
      split_ifs at hd with hl
      obtain rfl := Option.some.inj hd
      exact ⟨m, rfl, rfl, hl⟩

private theorem fdRecv_received {n : ℕ} {tr : List (Event SockRes)} {fds : Fin n → ℕ}
    (h : Runs (fdRecv n) tr (.returned (some fds))) :
    ∃ m : Message, received tr = [m] ∧ m.data.length = 1 ∧
      (receivedRights n m).toOption = some fds := by
  obtain ⟨r, rest, rfl, hr⟩ := returns_op_bind.mp h
  cases r with
  | none => simp at hr
  | some m =>
      obtain ⟨rfl, hd⟩ := returns_ret.mp hr
      split_ifs at hd with hl
      exact ⟨m, rfl, hl, hd.symm⟩

private theorem recvStrings_received {len : UInt32} {tr : List (Event SockRes)}
    {av : List CString} (h : Runs (recvStringsFromClient len) tr (.returned (some av))) :
    ∃ payload : Option Message, received tr = payload.toList ∧
      (Request.mk ⟨0, len⟩ payload).strings = some av := by
  unfold recvStringsFromClient at h
  split_ifs at h with hmax
  · simp at h
  obtain ⟨r, rest, rfl, h₁⟩ := returns_op_bind.mp h
  cases r with
  | false => simp at h₁
  | true =>
      obtain ⟨data, t₁, t₂, rfl, h₂, h₃⟩ := returns_bind.mp h₁
      cases data with
      | none => simp at h₃
      | some data =>
          obtain ⟨r, rest, rfl, h₄⟩ := returns_op_bind.mp h₃
          cases r with
          | false => simp at h₄
          | true =>
              obtain ⟨rfl, he⟩ := returns_ret.mp h₄
              obtain rfl := Option.some.inj he
              unfold receiveArgs at h₂
              split_ifs at h₂ with hlen
              · obtain ⟨m, hm, rfl, hl⟩ := xrecvmsg_received h₂
                refine ⟨some m, by simpa [received] using hm, ?_⟩
                simp [Request.strings, hmax, hlen.ne', hl]
              · obtain ⟨rfl, hd⟩ := returns_ret.mp h₂
                obtain rfl := Option.some.inj hd
                refine ⟨none, rfl, ?_⟩
                have hz : len.toNat = 0 := by omega
                simp [Request.strings, hz, stringsOf, scan]

private theorem sendResponse_quiet (rc : Int32) (text : Bytes) :
    (sendResponseToClient rc text).Uses SockOp.Quiet := by
  refine Prog.Uses.bind ?_ fun data => ?_
  · unfold responseData
    split_ifs
    · trivial
    · refine ⟨trivial, fun r => ?_⟩
      cases r <;> trivial
  · refine ⟨trivial, fun r => ?_⟩
    rcases r with (_ | _) | n
    · trivial
    · trivial
    · change Prog.Uses _ (ite _ _ _)
      split_ifs
      · trivial
      · refine ⟨trivial, fun r => ?_⟩
        rcases r with (_ | _) | n <;> trivial

private theorem acknowledge_received {job : Job} {tr : List (Event SockRes)}
    {r : Job ⊕ JobEnd} (h : Runs (acknowledge job) tr (.returned r)) :
    received tr = [] ∧ r = .inl job := by
  obtain ⟨_, t₁, t₂, rfl, h₁, h₂⟩ := returns_bind.mp h
  obtain ⟨rfl, rfl⟩ := returns_ret.mp h₂
  exact ⟨by simp [received_of_quiet (h₁.uses (sendResponse_quiet _ _))], rfl⟩

private theorem cancelJob_returns {reason : String} {tr : List (Event SockRes)}
    {r : Job ⊕ JobEnd} (h : Runs (cancelJob reason) tr (.returned r)) :
    r = .inr (.cancelled reason) := by
  obtain ⟨_, t₁, t₂, rfl, h₁, h₂⟩ := returns_bind.mp h
  exact (returns_ret.mp h₂).2

/-- How a returned turn continues. -/
def turnResult (job : Job) (c : JobCommand) (q : Request) : Job ⊕ JobEnd :=
  if c = .run then .inr (.spawnJobRunner (setField job c q)) else .inl (setField job c q)

private theorem ofTurn_of_received {d : Bytes} {t₁ t₂ : List (Event SockRes)} {m : Message}
    {payload : Option Message} (h₁ : received t₁ = [m]) (hd : m.data = d) (hl : d.length = 8)
    (h₂ : received t₂ = payload.toList) :
    Request.ofTurn (t₁ ++ t₂) = some ⟨CmdHeader.decode d, payload⟩ := by
  subst hd
  unfold Request.ofTurn
  rw [received_append, h₁, h₂]
  cases payload <;> simp [hl]

private theorem rights_of_received {n : ℕ} {hdr : CmdHeader} {m : Message} {fds : Fin n → ℕ}
    (hlen : hdr.len.toNat = 4 * n) (hl : m.data.length = 1)
    (h : (receivedRights n m).toOption = some fds) :
    (Request.mk hdr (some m)).rights n = some fds := by
  simp [Request.rights, hlen, hl, h]

/-- A case of the switch cancels the request, or takes the command it was reached with. -/
private theorem serveCommand_returns {job : Job} {hdr : CmdHeader} {c : JobCommand}
    {tr : List (Event SockRes)} {r : Job ⊕ JobEnd} (hbit : hdr.type = c.bit)
    (hfresh : job.mask &&& c.bit = 0)
    (h : Runs (serveCommand { job with mask := job.mask ||| hdr.type } hdr.len c) tr
      (.returned r)) :
    (∃ reason, r = .inr (.cancelled reason)) ∨
      ∃ payload : Option Message, received tr = payload.toList ∧ Accepts job c ⟨hdr, payload⟩ ∧
        r = turnResult job c ⟨hdr, payload⟩ := by
  obtain ⟨type, len⟩ := hdr
  change type = c.bit at hbit
  subst hbit
  cases c with
  | type =>
      obtain ⟨hr, rfl⟩ := acknowledge_received h
      exact .inr ⟨none, hr, ⟨rfl, hfresh, trivial, nofun, nofun⟩, rfl⟩
  | personality =>
      obtain ⟨hr, rfl⟩ := acknowledge_received h
      exact .inr ⟨none, hr, ⟨rfl, hfresh, trivial, nofun, nofun⟩, rfl⟩
  | chrootFd =>
      change Runs (ite _ _ _) _ _ at h
      split_ifs at h with hlen
      · exact .inl ⟨_, cancelJob_returns h⟩
      obtain ⟨fds, t₁, t₂, rfl, h₁, h₂⟩ := returns_bind.mp h
      cases fds with
      | none => exact .inl ⟨_, cancelJob_returns h₂⟩
      | some fds =>
          obtain ⟨m, hm, hl, hrights⟩ := fdRecv_received h₁
          obtain ⟨hr, rfl⟩ := acknowledge_received h₂
          obtain rfl : len = 4 := not_not.mp hlen
          have hq : (Request.mk ⟨JobCommand.chrootFd.bit, 4⟩ (some m)).rights 1 = some fds :=
            rights_of_received rfl hl hrights
          refine .inr ⟨some m, by simp [hm, hr], ⟨rfl, hfresh, ?_, nofun, nofun⟩, ?_⟩
          · exact Option.isSome_iff_exists.mpr ⟨fds, hq⟩
          · simp only [turnResult, setField, hq]
            rfl
  | fds =>
      change Runs (ite _ _ _) _ _ at h
      split_ifs at h with hlen
      · exact .inl ⟨_, cancelJob_returns h⟩
      obtain ⟨fds, t₁, t₂, rfl, h₁, h₂⟩ := returns_bind.mp h
      cases fds with
      | none => exact .inl ⟨_, cancelJob_returns h₂⟩
      | some fds =>
          obtain ⟨m, hm, hl, hrights⟩ := fdRecv_received h₁
          obtain ⟨hr, rfl⟩ := acknowledge_received h₂
          obtain rfl : len = 4 * 3 := not_not.mp hlen
          have hq : (Request.mk ⟨JobCommand.fds.bit, 4 * 3⟩ (some m)).rights 3 = some fds :=
            rights_of_received rfl hl hrights
          refine .inr ⟨some m, by simp [hm, hr], ⟨rfl, hfresh, ?_, nofun, nofun⟩, ?_⟩
          · exact Option.isSome_iff_exists.mpr ⟨fds, hq⟩
          · simp only [turnResult, setField, hq]
            rfl
  | arguments =>
      obtain ⟨av, t₁, t₂, rfl, h₁, h₂⟩ := returns_bind.mp h
      cases av with
      | none => exact .inl ⟨_, cancelJob_returns h₂⟩
      | some av =>
          obtain ⟨payload, hp, hs⟩ := recvStrings_received h₁
          change Runs (ite _ _ _) _ _ at h₂
          split_ifs at h₂ with hargs
          · obtain ⟨hr, rfl⟩ := acknowledge_received h₂
            have hq : (Request.mk ⟨JobCommand.arguments.bit, len⟩ payload).strings = some av := hs
            refine .inr ⟨payload, by simp [hp, hr], ⟨rfl, hfresh, ?_, ?_, nofun⟩, ?_⟩
            · simp [Request.Complete, hq]
            · intro _
              rw [hq]
              exact hargs
            · simp [turnResult, setField, hq]
          · exact .inl ⟨_, cancelJob_returns h₂⟩
  | environ =>
      obtain ⟨av, t₁, t₂, rfl, h₁, h₂⟩ := returns_bind.mp h
      cases av with
      | none => exact .inl ⟨_, cancelJob_returns h₂⟩
      | some av =>
          obtain ⟨payload, hp, hs⟩ := recvStrings_received h₁
          obtain ⟨hr, rfl⟩ := acknowledge_received h₂
          have hq : (Request.mk ⟨JobCommand.environ.bit, len⟩ payload).strings = some av := hs
          refine .inr ⟨payload, by simp [hp, hr], ⟨rfl, hfresh, ?_, nofun, nofun⟩, ?_⟩
          · simp [Request.Complete, hq]
          · simp [turnResult, setField, hq]
  | run =>
      change Runs (ite _ _ _) _ _ at h
      split_ifs at h with hrun
      · exact .inl ⟨_, cancelJob_returns h⟩
      · obtain ⟨rfl, rfl⟩ := returns_ret.mp h
        rw [not_or, ne_eq, not_not, not_not] at hrun
        exact .inr ⟨none, rfl, ⟨rfl, hfresh, trivial, nofun, fun _ => hrun⟩, rfl⟩

/-- A turn cancels the request, or takes the command it read. -/
theorem receiveCommand_returns {job : Job} {tr : List (Event SockRes)} {r : Job ⊕ JobEnd}
    (h : Runs (receiveCommand job) tr (.returned r)) :
    (∃ reason, r = .inr (.cancelled reason)) ∨
      ∃ c q, Request.ofTurn tr = some q ∧ Accepts job c q ∧ r = turnResult job c q := by
  obtain ⟨data, t₁, t₂, rfl, h₁, h₂⟩ := returns_bind.mp h
  cases data with
  | none => exact .inl ⟨_, cancelJob_returns h₂⟩
  | some data =>
    obtain ⟨m, hm, hmd, hl⟩ := xrecvmsg_received h₁
    change Runs (ite _ _ _) _ _ at h₂
    split_ifs at h₂ with hmask
    · exact .inl ⟨_, cancelJob_returns h₂⟩
    rw [ne_eq, not_not] at hmask
    cases hc : JobCommand.ofWord (CmdHeader.decode data).type with
    | none =>
        rw [hc] at h₂
        exact .inl ⟨_, cancelJob_returns h₂⟩
    | some c =>
        rw [hc] at h₂
        have hbit := JobCommand.bit_of_ofWord hc
        rcases serveCommand_returns hbit (hbit ▸ hmask) h₂ with hr | ⟨payload, hp, ha, hr⟩
        · exact .inl hr
        · exact .inr ⟨c, _, ofTurn_of_received hm hmd hl hp, ha, hr⟩

/-! Runs. -/

/-- `job` is what the commands `qs`, each taken in its turn, make of the initial record. -/
inductive Replay : List Request → Job → Prop
  | init : Replay [] {}
  | snoc {qs : List Request} {job : Job} {c : JobCommand} {q : Request} (h : Replay qs job)
      (ha : Accepts job c q) : Replay (qs ++ [q]) (setField job c q)

/-- A run that reaches `spawn_job_runner` has taken every command it read, the last of them
being `CMD_JOB_RUN`. -/
theorem replay_of_runs {qs : List Request} {job job' : Job} {trs : List (List (Event SockRes))}
    (hr : Replay qs job)
    (h : ReceiveJobRequest job trs (.returned (.spawnJobRunner job'))) :
    (requests trs).length = trs.length ∧
      ∃ (rs : List Request) (q : Request) (last : Job), qs ++ requests trs = rs ++ [q] ∧
        Replay rs last ∧ Accepts last .run q ∧ job' = setField last .run q := by
  generalize ho : Outcome.returned (JobEnd.spawnJobRunner job') = out at h
  induction h generalizing qs with
  | @next job t tr trs out h hs ih =>
      rcases receiveCommand_returns h with ⟨_, hc⟩ | ⟨c, q, hq, ha, hc⟩
      · cases hc
      · unfold turnResult at hc
        split_ifs at hc with hrun
        obtain rfl := Sum.inl.inj hc
        obtain ⟨hl, rs, q', last, he, hlast⟩ := ih (hr.snoc ha) ho
        have hreq : requests (tr :: trs) = q :: requests trs := by simp [requests, hq]
        refine ⟨by simp [hreq, hl], rs, q', last, ?_, hlast⟩
        rw [hreq, ← he]
        simp
  | @leave job r tr h =>
      rcases receiveCommand_returns h with ⟨_, hc⟩ | ⟨c, q, hq, ha, hc⟩
      · obtain rfl := Sum.inr.inj hc
        cases ho
      · unfold turnResult at hc
        split_ifs at hc with hrun
        · subst hrun
          obtain rfl := Sum.inr.inj hc
          obtain rfl := JobEnd.spawnJobRunner.inj (Outcome.returned.inj ho)
          have hreq : requests [tr] = [q] := by simp [requests, hq]
          exact ⟨by simp [hreq], qs, q, job, by rw [hreq], hr, ha, rfl⟩
  | died h => cases ho
  | running h => cases ho

/-- The command of a kind among those read. -/
def named (qs : List Request) (c : JobCommand) : Option Request :=
  qs.find? fun q => q.hdr.type = c.bit

/-- The record that a set of commands describes: each field is its initial value, or the
value carried by the command that names it. -/
def record (qs : List Request) : Job where
  type := (named qs .type).elim 0 (·.hdr.len)
  mask := qs.foldl (fun mask q => mask ||| q.hdr.type) 0
  persona := (named qs .personality).elim 0xffffffff (·.hdr.len)
  chrootFd := ((named qs .chrootFd).bind (·.rights 1)).elim (-1) fun fds => fds 0
  stdFds := ((named qs .fds).bind (·.rights 3)).elim (fun _ => -1) fun fds i => fds i
  argv := (named qs .arguments).bind (·.strings)
  env := (named qs .environ).bind (·.strings)

private theorem named_snoc (qs : List Request) {q : Request} {c : JobCommand}
    (hq : q.hdr.type = c.bit) (d : JobCommand) :
    named (qs ++ [q]) d = if c = d then (named qs c).or (some q) else named qs d := by
  unfold named
  rw [List.find?_append]
  by_cases h : c = d
  · subst h
    simp [hq]
  · have hne : c.bit ≠ d.bit := fun hb => h (JobCommand.bit_injective hb)
    simp [hq, h, hne]

private theorem named_eq_none {qs : List Request} {c : JobCommand} :
    named qs c = none ↔ ∀ q ∈ qs, q.hdr.type ≠ c.bit := by
  simp [named]

private theorem record_snoc {qs : List Request} {q : Request} {c : JobCommand}
    (hq : q.hdr.type = c.bit) (hfresh : named qs c = none) :
    record (qs ++ [q]) = setField (record qs) c q := by
  unfold record
  simp only [named_snoc qs hq, hfresh, List.foldl_append, List.foldl_cons, List.foldl_nil, hq]
  cases c <;> rfl

/-- What holds of the record after every sequence of taken commands. -/
structure Sound (qs : List Request) (job : Job) : Prop where
  record : job = record qs
  nodup : (qs.map (·.hdr.type)).Nodup
  commands : ∀ q ∈ qs, ∃ c : JobCommand, q.hdr.type = c.bit ∧ q.Complete c
  mask : ∀ c : JobCommand, job.mask &&& c.bit = 0 ↔ ∀ q ∈ qs, q.hdr.type ≠ c.bit
  arguments : ∀ av, job.argv = some av → (validateArguments job.type (some av)).toBool

private theorem setField_mask (job : Job) (c : JobCommand) (q : Request) :
    (setField job c q).mask = job.mask ||| c.bit := by
  cases c <;> rfl

/-- Arguments are rejected as long as the type has its initial value. -/
private theorem validateArguments_none (av : List CString) :
    ¬ (validateArguments 0 (some av)).toBool := by
  simp [validateArguments, JobType.ofWord, Except.toBool]

theorem Replay.sound {qs : List Request} {job : Job} (h : Replay qs job) : Sound qs job := by
  induction h with
  | init =>
      exact ⟨rfl, by simp, by simp, by simp, fun av h => by cases h⟩
  | @snoc qs job c q _ ha ih =>
      have hfresh := (ih.mask c).mp ha.fresh
      refine ⟨?_, ?_, ?_, ?_, ?_⟩
      · rw [record_snoc ha.named (named_eq_none.mpr hfresh), ih.record]
      · rw [List.map_append, List.nodup_append]
        refine ⟨ih.nodup, by simp, ?_⟩
        intro a hqs b hb
        obtain ⟨q', hq', rfl⟩ := List.mem_map.mp hqs
        obtain rfl := List.mem_singleton.mp hb
        change q'.hdr.type ≠ q.hdr.type
        rw [ha.named]
        exact hfresh q' hq'
      · intro q' hq'
        rcases List.mem_append.mp hq' with hq' | hq'
        · exact ih.commands q' hq'
        · obtain rfl := List.mem_singleton.mp hq'
          exact ⟨c, ha.named, ha.complete⟩
      · intro d
        rw [setField_mask, or_and_eq_zero, ih.mask, JobCommand.bit_and_bit]
        simp only [List.mem_append, List.mem_singleton, or_imp, forall_and, forall_eq, ha.named,
          ne_eq, JobCommand.bit_injective.eq_iff]
      · intro av hav
        cases c with
        | type =>
            have htype : job.type = 0 := by
              rw [ih.record, CallerJob.Job.type, Admission.record, named_eq_none.mpr hfresh]
              rfl
            exact (validateArguments_none av (htype ▸ ih.arguments av hav)).elim
        | arguments => exact hav ▸ ha.arguments rfl
        | fds => exact ih.arguments av hav
        | environ => exact ih.arguments av hav
        | chrootFd => exact ih.arguments av hav
        | personality => exact ih.arguments av hav
        | run => exact ih.arguments av hav

/-- Rearranging elements with distinct keys does not change which one is found under a key. -/
private theorem find_perm {α : Type} {key : α → UInt32} {xs ys : List α} (hp : xs.Perm ys)
    (hn : (xs.map key).Nodup) (w : UInt32) :
    xs.find? (fun x => key x = w) = ys.find? (fun x => key x = w) := by
  rw [← List.head?_filter, ← List.head?_filter]
  have hf := hp.filter fun x => key x = w
  have hone : (xs.filter fun x => key x = w).length ≤ 1 := by
    have hcount := List.nodup_iff_count_le_one.mp hn w
    rw [List.count, List.countP_map, List.countP_eq_length_filter] at hcount
    simpa [Function.comp_def, beq_eq_decide] using hcount
  generalize xs.filter (fun x => key x = w) = fs at hf hone
  match fs, hone with
  | [], _ => rw [List.nil_perm.mp hf]
  | [a], _ => rw [List.singleton_perm.mp hf]

private theorem mask_perm {α : Type} (key : α → UInt32) {xs ys : List α} (hp : xs.Perm ys) :
    xs.foldl (fun mask x => mask ||| key x) 0 = ys.foldl (fun mask x => mask ||| key x) 0 := by
  have hmask : RightCommutative fun (mask : UInt32) (x : α) => mask ||| key x :=
    ⟨fun m a b => by rw [UInt32.or_assoc, UInt32.or_comm (key a), ← UInt32.or_assoc]⟩
  exact hp.foldl_eq 0

/-- The order of distinct commands does not matter. -/
theorem record_perm {qs qs' : List Request} (hp : qs.Perm qs')
    (hn : (qs.map (·.hdr.type)).Nodup) : record qs = record qs' := by
  have hnamed : named qs = named qs' := funext fun c => find_perm hp hn c.bit
  unfold record
  rw [hnamed, mask_perm (·.hdr.type) hp]

/-! Descriptor numbers depend on what is open at the time. Two runs that received the same
open files under different numbers are compared through their descriptor tables. -/

section View

variable {φ : Type}

/-- A command with open files in place of descriptor numbers. -/
structure CommandView (φ : Type) where
  hdr : CmdHeader
  strings : Option (List CString)
  chroot : Option (Fin 1 → φ)
  std : Option (Fin 3 → φ)

/-- A job record with open files in place of descriptor numbers. -/
@[ext] structure JobView (φ : Type) where
  type : UInt32
  mask : UInt32
  persona : UInt32
  chroot : Option φ
  std : Fin 3 → Option φ
  argv : Option (List CString)
  env : Option (List CString)

def Request.view (table : ℕ → φ) (q : Request) : CommandView φ where
  hdr := q.hdr
  strings := q.strings
  chroot := (q.rights 1).map (table ∘ ·)
  std := (q.rights 3).map (table ∘ ·)

/-- The open file behind a descriptor field, a negative one having none. -/
def fileOf (table : ℕ → φ) (fd : ℤ) : Option φ := if 0 ≤ fd then some (table fd.toNat) else none

def jobView (table : ℕ → φ) (job : Job) : JobView φ where
  type := job.type
  mask := job.mask
  persona := job.persona
  chroot := fileOf table job.chrootFd
  std i := fileOf table (job.stdFds i)
  argv := job.argv
  env := job.env

private def namedView (vs : List (CommandView φ)) (c : JobCommand) : Option (CommandView φ) :=
  vs.find? fun v => v.hdr.type = c.bit

private theorem namedView_map (table : ℕ → φ) (qs : List Request) (c : JobCommand) :
    namedView (qs.map (Request.view table)) c = (named qs c).map (Request.view table) := by
  unfold namedView named
  rw [List.find?_map]
  rfl

private def recordView (vs : List (CommandView φ)) : JobView φ where
  type := (namedView vs .type).elim 0 (·.hdr.len)
  mask := vs.foldl (fun mask v => mask ||| v.hdr.type) 0
  persona := (namedView vs .personality).elim 0xffffffff (·.hdr.len)
  chroot := ((namedView vs .chrootFd).bind (·.chroot)).map fun fs => fs 0
  std i := ((namedView vs .fds).bind (·.std)).map fun fs => fs i
  argv := (namedView vs .arguments).bind (·.strings)
  env := (namedView vs .environ).bind (·.strings)

private theorem jobView_record (table : ℕ → φ) (qs : List Request) :
    jobView table (record qs) = recordView (qs.map (Request.view table)) := by
  unfold jobView record recordView
  simp only [namedView_map, List.foldl_map]
  ext1
  · cases named qs .type <;> rfl
  · rfl
  · cases named qs .personality <;> rfl
  · rcases named qs .chrootFd with _ | q
    · rfl
    · cases h : q.rights 1 <;> simp [Request.view, fileOf, h]
  · funext i
    rcases named qs .fds with _ | q
    · rfl
    · cases h : q.rights 3 <;> simp [Request.view, fileOf, h]
  · cases named qs .arguments <;> rfl
  · cases named qs .environ <;> rfl

/-- The order of distinct commands does not matter for the open files of the job either. -/
theorem jobView_perm {qs qs' : List Request} {table table' : ℕ → φ}
    (hp : (qs.map (Request.view table)).Perm (qs'.map (Request.view table')))
    (hn : (qs.map (·.hdr.type)).Nodup) :
    jobView table (record qs) = jobView table' (record qs') := by
  have hn' : ((qs.map (Request.view table)).map (·.hdr.type)).Nodup := by
    rw [List.map_map]
    exact hn
  have hnamed : namedView (qs.map (Request.view table)) =
      namedView (qs'.map (Request.view table')) := funext fun c => find_perm hp hn' c.bit
  rw [jobView_record, jobView_record]
  unfold recordView
  rw [hnamed, mask_perm (·.hdr.type) hp]

end View

/-! Termination: every turn that goes round takes a command not taken before. -/

/-- The commands other than `CMD_JOB_RUN` that the mask still allows. -/
def openCommands (job : Job) : List JobCommand :=
  [.type, .fds, .arguments, .environ, .chrootFd, .personality].filter
    fun c => job.mask &&& c.bit = 0

private theorem openCommands_setField {job : Job} {c : JobCommand} {q : Request}
    (hfresh : job.mask &&& c.bit = 0) (hc : c ≠ .run) :
    (openCommands (setField job c q)).length < (openCommands job).length := by
  have hmem {d : JobCommand} : d ∈ openCommands (setField job c q) →
      d ∈ openCommands job ∧ d ≠ c := by
    unfold openCommands
    simp only [setField_mask, or_and_eq_zero, JobCommand.bit_and_bit, List.mem_filter,
      decide_eq_true_eq]
    rintro ⟨hd, h, hne⟩
    exact ⟨⟨hd, h⟩, hne.symm⟩
  have hsub : (openCommands (setField job c q)).Sublist (openCommands job) := by
    refine List.monotone_filter_right _ fun d hd => ?_
    simp only [setField_mask, or_and_eq_zero, decide_eq_true_eq] at hd ⊢
    exact hd.1
  have hopen : c ∈ openCommands job := by
    have hlist : c ∈ [JobCommand.type, .fds, .arguments, .environ, .chrootFd, .personality] := by
      cases c <;> simp at hc ⊢
    exact List.mem_filter.mpr ⟨hlist, by simpa using hfresh⟩
  refine lt_of_le_of_ne hsub.length_le fun he => ?_
  rw [← hsub.eq_of_length he] at hopen
  exact (hmem hopen).2 rfl

/-- The loop reads at most seven headers. -/
theorem turns_le {trs : List (List (Event SockRes))} {out : Outcome JobEnd}
    (h : ReceiveJobRequest {} trs out) : trs.length ≤ 7 := by
  refine h.length_le (fun _ => True) (fun job => (openCommands job).length) ?_ trivial
  intro job job' tr _ hturn
  rcases receiveCommand_returns hturn with ⟨_, hc⟩ | ⟨c, q, _, ha, hc⟩
  · cases hc
  · unfold turnResult at hc
    split_ifs at hc with hrun
    obtain rfl := Sum.inl.inj hc
    exact ⟨trivial, openCommands_setField ha.fresh hrun⟩

/-- What a completed request was made of. -/
theorem completed {trs : List (List (Event SockRes))} {job : Job}
    (h : ReceiveJobRequest {} trs (.returned (.spawnJobRunner job))) :
    (requests trs).length = trs.length ∧ Sound (requests trs) job ∧
      (validateJob job).toBool ∧ ∃ q ∈ requests trs, q.hdr = ⟨JobCommand.run.bit, 0⟩ := by
  obtain ⟨hl, rs, q, last, he, hr, ha, rfl⟩ := replay_of_runs .init h
  rw [List.nil_append] at he
  have hs := (hr.snoc ha).sound
  rw [← he] at hs
  refine ⟨hl, hs, (ha.run rfl).2, q, by simp [he], ?_⟩
  have hn := ha.named
  have hz := (ha.run rfl).1
  obtain ⟨⟨type, len⟩, payload⟩ := q
  simp only at hn hz
  rw [hn, hz]

theorem named_mem {qs : List Request} {c : JobCommand} {q : Request}
    (h : named qs c = some q) : q ∈ qs := List.mem_of_find?_eq_some h

theorem named_type {qs : List Request} {c : JobCommand} {q : Request}
    (h : named qs c = some q) : q.hdr.type = c.bit := by simpa using List.find?_some h

theorem complete_of_mem {qs : List Request} {job : Job} (hs : Sound qs job) {c : JobCommand}
    {q : Request} (hq : q ∈ qs) (htype : q.hdr.type = c.bit) : q.Complete c := by
  obtain ⟨d, hd, hcomplete⟩ := hs.commands q hq
  obtain rfl := JobCommand.bit_injective (hd.symm.trans htype)
  exact hcomplete

theorem named_of_mem {qs : List Request} {job : Job} (hs : Sound qs job) {c : JobCommand}
    {q : Request} (hq : q ∈ qs) (htype : q.hdr.type = c.bit) : named qs c = some q := by
  cases hn : named qs c with
  | none => exact absurd htype (named_eq_none.mp hn q hq)
  | some q' =>
      have heq := List.inj_on_of_nodup_map hs.nodup (named_mem hn) hq
        ((named_type hn).trans htype.symm)
      rw [heq]

private theorem exists_of_mask {qs : List Request} {job : Job} (hs : Sound qs job)
    {c : JobCommand} (h : job.mask &&& c.bit ≠ 0) :
    ∃ q ∈ qs, named qs c = some q ∧ q.hdr.type = c.bit ∧ q.Complete c := by
  have hne : named qs c ≠ none := by
    rw [Ne, named_eq_none, ← hs.mask]
    exact h
  obtain ⟨q, hq⟩ := Option.ne_none_iff_exists'.mp hne
  exact ⟨q, named_mem hq, hq, named_type hq,
    complete_of_mem hs (named_mem hq) (named_type hq)⟩

private theorem validateArguments_ok {type : UInt32} {argv : Option (List CString)}
    (h : (validateArguments type argv).toBool) : validateArguments type argv = .ok () := by
  cases hv : validateArguments type argv with
  | error e => simp [hv, Except.toBool] at h
  | ok u => rfl

/-- A chrootuid job that is run has arguments and a chroot descriptor. -/
private theorem chrootuid_complete {qs : List Request} {job : Job} (hs : Sound qs job)
    (hv : (validateJob job).toBool) {t : JobType} (ht : job.type = t.code)
    (hroot : t.isChrootuid) :
    (∃ argv, job.argv = some argv ∧ argv ≠ []) ∧
      ∃ q ∈ qs, q.hdr.type = JobCommand.chrootFd.bit ∧
        ∃ fds, q.rights 1 = some fds ∧ job.chrootFd = fds 0 := by
  have hmask : job.mask &&& JobCommand.chrootFd.bit ≠ 0 ∧
      job.mask &&& JobCommand.arguments.bit ≠ 0 := by
    unfold validateJob at hv
    rw [ht, JobType.ofWord_code] at hv
    cases t <;> simp only [JobType.isChrootuid, Bool.false_eq_true] at hroot
    all_goals
      change Except.toBool (ite _ _ (ite _ _ _)) = true at hv
      split_ifs at hv with h₁ h₂
      · cases hv
      · cases hv
      · exact ⟨h₁, h₂⟩
  obtain ⟨q, hq, hnamed, htype, hfds⟩ := exists_of_mask hs hmask.1
  obtain ⟨q', _, hnamed', _, hav⟩ := exists_of_mask hs hmask.2
  obtain ⟨fds, hfds⟩ := Option.isSome_iff_exists.mp hfds
  obtain ⟨av, hav⟩ := Option.isSome_iff_exists.mp hav
  have hargv : job.argv = some av := by
    rw [hs.record]
    simp [record, hnamed', hav]
  refine ⟨⟨av, hargv, ?_⟩, q, hq, htype, fds, hfds, ?_⟩
  · rintro rfl
    have hargs := hs.arguments [] hargv
    rw [ht] at hargs
    cases t <;> simp only [JobType.isChrootuid, Bool.false_eq_true] at hroot <;>
      exact absurd hargs (by decide)
  · rw [hs.record]
    simp [record, hnamed, hfds]

/-- Safety of the job request state machine: what a client can make of a job, whatever it
sends and in whatever order. -/
theorem receive_job_request_safe {trs : List (List (Event SockRes))} {out : Outcome JobEnd}
    (h : ReceiveJobRequest {} trs out) :
    trs.length ≤ 7 ∧ ∀ job, out = .returned (.spawnJobRunner job) →
      ((requests trs).length = trs.length ∧ ((requests trs).map (·.hdr.type)).Nodup ∧
        ∀ q ∈ requests trs, ∃ c : JobCommand, q.hdr.type = c.bit) ∧
      job = record (requests trs) ∧
      (∀ argv, job.argv = some argv → validateArguments job.type (some argv) = .ok ()) ∧
      (job.type = JobType.chrootuid1.code ∨ job.type = JobType.chrootuid2.code →
        (∃ argv, job.argv = some argv ∧ argv ≠ []) ∧
          ∃ q ∈ requests trs, q.hdr.type = JobCommand.chrootFd.bit ∧
            ∃ fds, q.rights 1 = some fds ∧ job.chrootFd = fds 0) ∧
      ∀ trs' job', ReceiveJobRequest {} trs' (.returned (.spawnJobRunner job')) →
        ((requests trs).Perm (requests trs') → job = job') ∧
          ∀ (φ : Type) (table table' : ℕ → φ),
            ((requests trs).map (Request.view table)).Perm
              ((requests trs').map (Request.view table')) →
            jobView table job = jobView table' job' := by
  refine ⟨turns_le h, ?_⟩
  rintro job rfl
  obtain ⟨hl, hs, hv, -⟩ := completed h
  refine ⟨⟨hl, hs.nodup, fun q hq => ?_⟩, hs.record, ?_, ?_, ?_⟩
  · obtain ⟨c, hc, -⟩ := hs.commands q hq
    exact ⟨c, hc⟩
  · exact fun argv hargv => validateArguments_ok (hs.arguments argv hargv)
  · rintro (ht | ht)
    · exact chrootuid_complete hs hv ht rfl
    · exact chrootuid_complete hs hv ht rfl
  · intro trs' job' h'
    obtain ⟨-, hs', -⟩ := completed h'
    refine ⟨fun hp => ?_, fun φ table table' hp => ?_⟩
    · rw [hs.record, hs'.record]
      exact record_perm hp hs.nodup
    · rw [hs.record, hs'.record]
      exact jobView_perm hp hs.nodup

/-! A concrete client. -/

/-- The server receives a header. -/
def headerEvent (c : JobCommand) (len : UInt32) : Event SockRes :=
  ⟨.recvmsg 8 0 true, some ⟨(CmdHeader.mk c.bit len).encode, []⟩⟩

/-- The server acknowledges a command. -/
def doneEvent : Event SockRes := ⟨.sendmsg (SrvCmdResp.encode ⟨cmdStatusDone, 0⟩) [], .ok 8⟩

/-- The server receives descriptors. -/
def rightsEvent (fds : List ℕ) : Event SockRes :=
  ⟨.recvmsg 1 (cmsgSpace (4 * fds.length)) false, some ⟨[0], [⟨solSocket, scmRights, fds⟩]⟩⟩

/-- A chrootuid1 job that runs `id`, without an environment and a personality. -/
def sampleRequest : List (List (Event SockRes)) :=
  [[headerEvent .type 4, doneEvent],
    [headerEvent .fds 12, rightsEvent [5, 6, 7], doneEvent],
    [headerEvent .arguments 3, ⟨.malloc 4, true⟩,
      ⟨.recvmsg 3 0 true, some ⟨[105, 100, 0], []⟩⟩, ⟨.calloc 2 8, true⟩, doneEvent],
    [headerEvent .chrootFd 4, rightsEvent [8], doneEvent],
    [headerEvent .run 0]]

def sampleJob : Job where
  type := 4
  mask := 174
  chrootFd := 8
  stdFds i := ([5, 6, 7].get i : ℕ)
  argv := some [⟨[105, 100], by decide⟩]

theorem receive_job_request_safe_sample :
    sampleRequest.length ≤ 7 ∧ sampleJob = record (requests sampleRequest) := by
  have hrun : ReceiveJobRequest {} sampleRequest (.returned (.spawnJobRunner sampleJob)) :=
    loopRuns_of_replayLoop rfl
  have hsafe := receive_job_request_safe hrun
  exact ⟨hsafe.1, (hsafe.2 sampleJob rfl).2.1⟩

end HasherPriv.JobService.Admission
