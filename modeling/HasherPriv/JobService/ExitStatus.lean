/- GID: HasherPriv/JobService/ExitStatus
   layer: job
   source: parent.c, caller_runner.c, caller_job.c, hasher-priv.c
   digest: The client exits with 0 only after the program has, and with the program's status
     where the executor has returned it. -/

import HasherPriv.JobService.Completion

set_option autoImplicit false
set_option relaxedAutoImplicit false

namespace HasherPriv.JobService.ExitStatus

open Foundations.WaitStatus
open Protocol.Communication
open JobService.Completion

/-! Each encoding of a status, decoded by the next process. -/

theorem sigchldHandler_status (e : Ending) : sigchldHandler 0 e.status = e.code := by
  cases e with
  | exited code =>
      simp only [sigchldHandler, wifexited_exited, wexitstatus_exited, if_true, Ending.code]
      split_ifs with hne
      · rfl
      · omega
  | signaled signo core => simp [sigchldHandler, Ending.code]

theorem waitJob_status (e : Ending) : waitJob (some e.status) = e.code := by
  cases e with
  | exited code => simp [waitJob, Ending.code]
  | signaled signo core => simp [waitJob, Ending.code]

theorem waitJob_lt (status : Option ℕ) : waitJob status < 256 := by
  cases status with
  | none => decide
  | some v =>
      have hexit := wexitstatus_lt v
      have hterm := wtermsig_lt v
      simp only [waitJob]
      split_ifs <;> omega

private theorem exitStatus_ofNat {n : ℕ} (h : n < 256) : exitStatus (Int32.ofNat n) = n := by
  have hword : (Int32.ofNat n).toUInt32.toNat = n := by
    rw [Int32.toUInt32_ofNat', UInt32.toNat_ofNat_of_lt' (by simp [UInt32.size]; omega)]
  simp only [exitStatus, hword]
  omega

private theorem ofNat_ne_failed {n : ℕ} (h : n < 256) : Int32.ofNat n ≠ cmdStatusFailed := by
  intro heq
  have hint := congrArg Int32.toInt heq
  rw [Int32.toInt_ofNat_of_lt (by omega), show cmdStatusFailed.toInt = -1 from rfl] at hint
  omega

theorem completed_ne_failed (status : Option ℕ) :
    (Response.completed status).rc ≠ cmdStatusFailed :=
  ofNat_ne_failed (waitJob_lt status)

theorem exitStatus_completed (status : Option ℕ) :
    exitStatus (Response.completed status).rc = waitJob status :=
  exitStatus_ofNat (waitJob_lt status)

private theorem recvResponse_some {r : Response} {rc : Int32} (ok : recvResponse r.rc = some rc) :
    r.rc ≠ cmdStatusFailed := by
  intro hfailed
  simp [recvResponse, hfailed] at ok

/-! The executor and its child. -/

/-- A child that has not executed the program does not end as a success. -/
def ChildSound (c : Child) : Prop := ∀ e, c = .ended e false → e.code ≠ 0

/-- The child has ended with `rc` as its end. -/
def EndedWith (c : Child) (rc : ℕ) : Prop := ∃ e executed, c = .ended e executed ∧ rc = e.code

/-- What `child_rc`, or the value that `handle_parent` has returned, says about the child. -/
def ExecutorSound (c : Child) : Executor → Prop
  | .parent _ true childRc | .handling _ childRc => childRc = 0
  | .parent _ false childRc | .ended (.returned childRc) true => EndedWith c childRc
  | .ended (.returned childRc) false => childRc = 128 + sigterm
  | .absent | .starting | .ended .limitExceeded _ | .ended .died _ | .ended (.killed _ _) _ => True

private theorem ChildSound.step {c c' : Child} (h : ChildStep c c') : ChildSound c' := by
  intro e he
  cases h with
  | execve => cases he
  | fails => cases he; decide
  | killedEarly signo core => cases he; simp [Ending.code]
  | exits code => cases he
  | killed signo core => cases he

private theorem ExecutorSound.child_step {e : Executor} {c c' : Child} (h : ChildStep c c')
    (hs : ExecutorSound c e) : ExecutorSound c' e := by
  -- a child that has ended takes no step
  have running : ∀ rc, ¬ EndedWith c rc := by
    rintro rc ⟨e, executed, rfl, -⟩
    cases h
  rcases e with _ | _ | ⟨place, _ | _, rc⟩ | ⟨place, rc⟩ | ⟨_ | _ | _ | _, _ | _⟩ <;>
    first
      | exact hs
      | exact absurd hs (running _)

private theorem ExecutorSound.step {e e' : Executor} {c c' : Child} (h : ExecutorStep e c e' c')
    (hc : ChildSound c) (hs : ExecutorSound c e) : ChildSound c' ∧ ExecutorSound c' e' := by
  cases h with
  | fork =>
      have hstarting : ChildSound .starting := fun e he => nomatch he
      exact ⟨hstarting, rfl⟩
  | sigchld unblocked childRc => exact ⟨hc, hs⟩
  | reap place childRc e executed =>
      have hzero : childRc = 0 := hs
      subst hzero
      exact ⟨hc, e, executed, rfl, sigchldHandler_status e⟩
  | leaveLoop childPid childRc => exact ⟨hc, by cases childPid <;> exact hs⟩
  | stopWaiting childPid childRc => exact ⟨hc, by cases childPid <;> exact hs⟩
  | handleParentReturns childPid childRc =>
      refine ⟨hc, ?_⟩
      cases childPid with
      | true => rfl
      | false => exact hs
  | limitExceeded childPid childRc => exact ⟨hc, trivial⟩
  | dies live => exact ⟨hc, trivial⟩
  | killed live signo core => exact ⟨hc, trivial⟩

/-! The status that the runner reports. -/

/-- `status` is what the runner has got from `wait_job` and has not yet sent, what is under
way, or what the client has ended with. -/
def Reports (s : State) (status : Option ℕ) : Prop :=
  s.runner = .responding status ∨ .completed status ∈ s.responses ∨
    s.client = .ended (.returned (.completed status))

/-- A reported status is that of the executor, which has ended; nothing is reported before
there is an executor. -/
structure Reported (s : State) : Prop where
  serving : s.serving = true → s.runner = .absent
  early : s.runner = .absent ∨ s.runner = .starting →
    s.executor = .absent ∧ ∀ status, ¬ Reports s status
  truthful : ∀ status, Reports s (some status) →
    ∃ why reaped, s.executor = .ended why reaped ∧ status = why.ending.status

/-! The order of commands and responses. -/

/-- The responses that the client goes on after. -/
def favourable (rs : List Response) : ℕ := rs.countP fun r => r.rc ≠ cmdStatusFailed

/-- Those under way, with those that a command or the runner may still cause. -/
def owed (s : State) : ℕ :=
  s.requests.length + favourable s.responses + s.runner.isLive.toNat

/-- The client waits for the response to command `i`, or for nothing any more. -/
def Awaits (c : Client) (i : ℕ) : Prop := c = .waiting i ∨ c.isLive = false

/-- The client and the server are at the same command. -/
structure InStep (run : ℕ) (s : State) : Prop where
  sending : ∀ i, s.client = .sending i → owed s = 0
  waiting : ∀ i, s.client = .waiting i → owed s ≤ 1
  requests : ∀ i ∈ s.requests, Awaits s.client i
  accepted : ∀ i, .accepted i ∈ s.responses → i ≠ run ∧ Awaits s.client i
  returned : ∀ r, s.client = .ended (.returned r) → ∃ status, r = .completed status

/-! What one step of each process can do to a report. -/

private theorem client_responses {run : ℕ} {c c' : Client} {rs rs' : List Response}
    {sent : List ℕ} (h : ClientStep run c rs c' sent rs') : rs' ⊆ rs := by
  cases h with
  | send i => exact List.Subset.refl _
  | proceed ok more => exact List.subset_cons_self _ _
  | finish ok => exact List.subset_cons_self _ _
  | dies live => exact List.Subset.refl _
  | killed live signo => exact List.Subset.refl _

private theorem client_returned {run : ℕ} {c : Client} {r : Response} {rs rs' : List Response}
    {sent : List ℕ} (h : ClientStep run c rs (.ended (.returned r)) sent rs') :
    c = .waiting run ∧ rs = r :: rs' ∧ r.rc ≠ cmdStatusFailed := by
  cases h with
  | finish ok => exact ⟨rfl, rfl, recvResponse_some ok⟩

private theorem handler_sent {run : ℕ} {requests requests' : List ℕ} {sent : List Response}
    {serving spawned : Bool} (h : HandlerStep run requests requests' sent serving spawned)
    (status : Option ℕ) : .completed status ∉ sent := by
  intro hmem
  cases h with
  | accept other rest sent => cases sent <;> simp at hmem
  | refuse requests consumed sent => cases sent <;> simp at hmem
  | spawnJobRunner rest => cases hmem
  | ends requests => cases hmem

private theorem handler_spawned {run : ℕ} {requests requests' : List ℕ} {sent : List Response}
    {spawned : Bool} (h : HandlerStep run requests requests' sent true spawned) :
    spawned = false := by
  cases h with
  | accept other rest sent => rfl

/-- The runner reports what it has got from `wait_job`. -/
private theorem runner_reports {e : Executor} {c : Client} {r r' : Runner} {sent : List Response}
    {spawned : Bool} {status : ℕ} (h : RunnerStep e c r r' sent spawned)
    (hreports : r' = .responding (some status) ∨ .completed (some status) ∈ sent) :
    r = .responding (some status) ∨
      ∃ why reaped, e = .ended why reaped ∧ status = why.ending.status := by
  cases h with
  | waitJob why reaped =>
      rcases hreports with hresponding | hmem
      · cases hresponding
        exact .inr ⟨why, reaped, rfl, rfl⟩
      · cases hmem
  | respond _ _ st sent =>
      rcases hreports with hresponding | hmem
      · cases hresponding
      · cases sent with
        | true =>
            have heq : Response.completed (some status) = .completed st :=
              List.mem_singleton.mp hmem
            cases heq
            exact .inl rfl
        | false => cases hmem
  | respondTerminated _ _ sent =>
      rcases hreports with hresponding | hmem
      · cases hresponding
      · cases sent <;> simp at hmem
  | spawnJobExecutor | sigchld | waitJobFails | disconnected | terminate | ends live =>
      rcases hreports with hresponding | hmem
      · cases hresponding
      · cases hmem

private theorem runner_spawned {e : Executor} {c : Client} {r r' : Runner} {sent : List Response}
    (h : RunnerStep e c r r' sent true) : r = .starting := by
  cases h with
  | spawnJobExecutor => rfl

private theorem runner_after {e : Executor} {c : Client} {r r' : Runner} {sent : List Response}
    {spawned : Bool} (h : RunnerStep e c r r' sent spawned) :
    r ≠ .absent ∧ r' ≠ .absent ∧ r' ≠ .starting := by
  cases h with
  | ends live =>
      refine ⟨?_, nofun, nofun⟩
      rintro rfl
      cases live
  | spawnJobExecutor | sigchld | waitJob | waitJobFails | respond | disconnected | terminate
    | respondTerminated => exact ⟨nofun, nofun, nofun⟩

private theorem executor_stays {e e' : Executor} {c c' : Child} (h : ExecutorStep e c e' c') :
    e ≠ .absent ∧ ∀ why reaped, e ≠ .ended why reaped := by
  cases h with
  | dies live => cases e <;> simp [Executor.isLive] at live ⊢
  | killed live signo core => cases e <;> simp [Executor.isLive] at live ⊢
  | fork | sigchld | reap | leaveLoop | stopWaiting | handleParentReturns | limitExceeded =>
      exact ⟨nofun, nofun⟩

theorem Reported.step {run : ℕ} {s t : State} (h : Step run s t) (hr : Reported s) :
    Reported t := by
  cases h with
  | @client c sent rs h =>
      have old : ∀ status, Reports { s with
          client := c, requests := s.requests ++ sent, responses := rs } status →
            Reports s status := by
        rintro status (hrunner | hway | hclient)
        · exact .inl hrunner
        · exact .inr (.inl (client_responses h hway))
        · dsimp only at hclient
          subst hclient
          obtain ⟨-, hhead, -⟩ := client_returned h
          exact .inr (.inl (by simp [hhead]))
      refine ⟨hr.serving, fun hearly => ?_, fun status hreports =>
        hr.truthful status (old _ hreports)⟩
      obtain ⟨hexecutor, hnone⟩ := hr.early hearly
      exact ⟨hexecutor, fun status hreports => hnone status (old _ hreports)⟩
  | @handler requests sent serving spawned h serves =>
      have habsent := hr.serving serves
      obtain ⟨hexecutor, hnone⟩ := hr.early (.inl habsent)
      have nothing : ∀ status, ¬ Reports { s with
          requests := requests
          responses := s.responses ++ sent
          serving := serving
          runner := if spawned then .starting else s.runner } status := by
        rintro status (hresponding | hway | hclient)
        · cases spawned <;> simp [habsent] at hresponding
        · rcases List.mem_append.mp hway with hold | hnew
          · exact hnone status (.inr (.inl hold))
          · exact handler_sent h status hnew
        · exact hnone status (.inr (.inr hclient))
      refine ⟨fun hserving => ?_, fun _ => ⟨hexecutor, nothing⟩, fun status hreports =>
        absurd hreports (nothing _)⟩
      dsimp only at hserving ⊢
      subst hserving
      simp [handler_spawned h, habsent]
  | @runner r sent spawned h =>
      obtain ⟨hbefore, hafter, hstarted⟩ := runner_after h
      refine ⟨fun hserving => absurd (hr.serving hserving) hbefore, fun hearly => ?_, ?_⟩
      · exact absurd hearly (not_or.mpr ⟨hafter, hstarted⟩)
      intro status hreports
      have hcases : Reports s (some status) ∨
          ∃ why reaped, s.executor = .ended why reaped ∧ status = why.ending.status := by
        rcases hreports with hresponding | hway | hclient
        · exact (runner_reports h (.inl hresponding)).imp_left .inl
        · rcases List.mem_append.mp hway with hold | hnew
          · exact .inl (.inr (.inl hold))
          · exact (runner_reports h (.inr hnew)).imp_left .inl
        · exact .inl (.inr (.inr hclient))
      have hended := hcases.elim (hr.truthful status) id
      -- the executor that has ended is not spawned a second time
      have hspawned : spawned = false := by
        by_contra hne
        have htrue : spawned = true := by simpa using hne
        subst htrue
        obtain ⟨why, reaped, hexecutor, -⟩ := hended
        have habsent := (hr.early (.inr (runner_spawned h))).1
        rw [habsent] at hexecutor
        cases hexecutor
      simpa [hspawned] using hended
  | @executor e c h =>
      obtain ⟨habsent, hlive⟩ := executor_stays h
      refine ⟨hr.serving, fun hearly => absurd (hr.early hearly).1 habsent, ?_⟩
      intro status hreports
      obtain ⟨why, reaped, hexecutor, -⟩ := hr.truthful status hreports
      exact absurd hexecutor (hlive why reaped)
  | child h => exact ⟨hr.serving, hr.early, hr.truthful⟩

/-! What one step of each process can do to the balance. -/

private theorem favourable_cons {r : Response} (rs : List Response)
    (hr : r.rc ≠ cmdStatusFailed) : favourable (r :: rs) = favourable rs + 1 := by
  simp [favourable, hr]

private theorem favourable_append (rs rs' : List Response) :
    favourable (rs ++ rs') = favourable rs + favourable rs' := List.countP_append

private theorem accepted_favourable {i : ℕ} {rs : List Response} (h : .accepted i ∈ rs) :
    0 < favourable rs := by
  have hdone : (Response.accepted i).rc ≠ cmdStatusFailed := show cmdStatusDone ≠ _ by decide
  exact List.countP_pos_iff.mpr ⟨.accepted i, h, by simpa using hdone⟩

private theorem favourable_sent (sent : Bool) (r : Response) :
    favourable (if sent then [r] else []) ≤ 1 := by
  refine List.countP_le_length.trans ?_
  cases sent <;> simp

private theorem favourable_failed (sent : Bool) {r : Response} (h : r.rc = cmdStatusFailed) :
    favourable (if sent then [r] else []) = 0 := by
  cases sent <;> simp [favourable, h]

private theorem handler_owed {run : ℕ} {requests requests' : List ℕ} {sent : List Response}
    {serving spawned : Bool} (h : HandlerStep run requests requests' sent serving spawned) :
    requests'.length + favourable sent + spawned.toNat ≤ requests.length := by
  cases h with
  | @accept i other rest sent =>
      have hone := favourable_sent sent (.accepted i)
      simp only [List.length_cons, Bool.toNat_false]
      omega
  | refuse requests consumed sent =>
      have hzero := favourable_failed sent (r := .refused) rfl
      have hle : (if consumed then requests.tail else requests).length ≤ requests.length := by
        cases consumed <;> simp
      simp only [hzero, Bool.toNat_false]
      omega
  | spawnJobRunner rest => simp [favourable]
  | ends requests => simp [favourable]

private theorem handler_requests {run : ℕ} {requests requests' : List ℕ} {sent : List Response}
    {serving spawned : Bool} (h : HandlerStep run requests requests' sent serving spawned) :
    requests' ⊆ requests := by
  cases h with
  | accept other rest sent => exact List.subset_cons_self _ _
  | refuse requests consumed sent =>
      cases consumed with
      | true => exact List.tail_subset requests
      | false => exact List.Subset.refl _
  | spawnJobRunner rest => exact List.subset_cons_self _ _
  | ends requests => exact List.Subset.refl _

private theorem handler_accepted {run i : ℕ} {requests requests' : List ℕ} {sent : List Response}
    {serving spawned : Bool} (h : HandlerStep run requests requests' sent serving spawned)
    (hmem : .accepted i ∈ sent) : i ≠ run ∧ i ∈ requests := by
  cases h with
  | accept other rest sent =>
      cases sent with
      | true =>
          have heq := List.mem_singleton.mp hmem
          cases heq
          exact ⟨other, List.mem_cons_self⟩
      | false => cases hmem
  | refuse requests consumed sent => cases sent <;> simp at hmem
  | spawnJobRunner rest => cases hmem
  | ends requests => cases hmem

private theorem runner_owed {e : Executor} {c : Client} {r r' : Runner} {sent : List Response}
    {spawned : Bool} (h : RunnerStep e c r r' sent spawned) :
    favourable sent + r'.isLive.toNat ≤ r.isLive.toNat := by
  cases h with
  | respond _ _ status sent =>
      simpa [Runner.isLive] using favourable_sent sent (.completed status)
  | respondTerminated _ _ sent =>
      simp [favourable_failed sent (r := .terminated) rfl, Runner.isLive]
  | spawnJobExecutor | sigchld | waitJob | waitJobFails | disconnected | terminate | ends =>
      simp [favourable, Runner.isLive]

private theorem runner_accepted {i : ℕ} {e : Executor} {c : Client} {r r' : Runner}
    {sent : List Response} {spawned : Bool} (h : RunnerStep e c r r' sent spawned) :
    .accepted i ∉ sent := by
  intro hmem
  cases h with
  | respond _ _ status sent => cases sent <;> simp at hmem
  | respondTerminated _ _ sent => cases sent <;> simp at hmem
  | spawnJobExecutor | sigchld | waitJob | waitJobFails | disconnected | terminate | ends =>
      cases hmem

/-- A step that leaves the client alone and raises no debt. -/
private theorem InStep.of_le {run : ℕ} {s t : State} (hi : InStep run s)
    (hclient : t.client = s.client) (howed : owed t ≤ owed s)
    (hrequests : t.requests ⊆ s.requests)
    (haccepted : ∀ i, .accepted i ∈ t.responses →
      .accepted i ∈ s.responses ∨ (i ≠ run ∧ i ∈ s.requests)) : InStep run t := by
  refine ⟨?_, ?_, ?_, ?_, ?_⟩
  · intro i hsending
    have hnone := hi.sending i (hclient ▸ hsending)
    omega
  · intro i hwaiting
    have hone := hi.waiting i (hclient ▸ hwaiting)
    omega
  · intro i hmem
    rw [hclient]
    exact hi.requests i (hrequests hmem)
  · intro i hmem
    rw [hclient]
    rcases haccepted i hmem with hold | ⟨hother, hrequest⟩
    · exact hi.accepted i hold
    · exact ⟨hother, hi.requests i hrequest⟩
  · intro r hreturned
    exact hi.returned r (hclient ▸ hreturned)

private theorem InStep.client_step {run : ℕ} {s t : State} {c : Client} {sent : List ℕ}
    {rs : List Response} (h : ClientStep run s.client s.responses c sent rs)
    (hi : InStep run s) (hclient : t.client = c) (hrequests : t.requests = s.requests ++ sent)
    (hresponses : t.responses = rs) (hrunner : t.runner = s.runner) : InStep run t := by
  obtain ⟨client, requests, responses, serving, runner, executor, child⟩ := s
  obtain ⟨client', requests', responses', serving', runner', executor', child'⟩ := t
  dsimp only at h hclient hrequests hresponses hrunner
  subst hclient hrequests hresponses hrunner
  cases h with
  | send i =>
      have hnone : owed _ = 0 := hi.sending i rfl
      simp only [owed] at hnone
      have hnil : requests = [] := List.length_eq_zero_iff.mp (by omega)
      subst hnil
      refine ⟨nofun, fun j _ => ?_, fun j hj => ?_, fun j hj => ?_, nofun⟩
      · simp only [owed, List.nil_append, List.length_singleton]
        omega
      · exact .inl (by rw [List.mem_singleton.mp hj])
      · have hpos : 0 < favourable responses := accepted_favourable hj
        omega
  | @proceed i r rs rc ok more =>
      have hone : owed _ ≤ 1 := hi.waiting i rfl
      have hr := favourable_cons responses' (recvResponse_some ok)
      simp only [owed, hr] at hone
      have hnil : requests = [] := List.length_eq_zero_iff.mp (by omega)
      subst hnil
      refine ⟨fun j _ => ?_, nofun, nofun, fun j hj => ?_, nofun⟩
      · simp only [owed, List.nil_append, List.length_nil]
        omega
      · have hpos : 0 < favourable responses' := accepted_favourable hj
        omega
  | @finish r rs rc ok =>
      refine ⟨nofun, nofun, fun j _ => .inr rfl, fun j hj => ?_, ?_⟩
      · exact ⟨(hi.accepted j (List.mem_cons_of_mem _ hj)).1, .inr rfl⟩
      · rintro r' hr'
        obtain rfl : r = r' := by simpa using hr'
        cases r with
        | accepted j =>
            obtain ⟨hother, hawaits⟩ := hi.accepted j List.mem_cons_self
            rcases hawaits with hwaiting | hended
            · cases hwaiting
              exact absurd rfl hother
            · cases hended
        | refused => exact absurd rfl (recvResponse_some ok)
        | completed status => exact ⟨status, rfl⟩
        | terminated => exact absurd rfl (recvResponse_some ok)
  | dies live =>
      exact ⟨nofun, nofun, fun j _ => .inr rfl,
        fun j hj => ⟨(hi.accepted j hj).1, .inr rfl⟩, nofun⟩
  | killed live signo =>
      exact ⟨nofun, nofun, fun j _ => .inr rfl,
        fun j hj => ⟨(hi.accepted j hj).1, .inr rfl⟩, nofun⟩

theorem InStep.step {run : ℕ} {s t : State} (h : Step run s t) (hi : InStep run s) :
    InStep run t := by
  cases h with
  | client h => exact hi.client_step h rfl rfl rfl rfl
  | @handler requests sent serving spawned h serves =>
      have howed := handler_owed h
      refine hi.of_le rfl ?_ (handler_requests h) fun i hmem => ?_
      · have hlive : (if spawned then Runner.starting else s.runner).isLive.toNat ≤
            spawned.toNat + s.runner.isLive.toNat := by
          cases spawned <;> simp [Runner.isLive]
        simp only [owed, favourable_append]
        omega
      · exact (List.mem_append.mp hmem).imp_right (handler_accepted h)
  | @runner r sent spawned h =>
      have howed := runner_owed h
      refine hi.of_le rfl ?_ (List.Subset.refl _) fun i hmem => ?_
      · simp only [owed, favourable_append]
        omega
      · exact .inl ((List.mem_append.mp hmem).resolve_right (runner_accepted h))
  | executor h => exact ⟨hi.sending, hi.waiting, hi.requests, hi.accepted, hi.returned⟩
  | child h => exact ⟨hi.sending, hi.waiting, hi.requests, hi.accepted, hi.returned⟩

/-! Along every run. -/

/-- What holds in every state that a job can get into. -/
structure Inv (run : ℕ) (s : State) : Prop where
  child : ChildSound s.child
  executor : ExecutorSound s.child s.executor
  reported : Reported s
  inStep : InStep run s

private theorem Inv.initial (run : ℕ) : Inv run {} where
  child := nofun
  executor := trivial
  reported :=
    { serving := fun _ => rfl
      early := fun _ => ⟨rfl, fun status hreports => by simp [Reports] at hreports⟩
      truthful := fun status hreports => by simp [Reports] at hreports }
  inStep :=
    { sending := fun _ _ => rfl
      waiting := nofun
      requests := nofun
      accepted := nofun
      returned := nofun }

private theorem Inv.step {run : ℕ} {s t : State} (h : Step run s t) (hi : Inv run s) :
    Inv run t := by
  refine ⟨?_, ?_, hi.reported.step h, hi.inStep.step h⟩
  · cases h with
    | child h => exact ChildSound.step h
    | executor h => exact (hi.executor.step h hi.child).1
    | client | handler | runner => exact hi.child
  · cases h with
    | child h => exact hi.executor.child_step h
    | executor h => exact (hi.executor.step h hi.child).2
    | runner h => 
      dsimp only
      split
      · trivial
      · exact hi.executor
    | client | handler => exact hi.executor

theorem reaches_inv {run : ℕ} {s : State} (h : Reaches run s) : Inv run s := by
  induction h with
  | refl => exact Inv.initial run
  | tail _ hstep ih => exact ih.step hstep

/-- An executor that ends as a success has got a success from the program. -/
private theorem success_of_code_eq_zero {c : Child} {why : ExecutorEnd} {reaped : Bool}
    (hc : ChildSound c) (hs : ExecutorSound c (.ended why reaped)) (h : why.ending.code = 0) :
    ∃ code, c = .ended (.exited code) true ∧ code % 256 = 0 := by
  obtain ⟨rc, rfl⟩ : ∃ rc, why = .returned rc := by
    cases why with
    | returned rc => exact ⟨rc, rfl⟩
    | limitExceeded => simp [ExecutorEnd.ending, Ending.code, sigterm] at h
    | died => simp [ExecutorEnd.ending, Ending.code] at h
    | killed signo core => simp [ExecutorEnd.ending, Ending.code] at h
  have hrc : rc % 256 = 0 := h
  cases reaped with
  | false =>
      have hforgotten : rc = 128 + sigterm := hs
      simp [hforgotten, sigterm] at hrc
  | true =>
      obtain ⟨e, executed, rfl, rfl⟩ : EndedWith c rc := hs
      rw [Nat.mod_eq_of_lt e.code_lt] at hrc
      obtain ⟨code, rfl, hcode⟩ := Ending.code_eq_zero.mp hrc
      have hexecuted : executed = true := by
        by_contra hne
        obtain rfl : executed = false := by simpa using hne
        exact hc _ rfl hrc
      exact ⟨code, by rw [hexecuted], hcode⟩

theorem exit_status_truthful {run : ℕ} {s : State} (h : Reaches run s) :
    (s.client.exitCode = some 0 →
      ∃ code, s.child = .ended (.exited code) true ∧ code % 256 = 0) ∧
    (∀ status rc, s.client = .ended (.returned (.completed (some status))) →
      s.executor = .ended (.returned rc) true →
        ∃ e executed, s.child = .ended e executed ∧ s.client.exitCode = some e.code) ∧
    (∀ r, s.client = .ended (.returned r) → ∃ status, r = .completed status) ∧
    ∀ status, (Response.completed status).rc ≠ cmdStatusFailed := by
  have hi := reaches_inv h
  refine ⟨fun hzero => ?_, fun status rc hclient hexecutor => ?_, hi.inStep.returned,
    completed_ne_failed⟩
  · obtain ⟨r, hclient, hr⟩ : ∃ r, s.client = .ended (.returned r) ∧ exitStatus r.rc = 0 := by
      generalize s.client = c at hzero ⊢
      rcases c with i | i | (r | _ | signo)
      · cases hzero
      · cases hzero
      · exact ⟨r, rfl, Option.some.inj hzero⟩
      · cases hzero
      · cases hzero
    obtain ⟨st, rfl⟩ := hi.inStep.returned r hclient
    rw [exitStatus_completed] at hr
    cases st with
    | none => cases hr
    | some status =>
        obtain ⟨why, reaped, hexecutor, rfl⟩ :=
          hi.reported.truthful status (.inr (.inr hclient))
        rw [waitJob_status] at hr
        have hsound := hi.executor
        rw [hexecutor] at hsound
        exact success_of_code_eq_zero hi.child hsound hr
  · obtain ⟨why, reaped, hended, rfl⟩ := hi.reported.truthful status (.inr (.inr hclient))
    have hsound := hi.executor
    rw [hexecutor] at hended hsound
    cases hended
    obtain ⟨e, executed, hchild, rfl⟩ : EndedWith s.child rc := hsound
    refine ⟨e, executed, hchild, ?_⟩
    rw [hclient]
    have hcode : (ExecutorEnd.returned e.code).ending.code = e.code := Nat.mod_eq_of_lt e.code_lt
    simp only [Client.exitCode, exitStatus_completed, waitJob_status, hcode]

/-! Runs of a job. -/

/-- Every command before `CMD_JOB_RUN` may be accepted. -/
private theorem reaches_sending {run i : ℕ} (h : i ≤ run) :
    Reaches run { client := .sending i } := by
  induction i with
  | zero => exact .refl
  | succ i ih =>
      have hne : i ≠ run := by omega
      have hsent : Reaches run { client := .waiting i, requests := [i] } :=
        (ih (by omega)).tail (.client (.send i []))
      have haccepted : Reaches run { client := .waiting i, responses := [.accepted i] } :=
        hsent.tail (Step.handler (s := { client := .waiting i, requests := [i] })
          (.accept hne [] true) rfl)
      exact haccepted.tail (Step.client (s := { client := .waiting i, responses := [.accepted i] })
        (@ClientStep.proceed _ _ (.accepted i) _ cmdStatusDone rfl (by omega)))

/-- The runner and the executor are there and the program is running. -/
private theorem reaches_running (run : ℕ) :
    Reaches run
      { client := .waiting run, serving := false, runner := .polling
        executor := .parent .looping true 0, child := .running } := by
  have hsent : Reaches run { client := .waiting run, requests := [run] } :=
    (reaches_sending le_rfl).tail (.client (.send run []))
  have hspawned : Reaches run
      { client := .waiting run, serving := false, runner := .starting } :=
    hsent.tail (Step.handler (s := { client := .waiting run, requests := [run] })
      (.spawnJobRunner []) rfl)
  have hexecutor := hspawned.tail (.runner (.spawnJobExecutor _ _))
  have hforked := hexecutor.tail (.executor (.fork _))
  exact hforked.tail (.child .execve)

/-- The program has ended, in a way that the executor has learnt in its handler. -/
private theorem reaches_reaped (run code : ℕ) :
    Reaches run
      { client := .waiting run, serving := false, runner := .polling
        executor := .parent .looping false (code % 256), child := .ended (.exited code) true } := by
  have hloop : Place.looping ≠ .handlerOff := by decide
  have hended := (reaches_running run).tail (.child (.exits code))
  have hdelivered := hended.tail (.executor (.sigchld hloop _ _))
  have hreaped := hdelivered.tail (.executor (.reap _ _ _ _))
  have hrc : sigchldHandler 0 (Ending.exited code).status = code % 256 := sigchldHandler_status _
  simpa only [hrc] using hreaped

/-- The runner and the client pass on what the executor has ended with. -/
private theorem reaches_answered {run : ℕ} {why : ExecutorEnd} {reaped : Bool} {c : Child}
    (h : Reaches run
      { client := .waiting run, serving := false, runner := .polling
        executor := .ended why reaped, child := c }) :
    Reaches run
      { client := .ended (.returned (.completed (some why.ending.status))), serving := false
        runner := .ended, executor := .ended why reaped, child := c } := by
  have hsignalled := h.tail (.runner (.sigchld _ _))
  have hwaited := hsignalled.tail (.runner (.waitJob _ _ _))
  have hanswered := hwaited.tail (.runner (.respond _ _ _ true))
  have hok : recvResponse (Response.completed (some why.ending.status)).rc =
      some (Response.completed (some why.ending.status)).rc :=
    if_neg (completed_ne_failed _)
  exact hanswered.tail (.client (.finish hok))

/-- The client has ended with the status of the executor, which has ended so after its handler
had reaped the program, which had exited with `code`. -/
def answered (why : ExecutorEnd) (code : ℕ) : State where
  client := .ended (.returned (.completed (some why.ending.status)))
  serving := false
  runner := .ended
  executor := .ended why true
  child := .ended (.exited code) true

private theorem reaches_returned (run code : ℕ) :
    Reaches run (answered (.returned (code % 256)) code) := by
  have hleft := (reaches_reaped run code).tail (.executor (.leaveLoop _ _ _))
  have hwaited := hleft.tail (.executor (.stopWaiting _ _ _))
  exact reaches_answered (hwaited.tail (.executor (.handleParentReturns _ _ _)))

private theorem reaches_died (run code : ℕ) : Reaches run (answered .died code) :=
  reaches_answered ((reaches_reaped run code).tail (.executor (.dies rfl _)))

theorem exit_status_truthful_sample :
    (Reaches 6 (answered (.returned 0) 0) ∧
      (answered (.returned 0) 0).client.exitCode = some 0 ∧
      ∃ code, (answered (.returned 0) 0).child = .ended (.exited code) true ∧ code % 256 = 0) ∧
    Reaches 6 (answered (.returned 7) 7) ∧
      ∃ e executed, (answered (.returned 7) 7).child = .ended e executed ∧
        (answered (.returned 7) 7).client.exitCode = some e.code := by
  have hzero := reaches_returned 6 0
  have hseven := reaches_returned 6 7
  have hcode : (answered (.returned 0) 0).client.exitCode = some 0 := by decide
  exact ⟨⟨hzero, hcode, (exit_status_truthful hzero).1 hcode⟩, hseven,
    (exit_status_truthful hseven).2.1 _ 7 rfl rfl⟩

/-- An executor that dies on a failed write after its handler has reaped the program. -/
theorem died_after_reaping :
    ¬ ∀ run s, Reaches run s → ∀ status why e,
      s.client = .ended (.returned (.completed (some status))) →
      s.executor = .ended why true → why ≠ .limitExceeded → s.child = .ended e true →
        s.client.exitCode = some e.code := by
  intro hclaim
  have hcode := hclaim 6 _ (reaches_died 6 7) _ _ _ rfl rfl nofun rfl
  exact absurd hcode (by decide)

end HasherPriv.JobService.ExitStatus
