/- GID: HasherPriv/JobService/Completeness
   layer: job service
   source: caller_job.c, caller_runner.c
   digest: Which accepted requests describe a job that can be executed. -/

import HasherPriv.JobService.Admission
import HasherPriv.JobService.CallerRunner

set_option autoImplicit false
set_option relaxedAutoImplicit false

namespace HasherPriv.JobService.Completeness

open Foundations.OpenFiles (FdTable)
open Foundations.Program
open Foundations.Socket
open Protocol.Communication
open CallerJob
open Admission
open CallerRunner

/-- The job has something to execute, and the standard descriptors it is executed with are
the ones received from the client. -/
structure Complete (trs : List (List (Event SockRes))) (job : Job) : Prop where
  executable : ∃ e, dispatch job = .ok e
  standard : ∃ q ∈ requests trs, ∃ fds, q.rights 3 = some fds ∧ ∀ i, job.stdFds i = fds i

/-- The requests name an executable type and carry standard descriptors. -/
structure Describes (trs : List (List (Event SockRes))) : Prop where
  type : ∃ q ∈ requests trs, q.hdr.type = JobCommand.type.bit ∧
    1 ≤ q.hdr.len.toNat ∧ q.hdr.len.toNat ≤ 6
  fds : ∃ q ∈ requests trs, q.hdr.type = JobCommand.fds.bit

variable {trs : List (List (Event SockRes))} {job : Job}

/-- `spawn_job_runner` is reached with a complete job exactly by the requests that name an
executable type and carry standard descriptors; `validate_job` asks for neither. -/
theorem spawned_job_complete_iff
    (h : ReceiveJobRequest {} trs (.returned (.spawnJobRunner job))) :
    Complete trs job ↔ Describes trs := by
  obtain ⟨-, hs, -⟩ := completed h
  constructor
  · rintro ⟨hexec, q, hq, fds, hfds, hstd⟩
    refine ⟨?_, ?_⟩
    · rw [dispatch_ok, hs.record] at hexec
      cases hn : named (requests trs) .type with
      | none => simp [record, hn] at hexec
      | some q =>
          refine ⟨q, named_mem hn, named_type hn, ?_⟩
          simpa [record, hn] using hexec
    · cases hn : named (requests trs) .fds with
      | none =>
          have h0 := hstd 0
          rw [hs.record] at h0
          simp only [record, hn, Option.bind_none, Option.elim_none] at h0
          omega
      | some q => exact ⟨q, named_mem hn, named_type hn⟩
  · rintro ⟨⟨q, hq, htype, hlen⟩, r, hr, hfds⟩
    refine ⟨?_, r, hr, ?_⟩
    · rw [dispatch_ok, hs.record]
      simpa [record, named_of_mem hs hq htype] using hlen
    · obtain ⟨fds, hrights⟩ := Option.isSome_iff_exists.mp (complete_of_mem hs hr hfds)
      refine ⟨fds, hrights, fun i => ?_⟩
      rw [hs.record]
      simp [record, named_of_mem hs hr hfds, hrights]

theorem spawned_job_complete_iff_sample : Complete sampleRequest sampleJob := by
  refine (spawned_job_complete_iff (loopRuns_of_replayLoop rfl)).mpr ⟨?_, ?_⟩
  · exact ⟨⟨⟨2, 4⟩, none⟩, by decide, by decide⟩
  · exact ⟨⟨⟨4, 12⟩, some ⟨[0], [⟨1, 1, [5, 6, 7]⟩]⟩⟩, by decide, by decide⟩

/-- A client that sends `CMD_JOB_RUN` and nothing else. -/
def bareRun : List (List (Event SockRes)) := [[headerEvent .run 0]]

/-- The bare command is accepted and reaches the runner with no job type and no descriptors:
the executor keeps the server's standard descriptors and dies on an unknown job. -/
theorem bareRun_incomplete :
    ReceiveJobRequest {} bareRun (.returned (.spawnJobRunner { mask := 128 })) ∧
      ¬ Complete bareRun { mask := 128 } ∧
      dispatch { mask := 128 } = .error "unknown job 0" ∧
      ∀ t : FdTable ℕ, resetStandard { mask := 128 } t = .ok t := by
  refine ⟨loopRuns_of_replayLoop rfl, ?_, rfl, resetStandard_inherited fun _ => rfl⟩
  rintro ⟨⟨e, he⟩, -⟩
  cases he

end HasherPriv.JobService.Completeness
