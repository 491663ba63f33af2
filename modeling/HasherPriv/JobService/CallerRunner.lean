/- GID: HasherPriv/JobService/CallerRunner
   layer: job service
   source: caller_runner.c, fds.c
   digest: How the executor of a job resets its standard descriptors and picks what to do. -/

import HasherPriv.Foundations.OpenFiles
import HasherPriv.JobService.CallerJob

set_option autoImplicit false
set_option relaxedAutoImplicit false

namespace HasherPriv.JobService.CallerRunner

open Foundations.ByteString (CString)
open Protocol.Communication
open Foundations.OpenFiles (FdTable)
open Foundations.Program (bind_eq_ok)
open CallerJob

variable {φ : Type}

/-- `move_fd`: `dup2` followed by `close`; a negative descriptor stands for none. -/
def moveFd (t : FdTable φ) (oldfd : ℤ) (newfd : ℕ) : Except String (FdTable φ) :=
  if oldfd < 0 ∨ oldfd = newfd then .ok t
  else
    match t oldfd.toNat with
    | none => .error "dup2"
    | some file => .ok ((t.put newfd file).close oldfd.toNat)

/-- The loop of `job_executor` over `std_fds`. -/
def resetStandard (job : Job) (t : FdTable φ) : Except String (FdTable φ) := do
  let t ← moveFd t (job.stdFds 0) 0
  let t ← moveFd t (job.stdFds 1) 1
  moveFd t (job.stdFds 2) 2

/-- What an executor can be asked to do. -/
inductive Execution
  | doGetconf
  | doKilluid
  | doGetugid1
  | doChrootuid1 (argv : Option (List CString)) (persona : UInt32)
  | doGetugid2
  | doChrootuid2 (argv : Option (List CString)) (persona : UInt32)
  deriving DecidableEq

/-- The final switch of `job_executor`. -/
def dispatch (job : Job) : Except String Execution :=
  match JobType.ofWord job.type with
  | some .getconf => .ok .doGetconf
  | some .killuid => .ok .doKilluid
  | some .getugid1 => .ok .doGetugid1
  | some .chrootuid1 => .ok (.doChrootuid1 job.argv job.persona)
  | some .getugid2 => .ok .doGetugid2
  | some .chrootuid2 => .ok (.doChrootuid2 job.argv job.persona)
  | none => .error s!"unknown job {job.type}"

/-- The dispatch succeeds exactly for the executable types. -/
theorem dispatch_ok (job : Job) :
    (∃ e, dispatch job = .ok e) ↔ 1 ≤ job.type.toNat ∧ job.type.toNat ≤ 6 := by
  rw [← JobType.ofWord_isSome]
  unfold dispatch
  cases JobType.ofWord job.type with
  | none => simp
  | some t => cases t <;> simp

/-- Without received descriptors the executor keeps those it inherited from the server. -/
theorem resetStandard_inherited {job : Job} (h : ∀ i, job.stdFds i = -1) (t : FdTable φ) :
    resetStandard job t = .ok t := by
  simp [resetStandard, moveFd, h]
  rfl

theorem moveFd_apply {t t' : FdTable φ} {oldfd newfd : ℕ} (hne : oldfd ≠ newfd)
    (h : moveFd t oldfd newfd = .ok t') :
    t' newfd = t oldfd ∧ ∀ n, n ≠ oldfd → n ≠ newfd → t' n = t n := by
  unfold moveFd at h
  rw [if_neg (by omega)] at h
  simp only [Int.toNat_natCast] at h
  cases ht : t oldfd with
  | none => simp [ht] at h
  | some file =>
      rw [ht] at h
      obtain rfl := Except.ok.inj h
      refine ⟨?_, fun n h₁ h₂ => ?_⟩
      · rw [FdTable.close_of_ne hne.symm, FdTable.put_self]
      · rw [FdTable.close_of_ne h₁, FdTable.put_of_ne h₂]

/-- Received descriptors, being distinct and none of the standard three, become them. -/
theorem resetStandard_received {job : Job} {fds : Fin 3 → ℕ} (h : ∀ i, job.stdFds i = fds i)
    (hinj : Function.Injective fds) (hstd : ∀ i, 2 < fds i) {t t' : FdTable φ}
    (hr : resetStandard job t = .ok t') (i : Fin 3) : t' i = t (fds i) := by
  simp only [resetStandard, h] at hr
  obtain ⟨t₀, h₀, hr⟩ := bind_eq_ok hr
  obtain ⟨t₁, h₁, h₂⟩ := bind_eq_ok hr
  have hs₀ := hstd 0
  have hs₁ := hstd 1
  have hs₂ := hstd 2
  have h01 : fds 0 ≠ fds 1 := hinj.ne (by decide)
  have h02 : fds 0 ≠ fds 2 := hinj.ne (by decide)
  have h12 : fds 1 ≠ fds 2 := hinj.ne (by decide)
  obtain ⟨n₀, k₀⟩ := moveFd_apply (by omega) h₀
  obtain ⟨n₁, k₁⟩ := moveFd_apply (by omega) h₁
  obtain ⟨n₂, k₂⟩ := moveFd_apply (by omega) h₂
  fin_cases i
  · change t' 0 = t (fds 0)
    rw [k₂ 0 (by omega) (by omega), k₁ 0 (by omega) (by omega), n₀]
  · change t' 1 = t (fds 1)
    rw [k₂ 1 (by omega) (by omega), n₁, k₀ _ h01.symm (by omega)]
  · change t' 2 = t (fds 2)
    rw [n₂, k₁ _ h12.symm (by omega), k₀ _ h02.symm (by omega)]

end HasherPriv.JobService.CallerRunner
