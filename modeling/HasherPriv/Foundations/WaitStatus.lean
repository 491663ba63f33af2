/- GID: HasherPriv/Foundations/WaitStatus
   layer: library
   source: none
   digest: The ends of processes, the wait statuses that report them and their decoding. -/

import Mathlib.Data.Nat.Basic
import Mathlib.Tactic.Common

set_option autoImplicit false
set_option relaxedAutoImplicit false

namespace HasherPriv.Foundations.WaitStatus

structure Signal where
  number : ℕ
  pos : 0 < number
  le : number ≤ 64
  deriving DecidableEq

/-- How a process ends: with the argument of `exit`, or by a signal, with or without a core. -/
inductive Ending
  | exited (code : ℕ)
  | signaled (signo : Signal) (core : Bool)
  deriving DecidableEq

/-- The status that `waitpid` stores. -/
def Ending.status : Ending → ℕ
  | .exited code => code % 256 * 256
  | .signaled signo core => signo.number + if core then 128 else 0

/-- The end in one number, the way shells report it. -/
def Ending.code : Ending → ℕ
  | .exited code => code % 256
  | .signaled signo _ => 128 + signo.number

/-! `<sys/wait.h>`. -/

def wifexited (status : ℕ) : Bool := status % 128 = 0

def wexitstatus (status : ℕ) : ℕ := status / 256 % 256

def wtermsig (status : ℕ) : ℕ := status % 128

/-- The low bits say neither that the process exited nor that it stopped. -/
def wifsignaled (status : ℕ) : Bool := 0 < status % 128 ∧ status % 128 < 127

@[simp] theorem wifexited_exited (code : ℕ) : wifexited (Ending.exited code).status = true := by
  have hlow : code % 256 * 256 % 128 = 0 := by omega
  simp [wifexited, Ending.status, hlow]

@[simp] theorem wexitstatus_exited (code : ℕ) :
    wexitstatus (Ending.exited code).status = code % 256 := by
  simp only [wexitstatus, Ending.status]
  omega

private theorem mod_signaled (signo : Signal) (core : Bool) :
    (Ending.signaled signo core).status % 128 = signo.number := by
  have hle := signo.le
  simp only [Ending.status]
  split_ifs <;> omega

@[simp] theorem wtermsig_signaled (signo : Signal) (core : Bool) :
    wtermsig (Ending.signaled signo core).status = signo.number :=
  mod_signaled signo core

@[simp] theorem wifexited_signaled (signo : Signal) (core : Bool) :
    wifexited (Ending.signaled signo core).status = false := by
  have hpos := signo.pos
  have hne : signo.number ≠ 0 := by omega
  simp [wifexited, mod_signaled, hne]

@[simp] theorem wifsignaled_signaled (signo : Signal) (core : Bool) :
    wifsignaled (Ending.signaled signo core).status = true := by
  have hpos := signo.pos
  have hle := signo.le
  have hlt : signo.number < 127 := by omega
  simp [wifsignaled, mod_signaled, hpos, hlt]

theorem wexitstatus_lt (status : ℕ) : wexitstatus status < 256 := Nat.mod_lt _ (by omega)

theorem wtermsig_lt (status : ℕ) : wtermsig status < 128 := Nat.mod_lt _ (by omega)

theorem Ending.code_lt (e : Ending) : e.code < 256 := by
  cases e with
  | exited code => exact Nat.mod_lt _ (by omega)
  | signaled signo core =>
      have hle := signo.le
      simp only [Ending.code]
      omega

/-- An end reported as 0 is an exit with status 0. -/
theorem Ending.code_eq_zero {e : Ending} : e.code = 0 ↔ ∃ c, e = .exited c ∧ c % 256 = 0 := by
  cases e with
  | exited c => simp [Ending.code]
  | signaled signo core => simp [Ending.code]

end HasherPriv.Foundations.WaitStatus
