/- GID: HasherPriv/IoLoop/Log
   layer: input and output loop
   source: io_log.c, parent.c
   digest: The log connections, and the writing that counts. -/

import HasherPriv.IoLoop.Calls

set_option autoImplicit false
set_option relaxedAutoImplicit false

namespace HasherPriv.IoLoop.Log

open Foundations.ByteString (Bytes)
open Foundations.Program
open Calls

/-- `ULONG_MAX + 1`. -/
def ulongSize : ℕ := 2 ^ 64

/-- `xwrite_all`, which counts in `total_bytes_written`. -/
def xwriteAll (fd : ℤ) (buffer : Bytes) (totalBytesWritten : ℕ) : IoProg ℕ :=
  -- the loop does nothing when there is nothing to write
  if buffer = [] then return totalBytesWritten
  else do
    match ← ioCall (.writeAll fd buffer totalBytesWritten) with
    | none => .die "write"
    | some n =>
        if n.val ≠ buffer.length then .die "write"
        else return (totalBytesWritten + buffer.length) % ulongSize

/-! `fd_list`; a negative entry is free. -/

/-- The first free entry, or one more. -/
def insertFd (fd : ℤ) : List ℤ → List ℤ
  | [] => [fd]
  | fd' :: l => if fd' < 0 then fd :: l else fd' :: insertFd fd l

def fdNew (fd : ℕ) (l : List ℤ) : IoProg (List ℤ) := do
  unblockFd fd
  return insertFd fd l

def fdFree (fd : ℤ) (l : List ℤ) : IoProg (List ℤ) :=
  if fd ∈ l then do
    xclose fd
    return l.replace fd (-1)
  else
    let count := l.length
    .die s!"descriptor {fd} not found, count={count}"

def logHandleNew (logFd : ℤ) (fds : FdSet) (l : List ℤ) : IoProg (List ℤ) := do
  if ¬ fdsIsset fds logFd then return l
  else
    match ← ioCall (.accept logFd) with
    | none => return l
    | some fd => fdNew fd l

theorem logHandleNew_handling (logFd : ℤ) (fds : FdSet) (l : List ℤ) :
    (logHandleNew logFd fds l).Uses Handling := by
  unfold logHandleNew
  split_ifs
  · refine (handling_call (.accept logFd) trivial).bind fun fd => ?_
    cases fd with
    | none => trivial
    | some fd => exact (unblockFd_handling fd).bind fun _ => trivial
  · trivial

def fdsAddLog (l : List ℤ) (s : Sets) : Sets := l.foldl (fun s fd => s.addRead fd) s

/-- What `copy_log` writes of what it has read: a string, with the end of its line. -/
def logText (data : Bytes) : Bytes :=
  let text := data.takeWhile (· ≠ 0)
  if text ≠ [] ∧ text.getLast? ≠ some 10 then text ++ [13, 10] else text

/-- `copy_log`, on the list and the number of bytes written. -/
def copyLog (fd : ℤ) (l : List ℤ) (totalBytesWritten : ℕ) : IoProg (List ℤ × ℕ) := do
  match ← ioCall (.read fd (bufsiz - 2)) with
  | none => return (← fdFree fd l, totalBytesWritten)
  | some data =>
      if data.val = [] then return (← fdFree fd l, totalBytesWritten)
      else return (l, ← xwriteAll 2 (logText data.val) totalBytesWritten)

/-- The loop of `log_handle_select`, with this many entries to come from this one on. -/
def logSelectFrom (fds : FdSet) : ℕ → ℕ → List ℤ → ℕ → IoProg (List ℤ × ℕ)
  | 0, _, l, total => return (l, total)
  | count + 1, i, l, total =>
      let fd := l.getD i (-1)
      if fdsIsset fds fd then do
        let (l, total) ← copyLog fd l total
        logSelectFrom fds count (i + 1) l total
      else logSelectFrom fds count (i + 1) l total

def logHandleSelect (fds : FdSet) (l : List ℤ) (totalBytesWritten : ℕ) : IoProg (List ℤ × ℕ) :=
  logSelectFrom fds l.length 0 l totalBytesWritten

/-! The calls of all these. -/

theorem xwriteAll_uses {P : IoOp → Prop} {fd : ℤ} (hw : ∀ data total, P (.writeAll fd data total))
    (buffer : Bytes) (total : ℕ) : (xwriteAll fd buffer total).Uses P := by
  rw [xwriteAll]
  split_ifs
  · trivial
  · refine (uses_op (hw buffer total)).bind fun n => ?_
    rcases n with _ | n
    · trivial
    · change Prog.Uses _ (ite _ _ _)
      split_ifs <;> trivial

section Uses

variable {P : IoOp → Prop} (h : ∀ o, Handling o → P o)
  (hw : ∀ data total, P (.writeAll 2 data total))

include h hw

theorem copyLog_uses (fd : ℤ) (l : List ℤ) (total : ℕ) : (copyLog fd l total).Uses P := by
  have hfree : (fdFree fd l).Uses P := by
    rw [fdFree]
    split_ifs
    · exact ((xclose_handling fd).mono h).bind fun _ => trivial
    · trivial
  refine (uses_op (h (.read fd (bufsiz - 2)) trivial)).bind fun data => ?_
  rcases data with _ | data
  · exact hfree.bind fun _ => trivial
  · change Prog.Uses _ (ite _ _ _)
    split_ifs
    · exact hfree.bind fun _ => trivial
    · exact (xwriteAll_uses hw (logText data.val) total).bind fun _ => trivial

theorem logSelectFrom_uses (fds : FdSet) (count i : ℕ) (l : List ℤ) (total : ℕ) :
    (logSelectFrom fds count i l total).Uses P := by
  induction count generalizing i l total with
  | zero => trivial
  | succ count ih =>
      rw [logSelectFrom]
      split_ifs
      · exact (copyLog_uses h hw _ l total).bind fun r => ih (i + 1) r.1 r.2
      · exact ih (i + 1) l total

end Uses

end HasherPriv.IoLoop.Log
