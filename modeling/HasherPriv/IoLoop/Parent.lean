/- GID: HasherPriv/IoLoop/Parent
   layer: input and output loop
   source: parent.c, x11.c
   digest: The loop of the parent: its limits, and one turn of its input and output. -/

import HasherPriv.IoLoop.Log
import HasherPriv.IoLoop.X11

set_option autoImplicit false
set_option relaxedAutoImplicit false

namespace HasherPriv.IoLoop.Parent

open Foundations.ByteString (Bytes)
open Foundations.Program
open Calls
open Log
open X11

/-! The variables. -/

/-- `work_limit_t`; nothing ever sets `bytes_read`. -/
structure WorkLimit where
  timeElapsed : ℕ := 0
  timeIdle : ℕ := 0
  bytesRead : ℕ := 0
  bytesWritten : ℕ := 0

/-- What the loop only looks at. `scanHex` is `sscanf` with `"%2x"`. -/
structure Setup where
  wlimit : WorkLimit
  usePty : Bool
  ptyFd : ℤ
  logFd : ℤ
  x11Key : Bytes
  x11DataLen : ℕ
  scanHex : Bytes → Option UInt8

/-- `struct io_std`, but for the buffer that is empty between the calls of `handle_io`. -/
structure IoStd where
  masterReadFd : ℤ
  masterWriteOutFd : ℤ
  masterWriteErrFd : ℤ
  slaveReadOutFd : ℤ
  slaveReadErrFd : ℤ
  slaveWriteFd : ℤ
  masterBuf : Buffer := .empty

structure State where
  io : IoStd
  ctlFd : ℤ
  x11Fd : ℤ := -1
  /-- `x11_connect_method`, with `x11_dir_fd`. -/
  method : Option ConnectMethod := none
  x11List : IoX11List := []
  /-- `x11_saved_data` and `x11_fake_data`. -/
  auth : Option Auth := none
  fdList : List ℤ := []
  totalBytesRead : ℕ := 0
  totalBytesWritten : ℕ := 0

/-- The variables when the loop starts. -/
def start (c : Setup) (method : Option ConnectMethod) (pipeOut pipeErr ctlFd : ℤ) : State where
  io :=
    { masterReadFd := if c.usePty then 0 else -1
      masterWriteOutFd := 1
      masterWriteErrFd := if c.usePty then -1 else 2
      slaveReadOutFd := if c.usePty then c.ptyFd else pipeOut
      slaveReadErrFd := if c.usePty then -1 else pipeErr
      slaveWriteFd := if c.usePty then c.ptyFd else -1 }
  ctlFd := ctlFd
  method := method

/-! Limits. -/

def workLimitsOk (wlimit : WorkLimit) (bytesRead bytesWritten : ℕ) : IoProg Unit := do
  if ← ioCall .sigalrmArrived then
    let limit := wlimit.timeElapsed
    .die s!"time elapsed limit ({limit} seconds) exceeded"
  else if wlimit.bytesRead ≠ 0 ∧ wlimit.bytesRead ≤ bytesRead then
    let limit := wlimit.bytesRead
    .die s!"bytes read limit ({limit} bytes) exceeded"
  else if wlimit.bytesWritten ≠ 0 ∧ wlimit.bytesWritten ≤ bytesWritten then
    let limit := wlimit.bytesWritten
    .die s!"bytes written limit ({limit} bytes) exceeded"
  else return ()

theorem workLimitsOk_uses {P : IoOp → Prop} (h : P .sigalrmArrived) (wlimit : WorkLimit)
    (bytesRead bytesWritten : ℕ) : (workLimitsOk wlimit bytesRead bytesWritten).Uses P := by
  refine (uses_op h).bind fun arrived => ?_
  cases arrived with
  | true => trivial
  | false =>
      change Prog.Uses _ (ite _ _ _)
      split_ifs <;> trivial

/-! Selecting. -/

/-- The sets for `pselect`; there are none when there is nothing left to do. -/
def selectFds (c : Setup) (s : State) : IoProg (Option Sets) := do
  if ← ioCall .sigwinchArrived then
    let _ ← ioCall (.ttyCopyWinsize 0 c.ptyFd)
  let sets := (({} : Sets).addRead s.io.slaveReadOutFd).addRead s.io.slaveReadErrFd
  let sets := fdsAddX11 s.x11List (fdsAddLog s.fdList sets)
  if ← ioCall .childPid then
    let sets :=
      if s.io.masterBuf.avail ≠ 0 then sets.addWrite s.io.slaveWriteFd
      else sets.addRead s.io.masterReadFd
    return some (((sets.addRead c.logFd).addRead s.ctlFd).addRead s.x11Fd)
  else if sets.maxFd ≤ 1 then return none
  else return some sets

theorem selectFds_uses {P : IoOp → Prop} (harrived : P .sigwinchArrived)
    (hsize : ∀ fd, P (.ttyCopyWinsize 0 fd)) (hchild : P .childPid) (c : Setup) (s : State) :
    (selectFds c s).Uses P := by
  have hrest : ∀ sets : Sets, Prog.Uses P ((ioCall .childPid).bind fun alive =>
      if alive then
        .ret (some (((if s.io.masterBuf.avail ≠ 0 then sets.addWrite s.io.slaveWriteFd
          else sets.addRead s.io.masterReadFd).addRead c.logFd).addRead s.ctlFd |>.addRead s.x11Fd))
      else if sets.maxFd ≤ 1 then .ret none else .ret (some sets)) := by
    intro sets
    refine (uses_op hchild).bind fun alive => ?_
    split_ifs <;> trivial
  refine (uses_op harrived).bind fun arrived => ?_
  cases arrived with
  | false => exact hrest _
  | true => exact (uses_op (hsize c.ptyFd)).bind fun _ => hrest _

/-- What is selected also without the child. -/
def lastingFds (s : State) : Sets :=
  fdsAddX11 s.x11List (fdsAddLog s.fdList
    ((({} : Sets).addRead s.io.slaveReadOutFd).addRead s.io.slaveReadErrFd))

/-- What is selected as long as the child is there. -/
def aliveFds (c : Setup) (s : State) : Sets :=
  (((if s.io.masterBuf.avail ≠ 0 then (lastingFds s).addWrite s.io.slaveWriteFd
    else (lastingFds s).addRead s.io.masterReadFd).addRead c.logFd).addRead s.ctlFd).addRead s.x11Fd

/-- The calls that come before the question for the child. -/
def Resizes : IoOp → Prop
  | .sigwinchArrived | .ttyCopyWinsize _ _ => True
  | _ => False

/-- The answer about the child decides what is selected. -/
theorem selectFds_cases {c : Setup} {s : State} {tr : List (Event IoRes)} {r : Option Sets}
    (h : Runs (selectFds c s) tr (.returned r)) :
    ∃ before, (∀ e ∈ before, Resizes e.1) ∧
      ((tr = before ++ [⟨.childPid, true⟩] ∧ r = some (aliveFds c s)) ∨
        (tr = before ++ [⟨.childPid, false⟩] ∧
          r = if (lastingFds s).maxFd ≤ 1 then none else some (lastingFds s))) := by
  have hrest : ∀ tr, Runs ((ioCall .childPid).bind fun alive =>
      if alive then .ret (some (aliveFds c s))
      else if (lastingFds s).maxFd ≤ 1 then .ret none else .ret (some (lastingFds s))) tr
      (.returned r) →
      (tr = [⟨.childPid, true⟩] ∧ r = some (aliveFds c s)) ∨
        (tr = [⟨.childPid, false⟩] ∧
          r = if (lastingFds s).maxFd ≤ 1 then none else some (lastingFds s)) := by
    intro tr hrun
    obtain ⟨alive, rest, rfl, hanswered⟩ := returns_op_bind.mp hrun
    cases alive with
    | true =>
        obtain ⟨rfl, rfl⟩ := returns_ret.mp hanswered
        exact Or.inl ⟨rfl, rfl⟩
    | false =>
        simp only [Bool.false_eq_true, if_false] at hanswered
        refine Or.inr ?_
        by_cases hfew : (lastingFds s).maxFd ≤ 1
        · rw [if_pos hfew] at hanswered ⊢
          obtain ⟨rfl, rfl⟩ := returns_ret.mp hanswered
          exact ⟨rfl, rfl⟩
        · rw [if_neg hfew] at hanswered ⊢
          obtain ⟨rfl, rfl⟩ := returns_ret.mp hanswered
          exact ⟨rfl, rfl⟩
  obtain ⟨arrived, rest, rfl, hselect⟩ := returns_op_bind.mp h
  cases arrived with
  | true =>
      obtain ⟨ok, others, rfl, hasked⟩ := returns_op_bind.mp hselect
      refine ⟨[⟨.sigwinchArrived, true⟩, ⟨.ttyCopyWinsize 0 c.ptyFd, ok⟩], ?_, ?_⟩
      · intro e he
        rcases List.mem_cons.mp he with rfl | he
        · trivial
        · rw [List.mem_singleton.mp he]
          trivial
      · rcases hrest others hasked with ⟨rfl, hr⟩ | ⟨rfl, hr⟩
        · exact Or.inl ⟨rfl, hr⟩
        · exact Or.inr ⟨rfl, hr⟩
  | false =>
      refine ⟨[⟨.sigwinchArrived, false⟩], ?_, ?_⟩
      · intro e he
        rw [List.mem_singleton.mp he]
        trivial
      · rcases hrest rest hselect with ⟨rfl, hr⟩ | ⟨rfl, hr⟩
        · exact Or.inl ⟨rfl, hr⟩
        · exact Or.inr ⟨rfl, hr⟩

/-! What is ready. -/

/-- The handling of the child's output or error: copy it, and forget the descriptor at its end. -/
def copyChild (reads : FdSet) (slaveFd masterFd : ℤ) (total : ℕ) : IoProg (ℤ × ℕ) := do
  if ¬ fdsIsset reads slaveFd then return (slaveFd, total)
  else
    match ← ioCall (.read slaveFd bufsiz) with
    | none => return (-1, total)
    | some data =>
        if data.val = [] then return (-1, total)
        else return (slaveFd, ← xwriteAll masterFd data.val total)

/-- The handling of the child's input; `none` where nothing can be written. -/
def writeChild (writes : FdSet) (s : State) : IoProg (Option State) := do
  if s.io.masterBuf.avail ≠ 0 ∧ fdsIsset writes s.io.slaveWriteFd then
    match ← ioCall (.write s.io.slaveWriteFd s.io.masterBuf.data) with
    | none => return none
    | some n =>
        if n.val = 0 then return none
        else
          return some { s with
            totalBytesRead := (s.totalBytesRead + s.io.masterBuf.avail) % ulongSize
            io := { s.io with masterBuf := s.io.masterBuf.consume n } }
  else return some s

/-- The handling of the input from the terminal; its end becomes a `^D`. -/
def readTty (reads : FdSet) (s : State) : IoProg State := do
  if s.io.masterBuf.avail = 0 ∧ fdsIsset reads s.io.masterReadFd then
    match ← ioCall (.read s.io.masterReadFd bufsiz) with
    | none => return { s with io := { s.io with masterReadFd := -1 } }
    | some data =>
        let data := if data.val = [] then ⟨[4], by decide⟩ else data
        return { s with io := { s.io with masterBuf := s.io.masterBuf.fill data } }
  else return s

/-- `x11_check_listen`. -/
def x11CheckListen (fd : ℤ) : IoProg ℤ := do
  match ← ioCall (.getsockname fd) with
  | none =>
      xclose fd
      return -1
  | some expected => return if expected then fd else -1

/-- The bytes that `x11_key` spells. -/
def savedData (c : Setup) : Option Bytes :=
  (List.range c.x11DataLen).mapM fun i => c.scanHex (c.x11Key.drop (2 * i))

theorem savedData_length {c : Setup} {saved : Bytes} (h : savedData c = some saved) :
    saved.length = c.x11DataLen := by
  have hlength : ∀ (l : List ℕ) (f : ℕ → Option UInt8) (saved : Bytes),
      l.mapM f = some saved → saved.length = l.length := by
    intro l f
    induction l with
    | nil =>
        rintro saved ⟨⟩
        rfl
    | cons i l ih =>
        intro saved h
        rw [List.mapM_cons] at h
        obtain ⟨b, -, h⟩ := Option.bind_eq_some_iff.mp h
        obtain ⟨rest, hrest, h⟩ := Option.bind_eq_some_iff.mp h
        obtain rfl := Option.some.inj h
        rw [List.length_cons, List.length_cons, ih rest hrest]
  rw [hlength _ _ saved h, List.length_range]

/-- `handle_x11_ctl`: the listening socket, and the cookies. -/
def handleX11Ctl (c : Setup) (ctlFd : ℤ) : IoProg (ℤ × Option Auth) := do
  match h : savedData c with
  | none => return (-1, none)
  | some saved =>
      let received ← ioCall (.fdRecv ctlFd c.x11DataLen)
      let fd ← (match received.fd with
        | none => return -1
        | some fd => x11CheckListen fd : IoProg ℤ)
      if saved = received.data.val then
        xclose fd
        return (-1, none)
      else
        return (fd, some ⟨saved, received.data.val,
          (savedData_length h).trans received.data.property.symm⟩)

theorem handleX11Ctl_handling (c : Setup) (ctlFd : ℤ) : (handleX11Ctl c ctlFd).Uses Handling := by
  unfold handleX11Ctl
  split
  · trivial
  · refine (handling_call (.fdRecv ctlFd c.x11DataLen) trivial).bind fun received => ?_
    refine Prog.Uses.bind ?_ fun fd => ?_
    · cases received.fd with
      | none => trivial
      | some fd =>
          refine (handling_call (.getsockname fd) trivial).bind fun name => ?_
          cases name with
          | none => exact (xclose_handling fd).bind fun _ => trivial
          | some expected => trivial
    · change Prog.Uses _ (ite _ _ _)
      split_ifs
      · exact (xclose_handling fd).bind fun _ => trivial
      · trivial

/-- `x11_closedir`. -/
def x11Closedir : Option ConnectMethod → IoProg (Option ConnectMethod)
  | some (.unix dirFd) => do
      xclose dirFd
      return some (.unix (-1))
  | method => return method

/-- The handling of the control descriptor. -/
def handleCtl (c : Setup) (reads : FdSet) (s : State) : IoProg State := do
  if ¬ fdsIsset reads s.ctlFd then return s
  else
    let (x11Fd, auth) ← handleX11Ctl c s.ctlFd
    let method ← (if x11Fd < 0 then x11Closedir s.method else return s.method)
    xclose s.ctlFd
    return { s with x11Fd := x11Fd, auth := auth, method := method, ctlFd := -1 }

theorem handleCtl_handling (c : Setup) (reads : FdSet) (s : State) :
    (handleCtl c reads s).Uses Handling := by
  unfold handleCtl
  split_ifs
  · refine (handleX11Ctl_handling c s.ctlFd).bind fun found => ?_
    refine Prog.Uses.bind ?_ fun method => (xclose_handling s.ctlFd).bind fun _ => trivial
    split_ifs
    · unfold x11Closedir
      split
      · exact (xclose_handling _).bind fun _ => trivial
      · trivial
    · trivial
  · trivial

/-- The part of `handle_io` that deals with the descriptors that are ready. -/
def handleReady (c : Setup) (reads writes : FdSet) (s : State) : IoProg (Option State) := do
  let (err, total) ← copyChild reads s.io.slaveReadErrFd s.io.masterWriteErrFd s.totalBytesWritten
  let s := { s with totalBytesWritten := total, io := { s.io with slaveReadErrFd := err } }
  let (out, total) ← copyChild reads s.io.slaveReadOutFd s.io.masterWriteOutFd s.totalBytesWritten
  let s := { s with totalBytesWritten := total, io := { s.io with slaveReadOutFd := out } }
  match ← writeChild writes s with
  | none => return none
  | some s =>
      let s ← readTty reads s
      let x11List ← x11HandleSelect s.auth reads writes s.x11List
      let x11List ← x11HandleNew s.method s.x11Fd reads x11List
      let s := { s with x11List := x11List }
      let (fdList, total) ← logHandleSelect reads s.fdList s.totalBytesWritten
      let fdList ← logHandleNew c.logFd reads fdList
      let s := { s with fdList := fdList, totalBytesWritten := total }
      return some (← handleCtl c reads s)

/-- The last part of `handle_io`: what is not for the child and the terminal. -/
def handleOthers (c : Setup) (reads writes : FdSet) (s : State) : IoProg State := do
  let x11List ← x11HandleSelect s.auth reads writes s.x11List
  let x11List ← x11HandleNew s.method s.x11Fd reads x11List
  let s := { s with x11List := x11List }
  let (fdList, total) ← logHandleSelect reads s.fdList s.totalBytesWritten
  let fdList ← logHandleNew c.logFd reads fdList
  let s := { s with fdList := fdList, totalBytesWritten := total }
  handleCtl c reads s

theorem handleReady_eq (c : Setup) (reads writes : FdSet) (s : State) :
    handleReady c reads writes s =
      (copyChild reads s.io.slaveReadErrFd s.io.masterWriteErrFd s.totalBytesWritten).bind
        fun err => (copyChild reads s.io.slaveReadOutFd s.io.masterWriteOutFd err.2).bind
          fun out => (writeChild writes { s with
            totalBytesWritten := out.2
            io := { s.io with slaveReadErrFd := err.1, slaveReadOutFd := out.1 } }).bind
              fun r => match r with
                | none => .ret none
                | some s => (readTty reads s).bind fun s =>
                    (handleOthers c reads writes s).bind fun s => .ret (some s) := by
  unfold handleReady handleOthers
  simp only [bind_eq_bind, pure_eq_ret, prog_bind_assoc]

/-! The calls of the handlers. -/

section Uses

variable {P : IoOp → Prop} (h : ∀ o, Handling o → P o)

include h

theorem copyChild_uses {masterFd : ℤ} (hw : ∀ data total, P (.writeAll masterFd data total))
    (reads : FdSet) (slaveFd : ℤ) (total : ℕ) : (copyChild reads slaveFd masterFd total).Uses P := by
  unfold copyChild
  split_ifs
  · refine (uses_op (h (.read slaveFd bufsiz) trivial)).bind fun data => ?_
    rcases data with _ | data
    · trivial
    · change Prog.Uses _ (ite _ _ _)
      split_ifs
      · trivial
      · exact (xwriteAll_uses hw data.val total).bind fun _ => trivial
  · trivial

theorem writeChild_uses (writes : FdSet) (s : State) : (writeChild writes s).Uses P := by
  unfold writeChild
  split_ifs
  · refine (uses_op (h (.write s.io.slaveWriteFd s.io.masterBuf.data) trivial)).bind fun n => ?_
    rcases n with _ | n
    · trivial
    · change Prog.Uses _ (ite _ _ _)
      split_ifs <;> trivial
  · trivial

theorem readTty_uses (reads : FdSet) (s : State) : (readTty reads s).Uses P := by
  unfold readTty
  split_ifs
  · refine (uses_op (h (.read s.io.masterReadFd bufsiz) trivial)).bind fun data => ?_
    rcases data with _ | data <;> trivial
  · trivial

theorem handleOthers_uses (hw : ∀ data total, P (.writeAll 2 data total)) (c : Setup)
    (reads writes : FdSet) (s : State) : (handleOthers c reads writes s).Uses P := by
  refine ((x11HandleSelect_handling s.auth reads writes s.x11List).mono h).bind fun l => ?_
  refine ((x11HandleNew_handling s.method s.x11Fd reads l).mono h).bind fun l => ?_
  refine (logSelectFrom_uses h hw reads _ 0 s.fdList s.totalBytesWritten).bind fun logs => ?_
  refine ((logHandleNew_handling c.logFd reads logs.1).mono h).bind fun fdList => ?_
  exact (handleCtl_handling c reads _).mono h

theorem handleReady_uses (hw : ∀ fd data total, P (.writeAll fd data total)) (c : Setup)
    (reads writes : FdSet) (s : State) : (handleReady c reads writes s).Uses P := by
  rw [handleReady_eq]
  refine (copyChild_uses h (hw _) reads _ _).bind fun err => ?_
  refine (copyChild_uses h (hw _) reads _ _).bind fun out => ?_
  refine (writeChild_uses h writes _).bind fun r => ?_
  rcases r with _ | s
  · trivial
  · refine (readTty_uses h reads s).bind fun s => ?_
    exact (handleOthers_uses h (hw 2) c reads writes s).bind fun _ => trivial

end Uses

/-- `handle_io`; `none` is `EXIT_FAILURE`. -/
def handleIo (c : Setup) (s : State) : IoProg (Option State) := do
  match ← selectFds c s with
  | none => return none
  | some sets =>
      match ← ioCall (.pselect sets.reads sets.writes c.wlimit.timeIdle) with
      | .timeout =>
          let limit := c.wlimit.timeIdle
          .die s!"idle time limit ({limit} seconds) exceeded"
      | .interrupted => return some s
      | .failed => return none
      | .ready reads writes => handleReady c reads.val writes.val s

/-- One turn of the loop of `handle_parent`. -/
def turn (c : Setup) (s : State) : IoProg (State ⊕ Unit) := do
  workLimitsOk c.wlimit s.totalBytesRead s.totalBytesWritten
  match ← handleIo c s with
  | some s => return .inl s
  | none => return .inr ()

end HasherPriv.IoLoop.Parent
