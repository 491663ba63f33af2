/- GID: HasherPriv/IoLoop/TerminalInput
   layer: input and output loop
   source: parent.c, io_loop.c
   digest: What is typed at the terminal reaches the child in order, all of it and once. -/

import HasherPriv.IoLoop.Descriptors
import HasherPriv.IoLoop.WriteLoop

set_option autoImplicit false
set_option relaxedAutoImplicit false

namespace HasherPriv.IoLoop.TerminalInput

open Foundations.ByteString (Bytes)
open Foundations.Program
open Foundations.Contracts
open Foundations.Expansion
open Foundations.Handles
open Calls
open Log (xwriteAll)
open X11 (ConnectMethod)
open Parent
open Descriptors
open WriteLoop

/-! The descriptors, and the two ends of the terminal's input. -/

structure World where
  table : Table
  /-- What has been written to the child. -/
  delivered : Bytes
  /-- What each read from the terminal has brought; the end of the file counts as `^D`. -/
  taken : List Bytes

/-- What a call writes to the pseudo terminal. -/
def sent (pty : ℤ) : (o : IoOp) → IoRes o → Bytes
  | .write fd data, r | .writeAll fd data _, r =>
      if fd = pty then data.take (r.elim 0 Fin.val) else []
  | _, _ => []

/-- What a call reads from the standard input. -/
def received : (o : IoOp) → IoRes o → List Bytes
  | .read fd _, some d => if fd = 0 then [if d.val = [] then [4] else d.val] else []
  | _, _ => []

def Sem (pty : ℤ) (o : IoOp) (w : World) (r : IoRes o) (w' : World) : Prop :=
  Answers o w.table r w'.table ∧ w'.delivered = w.delivered ++ sent pty o r ∧
    w'.taken = w.taken ++ received o r

/-- Everything that has been read has been written. -/
def Drained (w : World) : Prop := w.delivered = w.taken.flatten

/-- The standard input is read, a whole buffer, only after that. -/
def Check : (o : IoOp) → World → IoRes o → World → Prop
  | .read fd size, w, _, _ => fd = 0 → Drained w ∧ size = bufsiz
  | _, _, _, _ => True

theorem sem_writes (pty : ℤ) : Writes (Sem pty) fun fd data w =>
    { w with delivered := w.delivered ++ if fd = pty then data else [] } where
  nothing := by
    intro fd w
    show { w with delivered := w.delivered ++ if fd = pty then [] else [] } = w
    rw [ite_self, List.append_nil]
  append := by
    intro fd data data' w
    by_cases hfd : fd = pty
    · simp only [if_pos hfd, List.append_assoc]
    · simp only [if_neg hfd, List.append_nil]
  write := by
    intro fd data w r w'
    obtain ⟨table, delivered, taken⟩ := w'
    unfold Sem sent received Answers
    simp
  writeAll := by
    intro fd data total w r w'
    obtain ⟨table, delivered, taken⟩ := w'
    unfold Sem sent received Answers
    simp

/-! The handlers. -/

section Handlers

variable {pty : ℤ} {w : World} {reads writes : FdSet}

abbrev Keeps {α : Type} (pty : ℤ) (p : IoProg α) (post : α → World → Prop) (w : World) : Prop :=
  Ensures (Sem pty) Check p post w

/-- A call that does nothing to the world. -/
theorem sem_same {o : IoOp} {r : IoRes o} {w' : World} (h : Sem pty o w r w')
    (htable : Answers o w.table r w'.table → w'.table = w.table) (hsent : sent pty o r = [])
    (hreceived : received o r = []) : w' = w := by
  obtain ⟨table, delivered, taken⟩ := w'
  obtain ⟨hanswers, hdelivered, htaken⟩ := h
  rw [hsent, List.append_nil] at hdelivered
  rw [hreceived, List.append_nil] at htaken
  have htable' : table = w.table := htable hanswers
  have hdelivered' : delivered = w.delivered := hdelivered
  have htaken' : taken = w.taken := htaken
  rw [htable', hdelivered', htaken']

/-- Writing somewhere else. -/
theorem xwriteAll_keeps {fd : ℤ} (hfd : fd ≠ pty) (buffer : Bytes) (total : ℕ) :
    Keeps pty (xwriteAll fd buffer total) (fun _ w' => w' = w) w := by
  rw [xwriteAll]
  by_cases hempty : buffer = []
  · rw [if_pos hempty]
    rfl
  · rw [if_neg hempty]
    intro r w' hsem
    have hsent : sent pty (.writeAll fd buffer total) r = [] := by
      show (if fd = pty then _ else []) = []
      exact if_neg hfd
    have hw := sem_same hsem id hsent rfl
    refine ⟨trivial, ?_⟩
    cases r with
    | none => trivial
    | some n =>
        show Ensures _ _ (ite _ _ _) _ _
        split_ifs
        · trivial
        · exact hw

/-- The output of the child does not get in the way. -/
theorem copyChild_keeps {slaveFd masterFd : ℤ} (hslave : slaveFd ≠ 0) (hmaster : masterFd ≠ pty)
    (total : ℕ) :
    Keeps pty (copyChild reads slaveFd masterFd total)
      (fun r w' => w' = w ∧ (r.1 = slaveFd ∨ r.1 = -1)) w := by
  unfold copyChild
  by_cases hready : fdsIsset reads slaveFd = true
  · rw [if_neg (not_not.mpr hready)]
    intro r w' hsem
    have hreceived : received (.read slaveFd bufsiz) r = [] := by
      cases r with
      | none => rfl
      | some data => exact if_neg hslave
    have hw := sem_same hsem id rfl hreceived
    refine ⟨fun hzero => absurd hzero hslave, ?_⟩
    cases r with
    | none => exact ⟨hw, Or.inr rfl⟩
    | some data =>
        show Ensures _ _ (ite _ _ _) _ _
        by_cases hnil : data.val = []
        · rw [if_pos hnil]
          exact ⟨hw, Or.inr rfl⟩
        · rw [if_neg hnil, hw]
          apply (xwriteAll_keeps hmaster data.val total).bind
          intro t w'' hw''
          exact ⟨hw'', Or.inl rfl⟩
  · rw [if_pos hready]
    exact ⟨rfl, Or.inl rfl⟩

/-- What has been read is what has been written, and the buffer. -/
def Delivers (s : State) (w : World) : Prop :=
  w.delivered ++ s.io.masterBuf.data = w.taken.flatten

/-- Where the descriptors of `struct io_std` are with a pseudo terminal. -/
structure Wired (c : Setup) (s : State) : Prop where
  input : s.io.masterReadFd = 0 ∨ s.io.masterReadFd = -1
  child : s.io.slaveWriteFd = c.ptyFd
  output : s.io.slaveReadOutFd = c.ptyFd ∨ s.io.slaveReadOutFd = -1
  error : s.io.slaveReadErrFd = -1
  stdout : s.io.masterWriteOutFd = 1
  stderr : s.io.masterWriteErrFd = -1

/-- A buffer that is not empty is written, and what is left moves to its front. -/
theorem writeChild_keeps {c : Setup} {s : State} (hwired : Wired c s) (h : Delivers s w) :
    Keeps c.ptyFd (writeChild writes s) (fun r w' => w'.table = w.table ∧
      Delivers (r.getD s) w' ∧ Wired c (r.getD s) ∧ owned c (r.getD s) = owned c s) w := by
  obtain ⟨hin, hfd, hout, herr, h1, h2⟩ := hwired
  unfold writeChild
  split_ifs with hready
  · intro r w' hsem
    obtain ⟨htable, hdelivered, htaken⟩ := hsem
    have hsent : sent c.ptyFd (.write s.io.slaveWriteFd s.io.masterBuf.data) r =
        s.io.masterBuf.data.take (r.elim 0 Fin.val) := if_pos hfd
    have htaken' : w'.taken = w.taken := by
      rw [htaken]
      exact List.append_nil _
    rw [hsent] at hdelivered
    have hrest : w'.delivered ++ s.io.masterBuf.data.drop (r.elim 0 Fin.val) =
        w'.taken.flatten := by
      rw [hdelivered, List.append_assoc, List.take_append_drop, htaken']
      exact h
    refine ⟨trivial, ?_⟩
    cases r with
    | none => exact ⟨htable, hrest, ⟨hin, hfd, hout, herr, h1, h2⟩, rfl⟩
    | some n =>
        show Ensures _ _ (ite _ _ _) _ _
        by_cases hzero : n.val = 0
        · rw [if_pos hzero]
          refine ⟨htable, ?_, ⟨hin, hfd, hout, herr, h1, h2⟩, rfl⟩
          show w'.delivered ++ s.io.masterBuf.data = _
          have hdrop : s.io.masterBuf.data.drop n.val = s.io.masterBuf.data := by
            rw [hzero, List.drop_zero]
          rw [← hrest]
          show _ = w'.delivered ++ s.io.masterBuf.data.drop n.val
          rw [hdrop]
        · rw [if_neg hzero]
          refine ⟨htable, ?_, ⟨hin, hfd, hout, herr, h1, h2⟩, rfl⟩
          show w'.delivered ++ (s.io.masterBuf.consume n).data = _
          rw [Buffer.consume_data]
          exact hrest
  · exact ⟨rfl, h, ⟨hin, hfd, hout, herr, h1, h2⟩, rfl⟩

/-- The terminal is read into an empty buffer. -/
theorem readTty_keeps {c : Setup} {s : State} (hwired : Wired c s) (h : Delivers s w) :
    Keeps pty (readTty reads s) (fun t w' => w'.table = w.table ∧ Delivers t w' ∧ Wired c t ∧
      owned c t = owned c s) w := by
  obtain ⟨hin, hfd, hout, herr, h1, h2⟩ := hwired
  unfold readTty
  split_ifs with hready
  · obtain ⟨havail, hset⟩ := hready
    have hzero : s.io.masterReadFd = 0 := by
      obtain ⟨n, hn, -⟩ := exists_of_fdsIsset hset
      omega
    have hempty : s.io.masterBuf.data = [] := Buffer.data_eq_nil.mpr havail
    have hdrained : w.delivered = w.taken.flatten := by
      rw [← h, hempty, List.append_nil]
    intro r w' hsem
    obtain ⟨htable, hdelivered, htaken⟩ := hsem
    have hdelivered' : w'.delivered = w.delivered := by
      rw [hdelivered]
      exact List.append_nil _
    refine ⟨fun _ => ⟨hdrained, rfl⟩, ?_⟩
    cases r with
    | none =>
        have htaken' : w'.taken = w.taken := by
          rw [htaken]
          exact List.append_nil _
        refine ⟨htable, ?_, ⟨Or.inr rfl, hfd, hout, herr, h1, h2⟩, rfl⟩
        show w'.delivered ++ s.io.masterBuf.data = w'.taken.flatten
        rw [hdelivered', htaken']
        exact h
    | some data =>
        have hchunk : received (.read s.io.masterReadFd bufsiz) (some data) =
            [if data.val = [] then [4] else data.val] := if_pos hzero
        rw [hchunk] at htaken
        refine ⟨htable, ?_, ⟨hin, hfd, hout, herr, h1, h2⟩, rfl⟩
        show w'.delivered ++ (s.io.masterBuf.fill _).data = w'.taken.flatten
        rw [hdelivered', htaken, hdrained, Buffer.fill_data, List.flatten_append]
        congr 1
        by_cases hnil : data.val = []
        · simp only [if_pos hnil, List.flatten_singleton]
        · simp only [if_neg hnil, List.flatten_singleton]
  · exact ⟨rfl, h, ⟨hin, hfd, hout, herr, h1, h2⟩, rfl⟩

/-! The other handlers have descriptors of their own. -/

/-- The calls that write to the standard error only. -/
def LogsOnly : IoOp → Prop
  | .writeAll fd _ _ => fd = 2
  | _ => True

/-- What acts on other descriptors is not about the terminal. -/
theorem quiet_of_actsOn {a : List ℕ} {t t' : Table} {o : IoOp} {r : IoRes o} (hlogs : LogsOnly o)
    (hacts : ActsOn a o t r t') (h0 : 0 ∉ a) (hchild : pty.toNat ∉ a) (hpty : 2 < pty) :
    sent pty o r = [] ∧ received o r = [] ∧ ∀ fd size, o = .read fd size → fd ≠ 0 := by
  cases o with
  | read fd size =>
      obtain ⟨n, hn, rfl⟩ := hacts .reads fd rfl
      have hfd : (n : ℤ) ≠ 0 := by
        intro hzero
        obtain rfl : n = 0 := by omega
        exact h0 hn
      refine ⟨rfl, ?_, ?_⟩
      · cases r with
        | none => rfl
        | some data => exact if_neg hfd
      · rintro fd' size' ⟨⟩
        exact hfd
  | write fd data =>
      obtain ⟨n, hn, rfl⟩ := hacts .writes fd rfl
      have hfd : (n : ℤ) ≠ pty := by
        rintro rfl
        exact hchild hn
      exact ⟨if_neg hfd, rfl, fun _ _ h => by cases h⟩
  | writeAll fd data total =>
      have hfd : fd ≠ pty := by
        have hlog : fd = 2 := hlogs
        omega
      exact ⟨if_neg hfd, rfl, fun _ _ h => by cases h⟩
  | _ => exact ⟨rfl, rfl, fun _ _ h => by cases h⟩

theorem handleOthers_keeps {c : Setup} {s : State} (howns : Owns w.table (owned c s))
    (hstdin : Spared c s w.table 0) (hchild : Spared c s w.table pty.toNat) (hpty : 2 < pty) :
    Keeps pty (handleOthers c reads writes s) (fun s' w' => s'.io = s.io ∧
      w'.delivered = w.delivered ∧ w'.taken = w.taken) w := by
  have huses : (handleOthers c reads writes s).Uses LogsOnly := by
    apply handleOthers_uses
    · intro o ho
      cases o with
      | writeAll fd data total => exact ho.elim
      | _ => trivial
    · intro data total
      rfl
  have hworld : Ensures (Sem pty) _ (handleOthers c reads writes s) _ w :=
    (handleOthers_actsOn howns).comap fun hsem => hsem.1
  have hquiet : w.delivered = w.delivered ∧ w.taken = w.taken := ⟨rfl, rfl⟩
  have hboth : Keeps pty (handleOthers c reads writes s) _ w :=
    hworld.also (I := fun w' => w'.delivered = w.delivered ∧ w'.taken = w.taken) huses hquiet ?_
  · exact hboth.mono fun s' w' hpost => ⟨hpost.1.2, hpost.2⟩
  · rintro o v r v' hlogs hacts ⟨hdelivered, htaken⟩ ⟨-, hsent, hreceived⟩
    obtain ⟨hs, hr, hread⟩ := quiet_of_actsOn hlogs hacts hstdin.other hchild.other hpty
    rw [hs, List.append_nil] at hsent
    rw [hr, List.append_nil] at hreceived
    refine ⟨?_, hsent.trans hdelivered, hreceived.trans htaken⟩
    cases o with
    | read fd size => exact fun hfd => absurd hfd (hread fd size rfl)
    | _ => trivial

/-- The part of `handle_io` behind `pselect`. -/
theorem handleReady_keeps {c : Setup} {s : State} (hpty : 2 < c.ptyFd) (hwired : Wired c s)
    (howns : Owns w.table (owned c s)) (hstdin : Spared c s w.table 0)
    (hchild : Spared c s w.table c.ptyFd.toNat) (h : Delivers s w) :
    Keeps c.ptyFd (handleReady c reads writes s) (fun r w' =>
      Delivers (r.getD s) w' ∧ Wired c (r.getD s)) w := by
  obtain ⟨hin, hwrite, hout, herr, h1, h2⟩ := hwired
  rw [handleReady_eq]
  apply (copyChild_keeps (by omega) (by omega) s.totalBytesWritten).bind
  rintro ⟨err, total⟩ w₁ ⟨rfl, herr₁⟩
  have herr₁' : err = -1 := by
    rw [herr] at herr₁
    exact herr₁.elim id id
  apply (copyChild_keeps (by omega) (by omega) total).bind
  rintro ⟨out, total⟩ w₂ ⟨rfl, hout₂⟩
  have hout₂' : out = c.ptyFd ∨ out = -1 := by
    rcases hout₂ with hsame | hend
    · have hsame' : out = s.io.slaveReadOutFd := hsame
      rw [hsame']
      exact hout
    · exact Or.inr hend
  let s₀ : State :=
    { s with
      totalBytesWritten := total
      io := { s.io with slaveReadErrFd := err, slaveReadOutFd := out } }
  have hwired₀ : Wired c s₀ := ⟨hin, hwrite, hout₂', herr₁', h1, h2⟩
  refine Ensures.bind (writeChild_keeps hwired₀ h) ?_
  rintro r w₃ ⟨htable₃, hdelivers₁, hwired₁, howned₁⟩
  cases r with
  | none => exact ⟨hdelivers₁, hin, hwrite, hout, herr, h1, h2⟩
  | some s₁ =>
      refine Ensures.bind (readTty_keeps (s := s₁) hwired₁ hdelivers₁) ?_
      rintro s₂ w₄ ⟨htable₄, hdelivers₂, hwired₂, howned₂⟩
      have htable : w₄.table = w₂.table := htable₄.trans htable₃
      have howned : owned c s₂ = owned c s := howned₂.trans howned₁
      have hspared : ∀ n, Spared c s w₂.table n → Spared c s₂ w₄.table n := by
        intro n hn
        rw [htable]
        refine ⟨?_, hn.isOpen⟩
        rw [howned]
        exact hn.other
      have howns₂ : Owns w₄.table (owned c s₂) := by
        rw [htable, howned]
        exact howns
      refine (handleOthers_keeps howns₂ (hspared _ hstdin) (hspared _ hchild) hpty).bind ?_
      rintro s₃ w₅ ⟨hio, hdelivered, htaken⟩
      obtain ⟨hin, hwrite, hout, herr, h1, h2⟩ := hwired₂
      constructor
      · show w₅.delivered ++ s₃.io.masterBuf.data = w₅.taken.flatten
        rw [hio, hdelivered, htaken]
        exact hdelivers₂
      · rw [← hio] at hin hwrite hout herr h1 h2
        exact ⟨hin, hwrite, hout, herr, h1, h2⟩

/-- The calls before anything is ready. -/
def Idle : IoOp → Prop
  | .childPid | .sigalrmArrived | .sigwinchArrived | .ttyCopyWinsize _ _ | .pselect _ _ _ => True
  | _ => False

theorem sem_of_idle {o : IoOp} {r : IoRes o} {w' : World} (ho : Idle o) (h : Sem pty o w r w') :
    Check o w r w' ∧ w' = w := by
  cases o with
  | childPid => exact ⟨trivial, sem_same h id rfl rfl⟩
  | sigalrmArrived => exact ⟨trivial, sem_same h id rfl rfl⟩
  | sigwinchArrived => exact ⟨trivial, sem_same h id rfl rfl⟩
  | ttyCopyWinsize master slave => exact ⟨trivial, sem_same h id rfl rfl⟩
  | pselect reads writes timeout => exact ⟨trivial, sem_same h id rfl rfl⟩
  | _ => exact ho.elim

theorem idle_keeps {α : Type} {p : IoProg α} (hp : p.Uses Idle) :
    Keeps pty p (fun _ w' => w' = w) w := by
  refine ensures_of_uses (I := (· = w)) hp rfl ?_
  rintro o v r v' ho rfl hsem
  exact sem_of_idle ho hsem

/-- What holds between two calls of `handle_io`. -/
structure Ready (c : Setup) (s : State) (w : World) : Prop where
  wired : Wired c s
  apart : Apart c s w.table
  stdin : Spared c s w.table 0
  child : Spared c s w.table c.ptyFd.toNat
  delivers : Delivers s w

theorem handleIo_keeps {c : Setup} {s : State} (hpty : 2 < c.ptyFd) (hs : Ready c s w) :
    Keeps c.ptyFd (handleIo c s) (fun r w' =>
      Delivers (r.getD s) w' ∧ Wired c (r.getD s)) w := by
  have hselect : (selectFds c s).Uses Idle :=
    selectFds_uses trivial (fun _ => trivial) trivial c s
  refine (idle_keeps hselect).bind ?_
  rintro sets w₁ rfl
  cases sets with
  | none => exact ⟨hs.delivers, hs.wired⟩
  | some sets =>
      intro r w₂ hsem
      obtain ⟨hcheck, rfl⟩ := sem_of_idle (show Idle (.pselect _ _ _) from trivial) hsem
      refine ⟨hcheck, ?_⟩
      cases r with
      | timeout => trivial
      | interrupted => exact ⟨hs.delivers, hs.wired⟩
      | failed => exact ⟨hs.delivers, hs.wired⟩
      | ready reads writes =>
          exact handleReady_keeps hpty hs.wired hs.apart.owns hs.stdin hs.child hs.delivers

end Handlers

/-! Runs. -/

section Runs

variable {c : Setup} {s t : State} {w w' : World}

theorem start_ready {method : Option ConnectMethod} {pipeOut pipeErr ctlFd : ℤ}
    (husePty : c.usePty = true) (hpty : 2 < c.ptyFd)
    (hapart : Apart c (start c method pipeOut pipeErr ctlFd) w.table)
    (hnone : w.delivered = [] ∧ w.taken = []) :
    Ready c (start c method pipeOut pipeErr ctlFd) w := by
  have hkept : ∀ n ∈ kept (start c method pipeOut pipeErr ctlFd),
      Spared c (start c method pipeOut pipeErr ctlFd) w.table n := by
    intro n hn
    obtain ⟨hother, hopen⟩ := hapart.others n hn
    exact ⟨hother, hopen⟩
  have hin : (start c method pipeOut pipeErr ctlFd).io.masterReadFd = 0 := if_pos husePty
  have hchild : (start c method pipeOut pipeErr ctlFd).io.slaveWriteFd = c.ptyFd :=
    if_pos husePty
  refine ⟨⟨Or.inl hin, hchild, Or.inl (if_pos husePty), if_pos husePty, rfl, if_pos husePty⟩,
    hapart, hkept 0 ?_, hkept c.ptyFd.toNat ?_, ?_⟩
  · have hzero : 0 ∈ number (start c method pipeOut pipeErr ctlFd).io.masterReadFd := by
      rw [hin]
      exact List.mem_cons_self
    exact List.mem_append_right _ (List.mem_append_right _ (List.mem_append_right _ hzero))
  · have hnumber : c.ptyFd.toNat ∈
        number (start c method pipeOut pipeErr ctlFd).io.slaveWriteFd := by
      rw [hchild, number, if_neg (by omega)]
      exact List.mem_cons_self
    exact List.mem_append_right _ (List.mem_append_right _ (List.mem_append_left _ hnumber))
  · show w.delivered ++ Buffer.empty.data = w.taken.flatten
    rw [hnone.1, hnone.2]
    rfl

/-- A turn that is completed is a call of `handle_io` that has succeeded. -/
theorem turn_ready {tr : List (Step World IoRes)} (hpty : 2 < c.ptyFd) (hs : Ready c s w)
    (h : Exec (· = ·) (Sem c.ptyFd) (turn c s) w tr (.returned (.inl t)) w') : Ready c t w' := by
  have htable : Exec (· = ·) Answers (turn c s) w.table _ (.returned (.inl t)) w'.table :=
    exec_part h fun hsem => hsem.1
  obtain ⟨hmoves, hkept⟩ := turn_moves hs.apart htable
  obtain ⟨_, t₁, t₂, v, rfl, hlimits, hrest⟩ := exec_bind h
  have hidle : (workLimitsOk c.wlimit s.totalBytesRead s.totalBytesWritten).Uses Idle :=
    workLimitsOk_uses trivial _ _ _
  have hv : v = w := ((idle_keeps hidle).exec hlimits).2 () rfl
  subst hv
  obtain ⟨r, t₃, t₄, v', rfl, hio, hend⟩ := exec_bind hrest
  have hpost := ((handleIo_keeps hpty hs).exec hio).2 r rfl
  cases r with
  | none =>
      obtain ⟨-, hne, -⟩ := exec_ret hend
      cases hne
  | some s' =>
      obtain ⟨-, heq, rfl⟩ := exec_ret hend
      obtain rfl := Sum.inl.inj heq
      exact ⟨hpost.2, hs.apart.moves hmoves hkept, hs.stdin.moves hmoves, hs.child.moves hmoves,
        hpost.1⟩

end Runs

/-- For every run of the loop with a pseudo terminal, which is not one of the standard descriptors,
and with all descriptors open and different at the start, whatever the reads bring and each `write`
of `write_loop` takes: between the calls of `handle_io`, and after a call, what has been written to
the child and what is in the buffer is what has been read from the terminal; the terminal is read
only when all of that has been written. -/
theorem terminal_input_in_order {c : Setup} {method : Option ConnectMethod}
    {pipeOut pipeErr ctlFd : ℤ} {s : State} {w₀ w : World}
    {turns : List (State × List (Step World IoRes))} (husePty : c.usePty = true)
    (hpty : 2 < c.ptyFd) (hapart : Apart c (start c method pipeOut pipeErr ctlFd) w₀.table)
    (hnone : w₀.delivered = [] ∧ w₀.taken = [])
    (hrun : Turns (Sem c.ptyFd) (fun s => expand carriedOut (turn c s))
      (start c method pipeOut pipeErr ctlFd) w₀ turns s w) :
    w.delivered ++ s.io.masterBuf.data = w.taken.flatten ∧ s.io.masterBuf.avail ≤ bufsiz ∧
      ∀ tr out w', Exec (· = ·) (Sem c.ptyFd) (expand carriedOut (handleIo c s)) w tr out w' →
        (∀ u ∈ tr, ∀ size, u.event.1 = .read 0 size →
          u.before.delivered = u.before.taken.flatten ∧ size = bufsiz) ∧
        ∀ r, out = .returned r →
          w'.delivered ++ (r.getD s).io.masterBuf.data = w'.taken.flatten := by
  obtain ⟨turns', hturns⟩ := turns_expand (carriedOut_implements (sem_writes c.ptyFd)) hrun
  have hs : Ready c s w := hturns.invariant (P := fun _ => True) (fun _ _ => trivial)
    (start_ready husePty hpty hapart hnone) fun _ hs hturn => turn_ready hpty hs hturn
  refine ⟨hs.delivers, s.io.masterBuf.le, ?_⟩
  intro tr out w' hio
  have hcalls : Keeps c.ptyFd (expand carriedOut (handleIo c s)) _ w :=
    ensures_expand (handleIo_keeps hpty hs) fun o v hcheck =>
      carriedOut_ensures (sem_writes c.ptyFd) (fun _ _ _ _ _ => trivial) (fun _ _ _ _ h => h) o v
        hcheck
  obtain ⟨hsteps, hpost⟩ := hcalls.exec hio
  constructor
  · rintro ⟨v, ⟨o, r⟩, v'⟩ hu size rfl
    exact hsteps _ hu rfl
  · intro r hr
    exact (hpost r hr).1

/-! Two bytes, of which a `write` takes one before the next one fails. -/

private def ptySetup : Setup :=
  { wlimit := {}, usePty := true, ptyFd := 5, logFd := -1, x11Key := [], x11DataLen := 0
    scanHex := fun _ => none }

private def ptyStart : State := start ptySetup none (-1) (-1) (-1)

private def typed : Buffer := Buffer.empty.fill ⟨[97, 98], by decide⟩

private def typedState : State := { ptyStart with io := { ptyStart.io with masterBuf := typed } }

private def writtenState : State :=
  { ptyStart with
    totalBytesRead := 2
    io := { ptyStart.io with masterBuf := typed.consume 1 } }

private theorem ptyTable_fresh :
    ∀ n f, (if n < 6 then some n else none : Option ℕ) = some f → f < 6 := by
  intro n f h
  split_ifs at h with hn
  obtain rfl := Option.some.inj h
  exact hn

private def ptyTable : Table where
  files := fun n => if n < 6 then some n else none
  next := 6
  fresh := ptyTable_fresh

private def atStart : World := ⟨ptyTable, [], []⟩

private def atTyped : World := ⟨ptyTable, [], [[97, 98]]⟩

private def atWritten : World := ⟨ptyTable, [97], [[97, 98]]⟩

private def typedTurn : List (Step World IoRes) :=
  [⟨atStart, ⟨.sigalrmArrived, false⟩, atStart⟩, ⟨atStart, ⟨.sigwinchArrived, false⟩, atStart⟩,
    ⟨atStart, ⟨.childPid, true⟩, atStart⟩,
    ⟨atStart, ⟨.pselect [0, 5] [] 0, .ready ⟨[0], by simp⟩ noneReady⟩, atStart⟩,
    ⟨atStart, ⟨.read 0 bufsiz, some ⟨[97, 98], by decide⟩⟩, atTyped⟩]

private def writtenTurn : List (Step World IoRes) :=
  [⟨atTyped, ⟨.sigalrmArrived, false⟩, atTyped⟩, ⟨atTyped, ⟨.sigwinchArrived, false⟩, atTyped⟩,
    ⟨atTyped, ⟨.childPid, true⟩, atTyped⟩,
    ⟨atTyped, ⟨.pselect [5] [5] 0, .ready ⟨[], by simp⟩ ⟨[5], by simp⟩⟩, atTyped⟩,
    ⟨atTyped, ⟨.write 5 [97, 98], some 1⟩, atWritten⟩, ⟨atWritten, ⟨.write 5 [98], none⟩, atWritten⟩]

private theorem ptyTurns_run : Turns (Sem 5) (fun s => expand carriedOut (turn ptySetup s)) ptyStart
    atStart [(ptyStart, typedTurn), (typedState, writtenTurn)] writtenState atWritten := by
  have htyped : Runs (expand carriedOut (turn ptySetup ptyStart)) (typedTurn.map Step.event)
      (.returned (.inl typedState)) := Prog.runs_of_replay rfl
  have hwritten : Runs (expand carriedOut (turn ptySetup typedState)) (writtenTurn.map Step.event)
      (.returned (.inl writtenState)) := Prog.runs_of_replay rfl
  have hfirst : Chained (· = ·) (Sem 5) atStart typedTurn atTyped :=
    ⟨rfl, ⟨rfl, rfl, rfl⟩, rfl, ⟨rfl, rfl, rfl⟩, rfl, ⟨rfl, rfl, rfl⟩, rfl, ⟨rfl, rfl, rfl⟩, rfl,
      ⟨rfl, rfl, rfl⟩, rfl⟩
  have hsecond : Chained (· = ·) (Sem 5) atTyped writtenTurn atWritten :=
    ⟨rfl, ⟨rfl, rfl, rfl⟩, rfl, ⟨rfl, rfl, rfl⟩, rfl, ⟨rfl, rfl, rfl⟩, rfl, ⟨rfl, rfl, rfl⟩, rfl,
      ⟨rfl, rfl, rfl⟩, rfl, ⟨rfl, rfl, rfl⟩, rfl⟩
  exact .next (htyped.exec hfirst) (.next (hwritten.exec hsecond) (.none _ _))

/-- The other byte is the one that is left. -/
theorem terminal_input_in_order_sample :
    [97] ++ writtenState.io.masterBuf.data = [97, 98] := by
  have hapart : Apart ptySetup (start ptySetup none (-1) (-1) (-1)) atStart.table :=
    ⟨⟨by decide, by decide⟩, by decide⟩
  have hdelivered := terminal_input_in_order rfl (by decide) hapart ⟨rfl, rfl⟩ ptyTurns_run
  exact hdelivered.1

end HasherPriv.IoLoop.TerminalInput
