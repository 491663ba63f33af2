/- GID: HasherPriv/IoLoop/InputCount
   layer: input and output loop
   source: parent.c
   digest: The counter of the input limit against what has been written to the child. -/

import HasherPriv.IoLoop.TerminalInput

set_option autoImplicit false
set_option relaxedAutoImplicit false

namespace HasherPriv.IoLoop.InputCount

open Foundations.ByteString (Bytes)
open Foundations.Program
open Foundations.Contracts
open Foundations.Handles
open Calls
open Log (xwriteAll ulongSize)
open X11 (ConnectMethod)
open Parent
open Descriptors
open TerminalInput (World Sem sent LogsOnly)

/-- The descriptor of the child's input; without a pseudo terminal there is none. -/
def childInput (c : Setup) : ℤ := if c.usePty then c.ptyFd else -1

/-- The counter is the number of bytes that have been written. -/
def Counted (s : State) (w : World) : Prop := s.totalBytesRead = w.delivered.length

/-- It is so between the turns. -/
def CountedThroughout (c : Setup) (s₀ : State) (w₀ : World)
    (turns : List (State × List (Step World IoRes))) : Prop :=
  ∀ earlier later s w, turns = earlier ++ later →
    Turns (Sem (childInput c)) (turn c) s₀ w₀ earlier s w → Counted s w

/-- A `write_loop` to the child that writes something writes all that it is given. -/
def FullWrite (pty : ℤ) : (o : IoOp) → IoRes o → Prop
  | .write fd data, some n => fd = pty → n.val ≠ 0 → n.val = data.length
  | _, _ => True

abbrev Full (pty : ℤ) (tr : List (Step World IoRes)) : Prop :=
  ∀ u ∈ tr, FullWrite pty u.event.1 u.event.2

/-! Calls that do not write to the child. -/

section Quiet

variable {α : Type} {pty : ℤ} {w w' : World} {p : IoProg α} {tr : List (Step World IoRes)}
  {out : Outcome α}

def Elsewhere (pty : ℤ) : IoOp → Prop
  | .write fd _ | .writeAll fd _ _ => fd ≠ pty
  | _ => True

theorem sent_of_elsewhere {o : IoOp} {r : IoRes o} (h : Elsewhere pty o) : sent pty o r = [] := by
  cases o with
  | write fd data => exact if_neg h
  | writeAll fd data total => exact if_neg h
  | _ => rfl

theorem fullWrite_of_elsewhere {o : IoOp} {r : IoRes o} (h : Elsewhere pty o) :
    FullWrite pty o r := by
  cases o with
  | write fd data =>
      cases r with
      | none => trivial
      | some n =>
          intro hfd
          exact absurd hfd h
  | _ => trivial

/-- What has been written is what the calls have sent, one after the other. -/
theorem exec_delivered (h : Exec (· = ·) (Sem pty) p w tr out w') :
    w'.delivered = w.delivered ++ tr.flatMap fun u => sent pty u.event.1 u.event.2 := by
  induction h with
  | ret a w => exact (List.append_nil _).symm
  | die why w => exact (List.append_nil _).symm
  | cut p w => exact (List.append_nil _).symm
  | call hadv hsem hrest ih =>
      subst hadv
      obtain ⟨-, hdelivered, -⟩ := hsem
      rw [ih, hdelivered, List.flatMap_cons, List.append_assoc]

theorem elsewhere_exec (h : Exec (· = ·) (Sem pty) p w tr out w')
    (htr : ∀ u ∈ tr, Elsewhere pty u.event.1) : w'.delivered = w.delivered ∧ Full pty tr := by
  constructor
  · have hnone : tr.flatMap (fun u => sent pty u.event.1 u.event.2) = [] := by
      apply List.flatMap_eq_nil_iff.mpr
      intro u hu
      exact sent_of_elsewhere (htr u hu)
    rw [exec_delivered h, hnone, List.append_nil]
  · intro u hu
    exact fullWrite_of_elsewhere (htr u hu)

/-- The calls that also leave the descriptors alone. -/
def Calm (pty : ℤ) : IoOp → Prop
  | .childPid | .sigalrmArrived | .sigwinchArrived | .ttyCopyWinsize _ _ | .pselect _ _ _
  | .read _ _ => True
  | .writeAll fd _ _ => fd ≠ pty
  | _ => False

theorem elsewhere_of_calm {o : IoOp} (h : Calm pty o) : Elsewhere pty o := by
  cases o with
  | writeAll fd data total => exact h
  | write fd data => exact h.elim
  | _ => trivial

theorem table_of_calm {o : IoOp} {r : IoRes o} {t t' : Table} (h : Calm pty o)
    (hanswers : Answers o t r t') : t' = t := by
  cases o with
  | childPid => exact hanswers
  | sigalrmArrived => exact hanswers
  | sigwinchArrived => exact hanswers
  | ttyCopyWinsize master slave => exact hanswers
  | pselect reads writes timeout => exact hanswers
  | read fd size => exact hanswers
  | writeAll fd data total => exact hanswers
  | _ => exact h.elim

theorem calm_exec (hp : p.Uses (Calm pty)) (h : Exec (· = ·) (Sem pty) p w tr out w') :
    (w'.table = w.table ∧ w'.delivered = w.delivered) ∧ Full pty tr := by
  obtain ⟨hdelivered, hfull⟩ := elsewhere_exec h fun u hu =>
    elsewhere_of_calm (h.runs.uses hp u.event (List.mem_map_of_mem hu))
  refine ⟨⟨?_, hdelivered⟩, hfull⟩
  clear hdelivered hfull
  induction h with
  | ret a w => rfl
  | die why w => rfl
  | cut p w => rfl
  | call hadv hsem hrest ih =>
      subst hadv
      rw [ih (hp.2 _)]
      exact table_of_calm hp.1 hsem.1

theorem copyChild_calm {masterFd : ℤ} (hmaster : masterFd ≠ pty) (reads : FdSet) (slaveFd : ℤ)
    (total : ℕ) : (copyChild reads slaveFd masterFd total).Uses (Calm pty) := by
  unfold copyChild
  by_cases hready : fdsIsset reads slaveFd = true
  · rw [if_neg (not_not.mpr hready)]
    refine (uses_op (show Calm pty (.read slaveFd bufsiz) from trivial)).bind ?_
    intro r
    cases r with
    | none => trivial
    | some data =>
        show Prog.Uses _ (ite _ _ _)
        by_cases hnil : data.val = []
        · rw [if_pos hnil]
          trivial
        · rw [if_neg hnil]
          have hwrites : ∀ data total, Calm pty (.writeAll masterFd data total) := by
            intro data total
            exact hmaster
          exact (Log.xwriteAll_uses hwrites data.val total).bind fun _ => trivial
  · rw [if_pos hready]
    trivial

theorem readTty_calm (reads : FdSet) (s : State) : (readTty reads s).Uses (Calm pty) := by
  unfold readTty
  split_ifs with hready
  · refine (uses_op (show Calm pty (.read s.io.masterReadFd bufsiz) from trivial)).bind ?_
    intro r
    cases r <;> trivial
  · trivial

end Quiet

/-! One call of `handle_io`. -/

/-- What a part of the loop does to the counter: it adds `asked`, and `took` bytes are written. -/
structure Counts (pty : ℤ) (n : ℕ) (w : World) (tr : List (Step World IoRes)) (n' : ℕ) (w' : World)
    (asked took : ℕ) : Prop where
  le : took ≤ asked
  bound : asked ≤ bufsiz
  full : Full pty tr ↔ took = asked
  counter : n' = (n + asked) % ulongSize
  delivered : w'.delivered.length = w.delivered.length + took

section Counting

variable {pty : ℤ} {w v w' : World} {n n' asked took : ℕ} {tr tr' : List (Step World IoRes)}

theorem full_append : Full pty (tr ++ tr') ↔ Full pty tr ∧ Full pty tr' := List.forall_mem_append

theorem counts_nothing (hn : n < ulongSize) (hw : w'.delivered = w.delivered)
    (hfull : Full pty tr) : Counts pty n w tr n w' 0 0 := by
  constructor
  · exact le_rfl
  · exact Nat.zero_le _
  · exact iff_of_true hfull rfl
  · rw [Nat.add_zero, Nat.mod_eq_of_lt hn]
  · rw [hw, Nat.add_zero]

theorem Counts.after (h : Counts pty n v tr' n' w' asked took) (hv : v.delivered = w.delivered)
    (hfull : Full pty tr) : Counts pty n w (tr ++ tr') n' w' asked took := by
  obtain ⟨hle, hbound, hiff, hcounter, hdelivered⟩ := h
  constructor
  · exact hle
  · exact hbound
  · rw [← hiff, full_append]
    exact and_iff_right hfull
  · exact hcounter
  · rw [← hv]
    exact hdelivered

theorem Counts.before (h : Counts pty n w tr n' v asked took) (hv : w'.delivered = v.delivered)
    (hfull : Full pty tr') : Counts pty n w (tr ++ tr') n' w' asked took := by
  obtain ⟨hle, hbound, hiff, hcounter, hdelivered⟩ := h
  constructor
  · exact hle
  · exact hbound
  · rw [← hiff, full_append]
    exact and_iff_left hfull
  · exact hcounter
  · rw [hv]
    exact hdelivered

/-- The counter stays right when everything is written, and does not become right otherwise. -/
theorem Counts.counted_iff (h : Counts pty n w tr n' w' asked took)
    (hn : n = w.delivered.length) :
    n' = w'.delivered.length ↔ Full pty tr ∧ w'.delivered.length < ulongSize := by
  obtain ⟨hle, hbound, hiff, hcounter, hdelivered⟩ := h
  have hasked : asked ≤ 8192 := hbound
  have hsize : ulongSize = 2 ^ 64 := rfl
  rw [hiff, hdelivered, ← hn, hcounter, hsize]
  omega

/-- Where the descriptors of the child are. -/
structure Plugged (pty : ℤ) (s : State) : Prop where
  child : s.io.slaveWriteFd = pty
  output : s.io.masterWriteOutFd ≠ pty
  error : s.io.masterWriteErrFd ≠ pty

variable {reads writes : FdSet} {s t : State} {c : Setup}

/-- All of the buffer is counted, also what has not been written. -/
theorem writeChild_counts {r : Option State} (hs : Plugged pty s)
    (hlt : s.totalBytesRead < ulongSize)
    (h : Exec (· = ·) (Sem pty) (writeChild writes s) w tr (.returned r) w') :
    w'.table = w.table ∧ Plugged pty (r.getD s) ∧ owned c (r.getD s) = owned c s ∧
      ∃ asked took, Counts pty s.totalBytesRead w tr (r.getD s).totalBytesRead w' asked took := by
  unfold writeChild at h
  by_cases hready : s.io.masterBuf.avail ≠ 0 ∧ fdsIsset writes s.io.slaveWriteFd = true
  · rw [if_pos hready] at h
    obtain ⟨_, v, answer, rest, rfl, rfl, hsem, hrest⟩ := exec_call h
    obtain ⟨htable, hdelivered, -⟩ := hsem
    have hsent : sent pty (.write s.io.slaveWriteFd s.io.masterBuf.data) answer =
        s.io.masterBuf.data.take (answer.elim 0 Fin.val) := if_pos hs.child
    rw [hsent] at hdelivered
    cases answer with
    | none =>
        obtain ⟨rfl, rfl, rfl⟩ := exec_ret hrest
        have hnone : w'.delivered = w.delivered := by
          rw [hdelivered]
          exact List.append_nil _
        refine ⟨htable, hs, rfl, 0, 0, counts_nothing hlt hnone ?_⟩
        intro u hu
        rw [List.mem_singleton.mp hu]
        trivial
    | some k =>
        change Exec (· = ·) (Sem pty) (ite _ _ _) _ _ _ _ at hrest
        by_cases hzero : k.val = 0
        · rw [if_pos hzero] at hrest
          obtain ⟨rfl, rfl, rfl⟩ := exec_ret hrest
          have hnone : w'.delivered = w.delivered := by
            rw [hdelivered]
            show w.delivered ++ s.io.masterBuf.data.take k.val = _
            rw [hzero, List.take_zero, List.append_nil]
          refine ⟨htable, hs, rfl, 0, 0, counts_nothing hlt hnone ?_⟩
          intro u hu
          rw [List.mem_singleton.mp hu]
          intro _ hne
          exact absurd hzero hne
        · rw [if_neg hzero] at hrest
          obtain ⟨rfl, rfl, rfl⟩ := exec_ret hrest
          have hlength : s.io.masterBuf.data.length = s.io.masterBuf.avail :=
            Buffer.data_length _
          have hle : k.val ≤ s.io.masterBuf.avail := by
            have hk := k.isLt
            omega
          refine ⟨htable, ⟨hs.child, hs.output, hs.error⟩, rfl, s.io.masterBuf.avail, k.val, ?_⟩
          constructor
          · exact hle
          · exact s.io.masterBuf.le
          · rw [← hlength]
            constructor
            · intro hfull
              exact hfull _ List.mem_cons_self hs.child hzero
            · intro htook u hu
              rw [List.mem_singleton.mp hu]
              intro _ _
              exact htook
          · rfl
          · rw [hdelivered, List.length_append]
            show _ + (s.io.masterBuf.data.take k.val).length = _
            rw [List.length_take_of_le (Nat.le_of_lt_succ k.isLt)]
  · rw [if_neg hready] at h
    obtain ⟨rfl, rfl, rfl⟩ := exec_ret h
    exact ⟨rfl, hs, rfl, 0, 0, counts_nothing hlt rfl fun u hu => absurd hu List.not_mem_nil⟩

theorem readTty_plugged (hs : Plugged pty s) :
    Ensures (Sem pty) (fun _ _ _ _ => True) (readTty reads s) (fun t _ => Plugged pty t ∧
      owned c t = owned c s ∧ t.totalBytesRead = s.totalBytesRead) w := by
  obtain ⟨hchild, hout, herr⟩ := hs
  unfold readTty
  split_ifs with hready
  · intro r w' hsem
    refine ⟨trivial, ?_⟩
    cases r with
    | none => exact ⟨⟨hchild, hout, herr⟩, rfl, rfl⟩
    | some data => exact ⟨⟨hchild, hout, herr⟩, rfl, rfl⟩
  · exact ⟨⟨hchild, hout, herr⟩, rfl, rfl⟩

theorem handleCtl_total {tr : List (Event IoRes)}
    (h : Runs (handleCtl c reads s) tr (.returned t)) : t.totalBytesRead = s.totalBytesRead := by
  unfold handleCtl at h
  by_cases hready : fdsIsset reads s.ctlFd = true
  · rw [if_neg (not_not.mpr hready)] at h
    obtain ⟨found, _, rest, -, -, hfound⟩ := returns_bind.mp h
    obtain ⟨method, _, closing, -, -, hmethod⟩ := returns_bind.mp hfound
    obtain ⟨_, _, last, -, -, hlast⟩ := returns_bind.mp hmethod
    obtain ⟨-, rfl⟩ := returns_ret.mp hlast
    rfl
  · rw [if_pos hready] at h
    obtain ⟨-, rfl⟩ := returns_ret.mp h
    rfl

theorem handleOthers_total {tr : List (Event IoRes)}
    (h : Runs (handleOthers c reads writes s) tr (.returned t)) :
    t.totalBytesRead = s.totalBytesRead := by
  obtain ⟨relayed, _, _, -, -, hrelayed⟩ := returns_bind.mp h
  obtain ⟨accepted, _, _, -, -, haccepted⟩ := returns_bind.mp hrelayed
  obtain ⟨logs, _, _, -, -, hlogs⟩ := returns_bind.mp haccepted
  obtain ⟨fdList, _, _, -, -, hctl⟩ := returns_bind.mp hlogs
  have htotal := handleCtl_total hctl
  exact htotal

/-- The other handlers have descriptors of their own. -/
theorem handleOthers_elsewhere (howns : Owns w.table (owned c s))
    (hother : ∀ n ∈ owned c s, (n : ℤ) ≠ pty) (hlog : 2 ≠ pty) :
    Ensures (Sem pty) (fun o _ _ _ => Elsewhere pty o) (handleOthers c reads writes s)
      (fun t _ => t.io = s.io) w := by
  have huses : (handleOthers c reads writes s).Uses LogsOnly := by
    apply handleOthers_uses
    · intro o ho
      cases o with
      | writeAll fd data total => exact ho.elim
      | _ => trivial
    · intro data total
      rfl
  have hworld : Ensures (Sem pty) _ (handleOthers c reads writes s) _ w :=
    (handleOthers_actsOn howns).comap fun hsem => hsem.1
  refine (hworld.also (I := fun _ => True) huses trivial ?_).mono fun t w' hpost => hpost.1.2
  intro o v r v' hlogs hacts _ _
  refine ⟨?_, trivial⟩
  cases o with
  | write fd data =>
      obtain ⟨n, hn, rfl⟩ := hacts .writes fd rfl
      exact hother n hn
  | writeAll fd data total =>
      have hfd : fd = 2 := hlogs
      show fd ≠ pty
      rw [hfd]
      exact hlog
  | _ => trivial

/-- The child's input is nobody else's. -/
theorem apart_other {t : Table} (hs : Plugged pty s) (hapart : Apart c s t) :
    ∀ n ∈ owned c s, (n : ℤ) ≠ pty := by
  intro n hn hpty
  have hkept : n ∈ kept s := by
    have hnumber : n ∈ number s.io.slaveWriteFd := by
      rw [hs.child, ← hpty, number_natCast]
      exact List.mem_singleton.mpr rfl
    exact List.mem_append_right _ (List.mem_append_right _ (List.mem_append_left _ hnumber))
  exact (hapart.others n hkept).1 hn

/-- The part of `handle_io` behind `pselect`. -/
theorem handleReady_counts {r : Option State} (hs : Plugged pty s)
    (hlt : s.totalBytesRead < ulongSize) (hapart : Apart c s w.table) (hlog : 2 ≠ pty)
    (h : Exec (· = ·) (Sem pty) (handleReady c reads writes s) w tr (.returned r) w') :
    Plugged pty (r.getD s) ∧
      ∃ asked took, Counts pty s.totalBytesRead w tr (r.getD s).totalBytesRead w' asked took := by
  rw [handleReady_eq] at h
  obtain ⟨err, t₁, _, w₁, rfl, hcopyErr, hrest₁⟩ := exec_bind h
  obtain ⟨out, t₂, _, w₂, rfl, hcopyOut, hrest₂⟩ := exec_bind hrest₁
  obtain ⟨⟨htable₁, hdelivered₁⟩, hfull₁⟩ := calm_exec (copyChild_calm hs.error reads _ _) hcopyErr
  obtain ⟨⟨htable₂, hdelivered₂⟩, hfull₂⟩ := calm_exec (copyChild_calm hs.output reads _ _) hcopyOut
  let s₀ : State :=
    { s with
      totalBytesWritten := out.2
      io := { s.io with slaveReadErrFd := err.1, slaveReadOutFd := out.1 } }
  have hs₀ : Plugged pty s₀ := ⟨hs.child, hs.output, hs.error⟩
  obtain ⟨written, t₃, _, w₃, rfl, hwrite, hrest₃⟩ := exec_bind hrest₂
  obtain ⟨htable₃, hs₁, howned₁, asked, took, hcounts⟩ := writeChild_counts (c := c) hs₀ hlt hwrite
  cases written with
  | none =>
      obtain ⟨rfl, rfl, rfl⟩ := exec_ret hrest₃
      rw [List.append_nil]
      exact ⟨hs, asked, took, (hcounts.after hdelivered₂ hfull₂).after hdelivered₁ hfull₁⟩
  | some s₁ =>
      obtain ⟨s₂, t₄, _, w₄, rfl, htty, hrest₄⟩ := exec_bind hrest₃
      obtain ⟨s₃, t₅, _, w₅, rfl, hothers, hend⟩ := exec_bind hrest₄
      obtain ⟨rfl, rfl, rfl⟩ := exec_ret hend
      obtain ⟨⟨htable₄, hdelivered₄⟩, hfull₄⟩ := calm_exec (readTty_calm reads s₁) htty
      obtain ⟨hs₂, howned₂, htotal₂⟩ := ((readTty_plugged hs₁).exec htty).2 s₂ rfl
      have htable : w₄.table = w.table :=
        htable₄.trans (htable₃.trans (htable₂.trans htable₁))
      have howned : owned c s₂ = owned c s := howned₂.trans howned₁
      have howns : Owns w₄.table (owned c s₂) := by
        rw [htable, howned]
        exact hapart.owns
      have hother : ∀ n ∈ owned c s₂, (n : ℤ) ≠ pty := by
        rw [howned]
        exact apart_other hs hapart
      obtain ⟨helsewhere, hio⟩ := (handleOthers_elsewhere howns hother hlog).exec hothers
      obtain ⟨hdelivered₅, hfull₅⟩ := elsewhere_exec hothers helsewhere
      have htotal₃ : s₃.totalBytesRead = s₁.totalBytesRead :=
        (handleOthers_total hothers.runs).trans htotal₂
      refine ⟨?_, asked, took, ?_⟩
      · have hio₃ : s₃.io = s₂.io := hio s₃ rfl
        constructor
        · rw [Option.getD_some, hio₃]
          exact hs₂.child
        · rw [Option.getD_some, hio₃]
          exact hs₂.output
        · rw [Option.getD_some, hio₃]
          exact hs₂.error
      · rw [Option.getD_some, htotal₃]
        apply Counts.after _ hdelivered₁ hfull₁
        apply Counts.after _ hdelivered₂ hfull₂
        apply hcounts.before
        · exact hdelivered₅.trans hdelivered₄
        · rw [List.append_nil]
          exact full_append.mpr ⟨hfull₄, hfull₅⟩

/-- What holds between two calls of `handle_io`. -/
structure Live (c : Setup) (s : State) (w : World) : Prop where
  plugged : Plugged (childInput c) s
  apart : Apart c s w.table
  bounded : s.totalBytesRead < ulongSize

theorem handleIo_counts {r : Option State} (hs : Live c s w) (hlog : 2 ≠ childInput c)
    (h : Exec (· = ·) (Sem (childInput c)) (handleIo c s) w tr (.returned r) w') :
    Plugged (childInput c) (r.getD s) ∧ ∃ asked took,
      Counts (childInput c) s.totalBytesRead w tr (r.getD s).totalBytesRead w' asked took := by
  obtain ⟨hplugged, hapart, hlt⟩ := hs
  have hselect : (selectFds c s).Uses (Calm (childInput c)) :=
    selectFds_uses trivial (fun _ => trivial) trivial c s
  obtain ⟨sets, t₁, _, v, rfl, hselected, hrest⟩ := exec_bind h
  obtain ⟨⟨htable, hdelivered⟩, hfull⟩ := calm_exec hselect hselected
  cases sets with
  | none =>
      obtain ⟨rfl, rfl, rfl⟩ := exec_ret hrest
      refine ⟨hplugged, 0, 0, ?_⟩
      rw [List.append_nil]
      exact counts_nothing hlt hdelivered hfull
  | some sets =>
      obtain ⟨answer, t₂, _, v', rfl, hasked, hanswered⟩ := exec_bind hrest
      have hcalm : (ioCall (.pselect sets.reads sets.writes c.wlimit.timeIdle)).Uses
          (Calm (childInput c)) := uses_op trivial
      obtain ⟨⟨htable', hdelivered'⟩, hfull'⟩ := calm_exec hcalm hasked
      have hnothing : Counts (childInput c) s.totalBytesRead w (t₁ ++ (t₂ ++ []))
          s.totalBytesRead v' 0 0 := by
        rw [List.append_nil]
        exact counts_nothing hlt (hdelivered'.trans hdelivered) (full_append.mpr ⟨hfull, hfull'⟩)
      cases answer with
      | timeout => cases hanswered
      | interrupted =>
          obtain ⟨rfl, rfl, rfl⟩ := exec_ret hanswered
          exact ⟨hplugged, 0, 0, hnothing⟩
      | failed =>
          obtain ⟨rfl, rfl, rfl⟩ := exec_ret hanswered
          exact ⟨hplugged, 0, 0, hnothing⟩
      | ready reads writes =>
          rw [← htable, ← htable'] at hapart
          obtain ⟨hplugged', asked, took, hcounts⟩ :=
            handleReady_counts hplugged hlt hapart hlog hanswered
          exact ⟨hplugged', asked, took, (hcounts.after hdelivered' hfull').after hdelivered hfull⟩

theorem turn_counts (hs : Live c s w) (hlog : 2 ≠ childInput c)
    (h : Exec (· = ·) (Sem (childInput c)) (turn c s) w tr (.returned (.inl t)) w') :
    Live c t w' ∧ ∃ asked took,
      Counts (childInput c) s.totalBytesRead w tr t.totalBytesRead w' asked took := by
  have htable : Exec (· = ·) Answers (turn c s) w.table _ (.returned (.inl t)) w'.table :=
    exec_part h fun hsem => hsem.1
  have hlimits : (workLimitsOk c.wlimit s.totalBytesRead s.totalBytesWritten).Uses
      (Calm (childInput c)) := workLimitsOk_uses trivial _ _ _
  obtain ⟨_, t₁, _, v, rfl, hchecked, hrest⟩ := exec_bind h
  obtain ⟨⟨hsame, hdelivered⟩, hfull⟩ := calm_exec hlimits hchecked
  obtain ⟨r, t₂, _, v', rfl, hio, hend⟩ := exec_bind hrest
  cases r with
  | none =>
      obtain ⟨-, hne, -⟩ := exec_ret hend
      cases hne
  | some s' =>
      obtain ⟨rfl, heq, rfl⟩ := exec_ret hend
      obtain rfl := Sum.inl.inj heq
      have hs' : Live c s v := by
        refine ⟨hs.plugged, ?_, hs.bounded⟩
        rw [hsame]
        exact hs.apart
      obtain ⟨hplugged, asked, took, hcounts⟩ := handleIo_counts hs' hlog hio
      refine ⟨⟨hplugged, turn_apart hs.apart htable, ?_⟩, asked, took, ?_⟩
      · have hcounter : t.totalBytesRead = (s.totalBytesRead + asked) % ulongSize := hcounts.counter
        rw [hcounter]
        exact Nat.mod_lt _ (by decide)
      · rw [List.append_nil]
        exact hcounts.after hdelivered hfull

end Counting

/-! Runs. -/

section Runs

variable {c : Setup} {s t : State} {w v : World} {turns : List (State × List (Step World IoRes))}

theorem start_live {method : Option ConnectMethod} {pipeOut pipeErr ctlFd : ℤ}
    (hpty : c.usePty = true → 2 < c.ptyFd)
    (hapart : Apart c (start c method pipeOut pipeErr ctlFd) w.table) :
    2 ≠ childInput c ∧ Live c (start c method pipeOut pipeErr ctlFd) w := by
  have hstart : (start c method pipeOut pipeErr ctlFd).totalBytesRead < ulongSize := by
    show 0 < 2 ^ 64
    omega
  have hchild : (start c method pipeOut pipeErr ctlFd).io.slaveWriteFd = childInput c := rfl
  have hout : (start c method pipeOut pipeErr ctlFd).io.masterWriteOutFd = 1 := rfl
  have herr : (start c method pipeOut pipeErr ctlFd).io.masterWriteErrFd =
      if c.usePty then -1 else 2 := rfl
  by_cases husePty : c.usePty = true
  · have hinput : childInput c = c.ptyFd := if_pos husePty
    have hlarge := hpty husePty
    rw [if_pos husePty] at herr
    refine ⟨by omega, ⟨hchild, by omega, by omega⟩, hapart, hstart⟩
  · have hinput : childInput c = -1 := if_neg husePty
    rw [if_neg husePty] at herr
    refine ⟨by omega, ⟨hchild, by omega, by omega⟩, hapart, hstart⟩

theorem turns_live (hlog : 2 ≠ childInput c)
    (hrun : Turns (Sem (childInput c)) (turn c) s w turns t v) (hs : Live c s w) : Live c t v :=
  hrun.invariant (P := fun _ => True) (fun _ _ => trivial) hs
    fun _ hs hturn => (turn_counts hs hlog hturn).1

theorem turns_delivered {pty : ℤ} (hrun : Turns (Sem pty) (turn c) s w turns t v) :
    v.delivered = w.delivered ++
      turns.flatMap fun e => e.2.flatMap fun u => sent pty u.event.1 u.event.2 := by
  induction hrun with
  | none s w => exact (List.append_nil _).symm
  | next h hs ih => rw [ih, exec_delivered h, List.flatMap_cons, List.append_assoc]

/-- As long as everything is written at once the counter is right. -/
theorem counted_of_full (hlog : 2 ≠ childInput c)
    (hrun : Turns (Sem (childInput c)) (turn c) s w turns t v) (hs : Live c s w)
    (hcounted : Counted s w) (hfull : ∀ e ∈ turns, Full (childInput c) e.2)
    (hlt : v.delivered.length < ulongSize) : Counted t v := by
  induction hrun with
  | none s w => exact hcounted
  | next h hturns ih =>
      obtain ⟨hfirst, hrest⟩ := List.forall_mem_cons.mp hfull
      obtain ⟨hlive, asked, took, hcounts⟩ := turn_counts hs hlog h
      apply ih hlive _ hrest hlt
      apply (hcounts.counted_iff hcounted).mpr
      refine ⟨hfirst, ?_⟩
      rw [turns_delivered hturns, List.length_append] at hlt
      omega

/-- A turn that does not write everything makes it wrong. -/
theorem full_of_counted (hlog : 2 ≠ childInput c)
    (hrun : Turns (Sem (childInput c)) (turn c) s w turns t v) (hs : Live c s w)
    (h : CountedThroughout c s w turns) : ∀ e ∈ turns, Full (childInput c) e.2 := by
  induction hrun with
  | none s w => exact fun e he => absurd he List.not_mem_nil
  | @next s t u w v x tr turns hturn hturns ih =>
      obtain ⟨hlive, asked, took, hcounts⟩ := turn_counts hs hlog hturn
      have hbefore : Counted s w := h [] _ s w rfl (.none s w)
      have hafter : Counted t v := h [(s, tr)] turns t v rfl (.next hturn (.none t v))
      refine List.forall_mem_cons.mpr ⟨((hcounts.counted_iff hbefore).mp hafter).1, ?_⟩
      apply ih hlive
      intro earlier later s' w' hsplit hearlier
      apply h ((s, tr) :: earlier) later s' w' _ (.next hturn hearlier)
      rw [hsplit, List.cons_append]

end Runs

/-- For every run of the loop, whatever the reads bring and each `write_loop` takes, with the
descriptors open and different at the start: the counter is the number of bytes written to the child
between the turns and after one more call of `handle_io`, whether it succeeds or not, exactly when
each `write_loop` to the child that writes something has written all that it was given, and the
number fits the counter. -/
theorem input_counted_iff {c : Setup} {method : Option ConnectMethod} {pipeOut pipeErr ctlFd : ℤ}
    {s : State} {w₀ w w' : World} {turns : List (State × List (Step World IoRes))}
    {tr : List (Step World IoRes)} {r : Option State} (hpty : c.usePty = true → 2 < c.ptyFd)
    (hapart : Apart c (start c method pipeOut pipeErr ctlFd) w₀.table) (hnone : w₀.delivered = [])
    (hrun : Turns (Sem (childInput c)) (turn c) (start c method pipeOut pipeErr ctlFd) w₀ turns s w)
    (hlast : Exec (· = ·) (Sem (childInput c)) (handleIo c s) w tr (.returned r) w') :
    (CountedThroughout c (start c method pipeOut pipeErr ctlFd) w₀ turns ∧ Counted (r.getD s) w') ↔
      (∀ e ∈ turns, Full (childInput c) e.2) ∧ Full (childInput c) tr ∧
        w'.delivered.length < ulongSize := by
  obtain ⟨hlog, hstart⟩ := start_live hpty hapart
  have hs : Live c s w := turns_live hlog hrun hstart
  obtain ⟨-, asked, took, hcounts⟩ := handleIo_counts hs hlog hlast
  have hzero : Counted (start c method pipeOut pipeErr ctlFd) w₀ := by
    show 0 = w₀.delivered.length
    rw [hnone, List.length_nil]
  constructor
  · rintro ⟨hthroughout, hcounted⟩
    have hbefore : Counted s w := hthroughout turns [] s w (List.append_nil _).symm hrun
    have hlastFull := (hcounts.counted_iff hbefore).mp hcounted
    exact ⟨full_of_counted hlog hrun hstart hthroughout, hlastFull⟩
  · rintro ⟨hfull, hlastFull, hlt⟩
    have hgrown : w'.delivered.length = w.delivered.length + took := hcounts.delivered
    have hthroughout : CountedThroughout c (start c method pipeOut pipeErr ctlFd) w₀ turns := by
      intro earlier later s' v hsplit hearlier
      have hfit : v.delivered.length < ulongSize := by
        have hall := congrArg List.length (turns_delivered hrun)
        rw [hsplit, List.flatMap_append, ← List.append_assoc, ← turns_delivered hearlier,
          List.length_append] at hall
        omega
      apply counted_of_full hlog hearlier hstart hzero _ hfit
      intro e he
      apply hfull e
      rw [hsplit]
      exact List.mem_append_left _ he
    refine ⟨hthroughout, (hcounts.counted_iff ?_).mpr ⟨hlastFull, hlt⟩⟩
    exact hthroughout turns [] s w (List.append_nil _).symm hrun

/-! Two bytes are typed; the terminal takes one of them, or both. -/

private def countSetup : Setup :=
  { wlimit := {}, usePty := true, ptyFd := 5, logFd := -1, x11Key := [], x11DataLen := 0
    scanHex := fun _ => none }

private def countStart : State := start countSetup none (-1) (-1) (-1)

private theorem typedPair_length : ([97, 98] : Bytes).length ≤ bufsiz := by decide

private def typedPair : { d : Bytes // d.length ≤ bufsiz } := ⟨[97, 98], typedPair_length⟩

private def pairBuffer : Buffer := Buffer.empty.fill typedPair

private def pairState : State :=
  { countStart with io := { countStart.io with masterBuf := pairBuffer } }

private def halfState : State :=
  { countStart with
    totalBytesRead := 2
    io := { countStart.io with masterBuf := pairBuffer.consume 1 } }

private def wholeState : State :=
  { countStart with
    totalBytesRead := 2
    io := { countStart.io with masterBuf := pairBuffer.consume 2 } }

private theorem countTable_fresh :
    ∀ n f, (if n < 6 then some n else none : Option ℕ) = some f → f < 6 := by
  intro n f h
  by_cases hn : n < 6
  · rw [if_pos hn] at h
    obtain rfl := Option.some.inj h
    exact hn
  · rw [if_neg hn] at h
    cases h

private def countTable : Table where
  files := fun n => if n < 6 then some n else none
  next := 6
  fresh := countTable_fresh

private def beforePair : World := ⟨countTable, [], []⟩

private def afterPair : World := ⟨countTable, [], [[97, 98]]⟩

private def afterHalf : World := ⟨countTable, [97], [[97, 98]]⟩

private def afterWhole : World := ⟨countTable, [97, 98], [[97, 98]]⟩

private theorem terminalReady_subset : ([0] : FdSet) ⊆ [0, 5] := by simp

private def terminalReady : { fds : FdSet // fds ⊆ [0, 5] } := ⟨[0], terminalReady_subset⟩

private theorem childReady_subset : ([5] : FdSet) ⊆ [5] := List.Subset.refl [5]

private theorem nothingRead_subset : ([] : FdSet) ⊆ [5] := List.nil_subset [5]

private def childReady : { fds : FdSet // fds ⊆ [5] } := ⟨[5], childReady_subset⟩

private def nothingRead : { fds : FdSet // fds ⊆ [5] } := ⟨[], nothingRead_subset⟩

private theorem oneTaken_lt : 1 < ([97, 98] : Bytes).length + 1 := by decide

private theorem twoTaken_lt : 2 < ([97, 98] : Bytes).length + 1 := by decide

private def oneTaken : Fin (([97, 98] : Bytes).length + 1) := ⟨1, oneTaken_lt⟩

private def twoTaken : Fin (([97, 98] : Bytes).length + 1) := ⟨2, twoTaken_lt⟩

private def pairTurn : List (Step World IoRes) :=
  [⟨beforePair, ⟨.sigalrmArrived, false⟩, beforePair⟩,
    ⟨beforePair, ⟨.sigwinchArrived, false⟩, beforePair⟩,
    ⟨beforePair, ⟨.childPid, true⟩, beforePair⟩,
    ⟨beforePair, ⟨.pselect [0, 5] [] 0, .ready terminalReady noneReady⟩, beforePair⟩,
    ⟨beforePair, ⟨.read 0 bufsiz, some typedPair⟩, afterPair⟩]

private def halfTurn : List (Step World IoRes) :=
  [⟨afterPair, ⟨.sigalrmArrived, false⟩, afterPair⟩,
    ⟨afterPair, ⟨.sigwinchArrived, false⟩, afterPair⟩, ⟨afterPair, ⟨.childPid, true⟩, afterPair⟩,
    ⟨afterPair, ⟨.pselect [5] [5] 0, .ready nothingRead childReady⟩, afterPair⟩,
    ⟨afterPair, ⟨.write 5 [97, 98], some oneTaken⟩, afterHalf⟩]

private def wholeCall : List (Step World IoRes) :=
  [⟨afterPair, ⟨.sigwinchArrived, false⟩, afterPair⟩, ⟨afterPair, ⟨.childPid, true⟩, afterPair⟩,
    ⟨afterPair, ⟨.pselect [5] [5] 0, .ready nothingRead childReady⟩, afterPair⟩,
    ⟨afterPair, ⟨.write 5 [97, 98], some twoTaken⟩, afterWhole⟩]

private theorem pairTurn_exec : Exec (· = ·) (Sem 5) (turn countSetup countStart) beforePair
    pairTurn (.returned (.inl pairState)) afterPair := by
  have hruns : Runs (turn countSetup countStart) (pairTurn.map Step.event)
      (.returned (.inl pairState)) := Prog.runs_of_replay rfl
  apply hruns.exec
  exact ⟨rfl, ⟨rfl, rfl, rfl⟩, rfl, ⟨rfl, rfl, rfl⟩, rfl, ⟨rfl, rfl, rfl⟩, rfl,
    ⟨rfl, rfl, rfl⟩, rfl, ⟨rfl, rfl, rfl⟩, rfl⟩

private theorem halfTurn_exec : Exec (· = ·) (Sem 5) (turn countSetup pairState) afterPair halfTurn
    (.returned (.inl halfState)) afterHalf := by
  have hruns : Runs (turn countSetup pairState) (halfTurn.map Step.event)
      (.returned (.inl halfState)) := Prog.runs_of_replay rfl
  apply hruns.exec
  exact ⟨rfl, ⟨rfl, rfl, rfl⟩, rfl, ⟨rfl, rfl, rfl⟩, rfl, ⟨rfl, rfl, rfl⟩, rfl,
    ⟨rfl, rfl, rfl⟩, rfl, ⟨rfl, rfl, rfl⟩, rfl⟩

private theorem wholeCall_exec : Exec (· = ·) (Sem 5) (handleIo countSetup pairState) afterPair
    wholeCall (.returned (some wholeState)) afterWhole := by
  have hruns : Runs (handleIo countSetup pairState) (wholeCall.map Step.event)
      (.returned (some wholeState)) := Prog.runs_of_replay rfl
  apply hruns.exec
  exact ⟨rfl, ⟨rfl, rfl, rfl⟩, rfl, ⟨rfl, rfl, rfl⟩, rfl, ⟨rfl, rfl, rfl⟩, rfl,
    ⟨rfl, rfl, rfl⟩, rfl⟩

/-- When both are taken, two are counted. -/
theorem input_counted_iff_sample : Counted wholeState afterWhole := by
  have hapart : Apart countSetup (start countSetup none (-1) (-1) (-1)) beforePair.table :=
    ⟨⟨by decide, by decide⟩, by decide⟩
  have hrun : Turns (Sem (childInput countSetup)) (turn countSetup)
      (start countSetup none (-1) (-1) (-1)) beforePair [(countStart, pairTurn)] pairState
      afterPair :=
    .next pairTurn_exec (.none _ _)
  have hiff := input_counted_iff (fun _ => by decide) hapart rfl hrun wholeCall_exec
  refine (hiff.mpr ⟨?_, ?_, by decide⟩).2
  · intro e he
    rw [List.mem_singleton.mp he]
    simp only [pairTurn, List.forall_mem_cons]
    exact ⟨trivial, trivial, trivial, trivial, trivial, fun u hu => absurd hu List.not_mem_nil⟩
  · simp only [wholeCall, List.forall_mem_cons]
    refine ⟨trivial, trivial, trivial, ?_, fun u hu => absurd hu List.not_mem_nil⟩
    intro _ _
    rfl

/-- When one is taken, two are counted as well. -/
theorem input_counted_counterexample :
    Turns (Sem (childInput countSetup)) (turn countSetup) (start countSetup none (-1) (-1) (-1))
      beforePair [(countStart, pairTurn), (pairState, halfTurn)] halfState afterHalf ∧
    ¬ Counted halfState afterHalf := by
  refine ⟨.next pairTurn_exec (.next halfTurn_exec (.none _ _)), ?_⟩
  intro h
  cases h

end HasherPriv.IoLoop.InputCount
