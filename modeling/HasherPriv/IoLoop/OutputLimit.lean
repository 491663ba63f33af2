/- GID: HasherPriv/IoLoop/OutputLimit
   layer: input and output loop
   source: parent.c, io_log.c
   digest: How far the output of a run can go beyond its limit. -/

import HasherPriv.Foundations.Contracts
import HasherPriv.IoLoop.Parent
import Mathlib.Data.List.GetD

set_option autoImplicit false
set_option relaxedAutoImplicit false

namespace HasherPriv.IoLoop.OutputLimit

open Foundations.ByteString (Bytes)
open Foundations.Program
open Foundations.Contracts
open Calls
open Log
open X11
open Parent

/-! The world counts the bytes that `xwrite_all` has written. -/

/-- The bytes that a call takes for `xwrite_all`. -/
def taken : (o : IoOp) → IoRes o → ℕ
  | .writeAll _ _ _, some n => n.val
  | _, _ => 0

def Counts (o : IoOp) (w : ℕ) (r : IoRes o) (w' : ℕ) : Prop := w' = w + taken o r

/-- There are never more than this many bytes, and `xwrite_all` finds all of them counted. -/
def Below (bound : ℕ) : (o : IoOp) → ℕ → IoRes o → ℕ → Prop
  | .writeAll _ _ total, w, _, w' => total = w % ulongSize ∧ w' ≤ bound
  | _, _, _, w' => w' ≤ bound

/-- The calls of everything but `xwrite_all`. -/
def Silent : IoOp → Prop
  | .writeAll _ _ _ => False
  | _ => True

theorem taken_of_silent {o : IoOp} (h : Silent o) (r : IoRes o) : taken o r = 0 := by
  cases o with
  | writeAll fd data total => exact h.elim
  | _ => rfl

theorem below_of_silent {o : IoOp} {bound w w' : ℕ} {r : IoRes o} (h : Silent o)
    (hw : w' ≤ bound) : Below bound o w r w' := by
  cases o with
  | writeAll fd data total => exact h.elim
  | _ => exact hw

theorem Below.le {o : IoOp} {bound w w' : ℕ} {r : IoRes o} (h : Below bound o w r w') :
    w' ≤ bound := by
  cases o with
  | writeAll fd data total => exact h.2
  | _ => exact h

theorem Below.total {o : IoOp} {bound w w' : ℕ} {r : IoRes o} (h : Below bound o w r w')
    {fd : ℤ} {data : Bytes} {total : ℕ} (ho : o = .writeAll fd data total) :
    total = w % ulongSize := by
  subst ho
  exact h.1

/-- A part without `xwrite_all` leaves the count as it is. -/
theorem silent_ensures {α : Type} {p : IoProg α} {bound w : ℕ} (hp : p.Uses Silent)
    (hw : w ≤ bound) : Ensures Counts (Below bound) p (fun _ w' => w' = w) w := by
  refine ensures_of_uses (I := (· = w)) hp rfl ?_
  rintro o v r v' ho rfl hsem
  rw [Counts, taken_of_silent ho, Nat.add_zero] at hsem
  subst hsem
  exact ⟨below_of_silent ho hw, rfl⟩

theorem silent_of_handling {o : IoOp} (h : Handling o) : Silent o := by
  cases o with
  | writeAll fd data total => exact h.elim
  | _ => trivial

theorem handling_ensures {α : Type} {p : IoProg α} {bound w : ℕ} (hp : p.Uses Handling)
    (hw : w ≤ bound) : Ensures Counts (Below bound) p (fun _ w' => w' = w) w :=
  silent_ensures (hp.mono fun _ => silent_of_handling) hw

/-! One call of `xwrite_all`. -/

theorem xwriteAll_ensures {fd : ℤ} {buffer : Bytes} {total bound w : ℕ}
    (htotal : total = w % ulongSize) (hw : w + buffer.length ≤ bound) :
    Ensures Counts (Below bound) (xwriteAll fd buffer total)
      (fun t w' => t = w' % ulongSize ∧ w' = w + buffer.length) w := by
  rw [xwriteAll]
  split_ifs with hempty
  · subst hempty
    exact ⟨htotal, rfl⟩
  · intro r w' hsem
    cases r with
    | none =>
        obtain rfl : w' = w := hsem
        exact ⟨⟨htotal, by omega⟩, trivial⟩
    | some n =>
        have hn := n.isLt
        have hw' : w' = w + n.val := hsem
        refine ⟨⟨htotal, by omega⟩, ?_⟩
        change Ensures _ _ (ite _ _ _) _ _
        split_ifs with hshort
        · trivial
        · rw [ne_eq, not_not] at hshort
          refine ⟨?_, by rw [hw', hshort]⟩
          rw [htotal, hw', hshort, Nat.mod_add_mod]

/-- The child's output or error is at most one buffer. -/
theorem copyChild_ensures {reads : FdSet} {slaveFd masterFd : ℤ} {total bound w : ℕ}
    (htotal : total = w % ulongSize) (hw : w + bufsiz ≤ bound) :
    Ensures Counts (Below bound) (copyChild reads slaveFd masterFd total)
      (fun r w' => r.2 = w' % ulongSize ∧ w' ≤ w + bufsiz) w := by
  unfold copyChild
  by_cases hready : fdsIsset reads slaveFd = true
  · rw [if_neg (not_not.mpr hready)]
    intro r w' hsem
    obtain rfl : w' = w := hsem
    refine ⟨(Nat.le_add_right _ bufsiz).trans hw, ?_⟩
    cases r with
    | none => exact ⟨htotal, Nat.le_add_right _ bufsiz⟩
    | some data =>
        change Ensures _ _ (ite _ _ _) _ _
        split_ifs with hnil
        · exact ⟨htotal, Nat.le_add_right _ bufsiz⟩
        · have hdata := data.property
          refine (xwriteAll_ensures htotal (by omega)).bind fun t w' hpost => ?_
          refine ⟨hpost.1, ?_⟩
          rw [hpost.2]
          omega
  · rw [if_pos hready]
    exact ⟨htotal, Nat.le_add_right _ bufsiz⟩

/-! The logs. -/

/-- The number of connections. -/
def live (l : List ℤ) : ℕ := l.countP (0 ≤ ·)

/-- The two bytes that `copy_log` appends were left free by its read. -/
theorem logText_length {data : Bytes} (h : data.length ≤ bufsiz - 2) :
    (logText data).length ≤ bufsiz := by
  have htake : (data.takeWhile (· ≠ 0)).length ≤ data.length :=
    (List.takeWhile_sublist _).length_le
  have hsize : bufsiz = 8192 := rfl
  unfold logText
  dsimp only
  split_ifs
  · rw [List.length_append]
    simp only [List.length_cons, List.length_nil]
    omega
  · omega

theorem fdFree_ensures {fd : ℤ} {l : List ℤ} {bound w : ℕ} (hw : w ≤ bound) :
    Ensures Counts (Below bound) (fdFree fd l) (fun l' w' => l' = l.replace fd (-1) ∧ w' = w) w := by
  rw [fdFree]
  split_ifs with hmem
  · refine (handling_ensures (xclose_handling fd) hw).bind fun _ w' hw' => ?_
    exact ⟨rfl, hw'⟩
  · trivial

/-- A connection brings at most one buffer, or it ends. -/
theorem copyLog_ensures {fd : ℤ} {l : List ℤ} {total bound w : ℕ}
    (htotal : total = w % ulongSize) (hw : w + bufsiz ≤ bound) :
    Ensures Counts (Below bound) (copyLog fd l total)
      (fun r w' => (r.1 = l ∨ r.1 = l.replace fd (-1)) ∧ r.2 = w' % ulongSize ∧
        w' ≤ w + bufsiz) w := by
  have hfree : ∀ w, total = w % ulongSize → w + bufsiz ≤ bound →
      Ensures Counts (Below bound) ((fdFree fd l).bind fun l => .ret (l, total))
        (fun r w' => (r.1 = l ∨ r.1 = l.replace fd (-1)) ∧ r.2 = w' % ulongSize ∧
          w' ≤ w + bufsiz) w := by
    intro w htotal hw
    refine (fdFree_ensures (by omega)).bind fun l' w' hpost => ?_
    obtain ⟨rfl, rfl⟩ := hpost
    exact ⟨.inr rfl, htotal, Nat.le_add_right _ bufsiz⟩
  intro r w' hsem
  obtain rfl : w' = w := hsem
  refine ⟨(Nat.le_add_right _ bufsiz).trans hw, ?_⟩
  cases r with
  | none => exact hfree w' htotal hw
  | some data =>
      change Ensures _ _ (ite _ _ _) _ _
      split_ifs with hnil
      · exact hfree w' htotal hw
      · have htext := logText_length data.property
        refine (xwriteAll_ensures htotal (by omega)).bind fun t w'' hpost => ?_
        refine ⟨.inl rfl, hpost.1, ?_⟩
        rw [hpost.2]
        omega

theorem live_drop_replace (fd : ℤ) (l : List ℤ) (i : ℕ) :
    live ((l.replace fd (-1)).drop i) ≤ live (l.drop i) := by
  induction l generalizing i with
  | nil => simp
  | cons fd' l ih =>
      rw [List.replace_cons]
      cases i with
      | zero =>
          have htail := ih 0
          simp only [List.drop_zero, live] at htail ⊢
          split
          · rw [List.countP_cons, List.countP_cons]
            simp
          · rw [List.countP_cons, List.countP_cons]
            omega
      | succ i =>
          split
          · exact le_rfl
          · exact ih i

/-- Each connection that was there is copied at most once. -/
theorem logSelectFrom_ensures {fds : FdSet} {count i : ℕ} {l : List ℤ} {total bound w : ℕ}
    (hlength : i + count = l.length) (htotal : total = w % ulongSize)
    (hw : w + live (l.drop i) * bufsiz ≤ bound) :
    Ensures Counts (Below bound) (logSelectFrom fds count i l total)
      (fun r w' => r.2 = w' % ulongSize ∧ w' ≤ w + live (l.drop i) * bufsiz) w := by
  induction count generalizing i l total w with
  | zero => exact ⟨htotal, Nat.le_add_right w _⟩
  | succ count ih =>
      have hi : i < l.length := by omega
      have hdrop : l.drop i = l.getD i (-1) :: l.drop (i + 1) := by
        rw [List.getD_eq_getElem l (-1) hi, ← List.drop_eq_getElem_cons hi]
      rw [logSelectFrom]
      split_ifs with hready
      · have hlive : live (l.drop i) = live (l.drop (i + 1)) + 1 := by
          obtain ⟨n, hn, -⟩ := exists_of_fdsIsset hready
          rw [hdrop, live, List.countP_cons, hn]
          simp [live]
        rw [hlive, Nat.add_mul, Nat.one_mul] at hw ⊢
        refine (copyLog_ensures htotal (by omega)).bind fun r w' hpost => ?_
        obtain ⟨hl, htotal', hw'⟩ := hpost
        have hlength' : i + 1 + count = r.1.length := by
          rcases hl with hl | hl
          · rw [hl]
            omega
          · rw [hl, List.length_replace]
            omega
        have hlive' : live (r.1.drop (i + 1)) ≤ live (l.drop (i + 1)) := by
          rcases hl with hl | hl
          · rw [hl]
          · rw [hl]
            exact live_drop_replace _ l (i + 1)
        have hbytes := Nat.mul_le_mul_right bufsiz hlive'
        refine (ih hlength' htotal' (by omega)).mono fun r' w'' hpost => ?_
        exact ⟨hpost.1, by omega⟩
      · have hlive : live (l.drop (i + 1)) ≤ live (l.drop i) := by
          rw [hdrop, live, live, List.countP_cons]
          omega
        have hbytes := Nat.mul_le_mul_right bufsiz hlive
        refine (ih (by omega) htotal (by omega)).mono fun r w' hpost => ?_
        exact ⟨hpost.1, by omega⟩

theorem logHandleSelect_ensures {fds : FdSet} {l : List ℤ} {total bound w : ℕ}
    (htotal : total = w % ulongSize) (hw : w + live l * bufsiz ≤ bound) :
    Ensures Counts (Below bound) (logHandleSelect fds l total)
      (fun r w' => r.2 = w' % ulongSize ∧ w' ≤ w + live l * bufsiz) w :=
  logSelectFrom_ensures (Nat.zero_add _) htotal hw

theorem selectFds_silent (c : Setup) (s : State) : (selectFds c s).Uses Silent :=
  selectFds_uses trivial (fun _ => trivial) trivial c s

/-! One call of `handle_io`. -/

theorem writeChild_ensures {writes : FdSet} {s : State} {bound w : ℕ} (hw : w ≤ bound) :
    Ensures Counts (Below bound) (writeChild writes s) (fun r w' => w' = w ∧
      ∀ t, r = some t → t.totalBytesWritten = s.totalBytesWritten ∧ t.fdList = s.fdList) w := by
  unfold writeChild
  split_ifs
  · intro r w' hsem
    obtain rfl : w' = w := hsem
    refine ⟨hw, ?_⟩
    cases r with
    | none => exact ⟨rfl, fun _ ht => by cases ht⟩
    | some n =>
        change Ensures _ _ (ite _ _ _) _ _
        split_ifs
        · exact ⟨rfl, fun _ ht => by cases ht⟩
        · refine ⟨rfl, ?_⟩
          rintro t ⟨⟩
          exact ⟨rfl, rfl⟩
  · refine ⟨rfl, ?_⟩
    rintro t ⟨⟩
    exact ⟨rfl, rfl⟩

theorem readTty_ensures {reads : FdSet} {s : State} {bound w : ℕ} (hw : w ≤ bound) :
    Ensures Counts (Below bound) (readTty reads s) (fun t w' => w' = w ∧
      t.totalBytesWritten = s.totalBytesWritten ∧ t.fdList = s.fdList) w := by
  unfold readTty
  split_ifs
  · intro r w' hsem
    obtain rfl : w' = w := hsem
    refine ⟨hw, ?_⟩
    cases r with
    | none => exact ⟨rfl, rfl, rfl⟩
    | some data => exact ⟨rfl, rfl, rfl⟩
  · exact ⟨rfl, rfl, rfl⟩

theorem handleCtl_total {c : Setup} {reads : FdSet} {s : State} {bound w : ℕ} (hw : w ≤ bound) :
    Ensures Counts (Below bound) (handleCtl c reads s) (fun t w' => w' = w ∧
      t.totalBytesWritten = s.totalBytesWritten) w := by
  unfold handleCtl
  split_ifs
  · refine (handling_ensures (handleX11Ctl_handling c s.ctlFd) hw).bind fun found w' hw' => ?_
    subst hw'
    refine Ensures.bind (handling_ensures (w := w') ?_ hw) fun method w'' hw'' => ?_
    · split_ifs
      · unfold x11Closedir
        split
        · exact (xclose_handling _).bind fun _ => trivial
        · trivial
      · trivial
    · subst hw''
      refine (handling_ensures (xclose_handling s.ctlFd) hw).bind fun _ w' hw' => ?_
      exact ⟨hw', rfl⟩
  · exact ⟨rfl, rfl⟩

/-- A call of `handle_io` writes at most a buffer for the output, one for the error and one for
each log connection. -/
theorem handleReady_ensures {c : Setup} {reads writes : FdSet} {s : State} {bound w : ℕ}
    (htotal : s.totalBytesWritten = w % ulongSize)
    (hw : w + (2 + live s.fdList) * bufsiz ≤ bound) :
    Ensures Counts (Below bound) (handleReady c reads writes s)
      (fun r w' => w' ≤ w + (2 + live s.fdList) * bufsiz ∧
        ∀ t, r = some t → t.totalBytesWritten = w' % ulongSize) w := by
  rw [Nat.add_mul] at hw ⊢
  unfold handleReady
  refine (copyChild_ensures htotal (by omega)).bind fun err w₁ hpost => ?_
  obtain ⟨htotal₁, hw₁⟩ := hpost
  refine (copyChild_ensures htotal₁ (by omega)).bind fun out w₂ hpost => ?_
  obtain ⟨htotal₂, hw₂⟩ := hpost
  refine (writeChild_ensures (by omega)).bind fun r w₃ hpost => ?_
  obtain ⟨rfl, hchild⟩ := hpost
  cases r with
  | none => exact ⟨by omega, fun _ ht => by cases ht⟩
  | some s₁ =>
      obtain ⟨htotal₃, hlist₃⟩ := hchild s₁ rfl
      refine (readTty_ensures (by omega)).bind fun s₂ w₄ hpost => ?_
      obtain ⟨rfl, htotal₄, hlist₄⟩ := hpost
      refine (handling_ensures (x11HandleSelect_handling _ _ _ _) (by omega)).bind fun _ w₅ hw₅ => ?_
      subst hw₅
      refine (handling_ensures (x11HandleNew_handling _ _ _ _) (by omega)).bind fun _ w₆ hw₆ => ?_
      subst hw₆
      have hlive : live s₂.fdList = live s.fdList := by rw [hlist₄, hlist₃]
      refine (logHandleSelect_ensures (htotal₄.trans (htotal₃.trans htotal₂))
        (by rw [hlive]; omega)).bind fun logs w₇ hpost => ?_
      obtain ⟨htotal₇, hw₇⟩ := hpost
      rw [hlive] at hw₇
      refine (handling_ensures (logHandleNew_handling _ _ _) (by omega)).bind fun _ w₈ hw₈ => ?_
      subst hw₈
      refine (handleCtl_total (by omega)).bind fun s₃ w₉ hpost => ?_
      obtain ⟨rfl, htotal₉⟩ := hpost
      refine ⟨by omega, ?_⟩
      rintro t ⟨⟩
      rw [htotal₉]
      exact htotal₇

theorem handleIo_ensures {c : Setup} {s : State} {bound w : ℕ}
    (htotal : s.totalBytesWritten = w % ulongSize)
    (hw : w + (2 + live s.fdList) * bufsiz ≤ bound) :
    Ensures Counts (Below bound) (handleIo c s)
      (fun r w' => w' ≤ w + (2 + live s.fdList) * bufsiz ∧
        ∀ t, r = some t → t.totalBytesWritten = w' % ulongSize) w := by
  refine (silent_ensures (selectFds_silent c s) (by omega)).bind fun sets w₁ hw₁ => ?_
  subst hw₁
  cases sets with
  | none => exact ⟨Nat.le_add_right _ _, fun _ ht => by cases ht⟩
  | some sets =>
      intro r w₂ hsem
      obtain rfl : w₂ = w₁ := hsem
      refine ⟨(by omega : w₂ ≤ bound), ?_⟩
      cases r with
      | timeout => trivial
      | interrupted =>
          refine ⟨Nat.le_add_right _ _, ?_⟩
          rintro t ⟨⟩
          exact htotal
      | failed => exact ⟨Nat.le_add_right _ _, fun _ ht => by cases ht⟩
      | ready reads writes => exact handleReady_ensures htotal hw

/-! The loop. -/

/-- `W + (2 + L) * BUFSIZ`, with the connections at the start of a call of `handle_io`. -/
def limit (c : Setup) (s : State) : ℕ :=
  c.wlimit.bytesWritten + (2 + live s.fdList) * bufsiz

/-- The counter does not wrap around on the way to the limit. -/
def Fits (c : Setup) (s : State) : Prop := limit c s < ulongSize

instance (c : Setup) (s : State) : Decidable (Fits c s) := inferInstanceAs (Decidable (_ < _))

/-- A turn goes on to `handle_io` only below the limit. -/
theorem workLimitsOk_ensures {wlimit : WorkLimit} {bytesRead bytesWritten w : ℕ}
    (hlimit : 0 < wlimit.bytesWritten) :
    Ensures Counts (Below w) (workLimitsOk wlimit bytesRead bytesWritten)
      (fun _ w' => w' = w ∧ bytesWritten < wlimit.bytesWritten) w := by
  intro r w' hsem
  obtain rfl : w' = w := hsem
  refine ⟨le_rfl, ?_⟩
  change Ensures _ _ (ite _ _ _) _ _
  split_ifs with harrived hread hwritten
  · trivial
  · trivial
  · trivial
  · exact ⟨rfl, by omega⟩

/-- The counter has counted everything, and has not wrapped around. -/
def Exact (s : State) (w : ℕ) : Prop := s.totalBytesWritten = w % ulongSize ∧ w < ulongSize

theorem Exact.eq {s : State} {w : ℕ} (h : Exact s w) : s.totalBytesWritten = w := by
  rw [h.1, Nat.mod_eq_of_lt h.2]

/-- The count never goes down. -/
theorem before_le {α : Type} {p : IoProg α} {w w' : ℕ} {tr : List (Step ℕ IoRes)}
    {out : Outcome α} (h : Exec (· = ·) Counts p w tr out w') {u : Step ℕ IoRes} (hu : u ∈ tr) :
    u.before ≤ u.after := by
  have hcount : u.after = u.before + _ := h.sem_of_mem hu
  omega

/-- One call of `handle_io` from below the limit. -/
theorem handleIo_bounded {c : Setup} {s : State} {w w' : ℕ} {tr : List (Step ℕ IoRes)}
    {out : Outcome (Option State)} (hexact : Exact s w) (hw : w < c.wlimit.bytesWritten)
    (h : Exec (· = ·) Counts (handleIo c s) w tr out w') :
    (∀ u ∈ tr, u.after < limit c s ∧ ∀ fd data total,
        u.event.1 = .writeAll fd data total → total = u.before % ulongSize) ∧
      ∀ r, out = .returned r → w' < limit c s ∧
        ∀ t, r = some t → t.totalBytesWritten = w' % ulongSize := by
  obtain ⟨hsteps, hpost⟩ := (handleIo_ensures hexact.1 le_rfl).exec h
  refine ⟨fun u hu => ⟨?_, fun fd data total ho => (hsteps u hu).total ho⟩, fun r hr => ?_⟩
  · have hbelow := (hsteps u hu).le
    rw [limit]
    omega
  · obtain ⟨hw', htotal⟩ := hpost r hr
    exact ⟨by rw [limit]; omega, htotal⟩

/-- A turn that is completed has called `handle_io` from below the limit. -/
theorem turn_bounded {c : Setup} {s t : State} {w w' : ℕ} {tr : List (Step ℕ IoRes)}
    (hlimit : 0 < c.wlimit.bytesWritten) (hexact : Exact s w)
    (h : Exec (· = ·) Counts (turn c s) w tr (.returned (.inl t)) w') :
    w' < limit c s ∧ t.totalBytesWritten = w' % ulongSize := by
  obtain ⟨_, t₁, t₂, v, rfl, hcheck, hrest⟩ := exec_bind h
  obtain ⟨rfl, hbelow⟩ := ((workLimitsOk_ensures hlimit).exec hcheck).2 () rfl
  obtain ⟨r, t₃, t₄, v', rfl, hio, hend⟩ := exec_bind hrest
  have hw : v < c.wlimit.bytesWritten := by
    rw [← hexact.eq]
    exact hbelow
  obtain ⟨hw', htotal⟩ := (handleIo_bounded hexact hw hio).2 r rfl
  cases r with
  | none =>
      obtain ⟨-, hne, -⟩ := exec_ret hend
      cases hne
  | some s' =>
      obtain ⟨-, heq, rfl⟩ := exec_ret hend
      obtain rfl := Sum.inl.inj heq
      exact ⟨hw', htotal _ rfl⟩

/-- The counter is exact between any two turns. -/
theorem turns_exact {c : Setup} {s t : State} {w v : ℕ}
    {turns : List (State × List (Step ℕ IoRes))} (hlimit : 0 < c.wlimit.bytesWritten)
    (hs : Exact s w) (h : Turns Counts (turn c) s w turns t v)
    (hfits : ∀ e ∈ turns, Fits c e.1) : Exact t v :=
  h.invariant hfits hs fun hfit hexact hturn => by
    obtain ⟨hlt, htotal⟩ := turn_bounded hlimit hexact hturn
    exact ⟨htotal, hlt.trans hfit⟩

/-- For every run of the loop with a limit: `total_bytes_written` is the number of bytes that
`xwrite_all` has written, `handle_io` is called only below the limit, and during a call there are
never more than two buffers and one for each log connection beyond it. -/
theorem overshoot_bounded {c : Setup} {method : Option ConnectMethod}
    {pipeOut pipeErr ctlFd : ℤ} {s : State} {w : ℕ}
    {turns : List (State × List (Step ℕ IoRes))} (hlimit : 0 < c.wlimit.bytesWritten)
    (hrun : Turns Counts (turn c) (start c method pipeOut pipeErr ctlFd) 0 turns s w)
    (hfits : ∀ e ∈ turns, Fits c e.1) (hfit : Fits c s) :
    s.totalBytesWritten = w ∧
      (∀ earlier last tr, turns = earlier ++ [(last, tr)] → w < limit c last) ∧
      ∀ tr w₁, Exec (· = ·) Counts
          (workLimitsOk c.wlimit s.totalBytesRead s.totalBytesWritten) w tr (.returned ()) w₁ →
        w₁ = w ∧ s.totalBytesWritten < c.wlimit.bytesWritten ∧
          ∀ tr out w', Exec (· = ·) Counts (handleIo c s) w₁ tr out w' →
            (∀ u ∈ tr, u.before < limit c s ∧ u.after < limit c s ∧
              ∀ fd data total, u.event.1 = .writeAll fd data total → total = u.before) ∧
            ∀ t, out = .returned (some t) → t.totalBytesWritten = w' ∧ w' < limit c s := by
  have hstart : Exact (start c method pipeOut pipeErr ctlFd) 0 := ⟨rfl, by decide⟩
  have hexact := turns_exact hlimit hstart hrun hfits
  refine ⟨hexact.eq, ?_, ?_⟩
  · rintro earlier last tr rfl
    obtain ⟨v, hearlier, hlast⟩ := hrun.last
    have hbefore := turns_exact hlimit hstart hearlier fun e he =>
      hfits e (List.mem_append_left _ he)
    exact (turn_bounded hlimit hbefore hlast).1
  · intro tr w₁ hcheck
    obtain ⟨rfl, hbelow⟩ := ((workLimitsOk_ensures hlimit).exec hcheck).2 () rfl
    refine ⟨rfl, hbelow, fun tr out w' hio => ?_⟩
    have hw : w₁ < c.wlimit.bytesWritten := by
      rw [← hexact.eq]
      exact hbelow
    obtain ⟨hsteps, hpost⟩ := handleIo_bounded hexact hw hio
    refine ⟨fun u hu => ?_, ?_⟩
    · have hbefore := before_le hio hu
      obtain ⟨hafter, htotal⟩ := hsteps u hu
      refine ⟨hbefore.trans_lt hafter, hafter, fun fd data total ho => ?_⟩
      rw [htotal fd data total ho, Nat.mod_eq_of_lt]
      exact (hbefore.trans_lt hafter).trans hfit
    rintro t rfl
    obtain ⟨hw', htotal⟩ := hpost _ rfl
    refine ⟨?_, hw'⟩
    rw [htotal t rfl, Nat.mod_eq_of_lt (hw'.trans hfit)]

/-! A limit of three bytes, and five on the error output. -/

private def limitedSetup : Setup :=
  { wlimit := { bytesWritten := 3 }, usePty := false, ptyFd := -1, logFd := 7, x11Key := []
    x11DataLen := 0, scanHex := fun _ => none }

private def limitedStart : State := start limitedSetup none 8 9 (-1)

private def limitedEnd : State := { limitedStart with totalBytesWritten := 5 }

private def limitedTurn : List (Step ℕ IoRes) :=
  [⟨0, ⟨.sigalrmArrived, false⟩, 0⟩, ⟨0, ⟨.sigwinchArrived, false⟩, 0⟩, ⟨0, ⟨.childPid, true⟩, 0⟩,
    ⟨0, ⟨.pselect [7, 9, 8] [] 0, .ready ⟨[9], by simp⟩ noneReady⟩, 0⟩,
    ⟨0, ⟨.read 9 8192, some ⟨[97, 97, 97, 97, 97], by decide⟩⟩, 0⟩,
    ⟨0, ⟨.writeAll 2 [97, 97, 97, 97, 97] 0, some 5⟩, 5⟩]

private theorem limitedTurn_runs :
    Turns Counts (turn limitedSetup) limitedStart 0 [(limitedStart, limitedTurn)] limitedEnd 5 := by
  have hruns : Runs (turn limitedSetup limitedStart) (limitedTurn.map Step.event)
      (.returned (.inl limitedEnd)) := Prog.runs_of_replay rfl
  refine .next (hruns.exec ?_) (.none _ _)
  exact ⟨rfl, rfl, rfl, rfl, rfl, rfl, rfl, rfl, rfl, rfl, rfl, rfl, rfl⟩

/-- The five bytes stay below the bound, and there is no further call of `handle_io`. -/
theorem overshoot_bounded_sample :
    5 < limit limitedSetup limitedStart ∧ ∀ tr w₁, ¬ Exec (· = ·) Counts
      (workLimitsOk limitedSetup.wlimit limitedEnd.totalBytesRead 5) 5 tr (.returned ()) w₁ := by
  obtain ⟨-, hbetween, hcalls⟩ := overshoot_bounded (by decide) limitedTurn_runs
    (fun e he => by cases List.mem_singleton.mp he; decide) (by decide)
  refine ⟨hbetween [] _ _ rfl, fun tr w₁ hcheck => ?_⟩
  exact absurd (hcalls tr w₁ hcheck).2.1 (by decide)

end HasherPriv.IoLoop.OutputLimit
