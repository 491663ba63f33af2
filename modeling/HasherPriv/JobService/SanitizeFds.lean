/- GID: HasherPriv/JobService/SanitizeFds
   layer: job
   source: fds.c, caller_runner.c
   digest: The descriptors that are open after sanitize_fds, in general and in the executor. -/

import HasherPriv.JobService.CallerRunner

set_option autoImplicit false
set_option relaxedAutoImplicit false

namespace HasherPriv.JobService.SanitizeFds

open Foundations.OpenFiles (FdTable)
open Foundations.Program (bind_eq_ok)
open CallerJob
open CallerRunner

variable {φ : Type}

/-! The descriptor table and its calls. -/

/-- `dup2`. -/
def dup2 (t : FdTable φ) (oldfd newfd : ℕ) : Except String (FdTable φ) :=
  match t oldfd with
  | none => .error s!"dup2({oldfd}, {newfd})"
  | some file => .ok (t.put newfd file)

/-- `close`, its result being ignored. -/
def close (t : FdTable φ) (fd : ℕ) : FdTable φ := t.close fd

/-- `close_range (start, -1U, 0)`. -/
def closeRange (t : FdTable φ) (start : ℕ) : FdTable φ := fun n => if n < start then t n else none

/-- The loop of `close_range_brutely`, for that many numbers from `start` on. -/
def closeRangeBrutely (t : FdTable φ) (start : ℕ) : ℕ → FdTable φ
  | 0 => t
  | n + 1 => closeRangeBrutely (close t start) (start + 1) n

/-- `NR_OPEN` and `INT_MAX`. -/
def nrOpen : ℤ := 1024
def intMax : ℤ := 2 ^ 31 - 1

/-- `get_open_max`, given what `sysconf (_SC_OPEN_MAX)` returns. -/
def getOpenMax (sysconf : ℤ) : ℤ :=
  let i := if sysconf < nrOpen then nrOpen else sysconf
  if i > intMax then intMax else i

/-- The table with the two global variables of `fds.c`. -/
structure Fds (φ : Type) where
  table : FdTable φ
  logFd : ℤ := -1
  chrootFd : ℤ := -1

/-- `reorder_fd`: the next start, the new value of the variable and the table. -/
def reorderFd (t : FdTable φ) (start : ℕ) (target : ℤ) : Except String (ℕ × ℤ × FdTable φ) :=
  if target < start then .ok (start, target, t)
  else if target > start then do
    let t ← dup2 t target.toNat start
    return (start + 1, start, t)
  else .ok (start + 1, target, t)

def reorderFds (s : Fds φ) (start : ℕ) : Except String (ℕ × Fds φ) :=
  if s.logFd < s.chrootFd then do
    let r ← reorderFd s.table start s.logFd
    let r' ← reorderFd r.2.2 r.1 s.chrootFd
    return (r'.1, ⟨r'.2.2, r.2.1, r'.2.1⟩)
  else do
    let r ← reorderFd s.table start s.chrootFd
    let r' ← reorderFd r.2.2 r.1 s.logFd
    return (r'.1, ⟨r'.2.2, r'.2.1, r.2.1⟩)

/-- How `sanitize_fds` closes the rest: with `close_range`, or, where that fails, one by one. -/
inductive Closing
  | closeRange
  | brutely (sysconf : ℤ)

def Closing.close (t : FdTable φ) (start : ℕ) : Closing → FdTable φ
  | .closeRange => SanitizeFds.closeRange t start
  | .brutely sysconf => closeRangeBrutely t start (getOpenMax sysconf - start).toNat

def sanitizeFds (closing : Closing) (s : Fds φ) : Except String (Fds φ) :=
  if (s.table 0).isNone ∨ (s.table 1).isNone ∨ (s.table 2).isNone then .error "die"
  else do
    let r ← reorderFds s 3
    return { r.2 with table := closing.close r.2.table r.1 }

/-- What `job_executor` does to its descriptors; `log_fd` is not open yet. -/
def executorFds (closing : Closing) (job : Job) (t : FdTable φ) : Except String (Fds φ) := do
  let t ← resetStandard job t
  sanitizeFds closing { table := t, chrootFd := job.chrootFd }

/-! Closing. -/

private theorem closeRangeBrutely_apply (t : FdTable φ) (start count n : ℕ) :
    closeRangeBrutely t start count n = if start ≤ n ∧ n < start + count then none else t n := by
  induction count generalizing t start with
  | zero =>
      have hout : ¬ (start ≤ n ∧ n < start + 0) := by omega
      rw [closeRangeBrutely, if_neg hout]
  | succ count ih =>
      rw [closeRangeBrutely, ih]
      by_cases hn : n = start
      · subst hn
        simp [close]
      · have hiff : (start + 1 ≤ n ∧ n < start + 1 + count) ↔
            (start ≤ n ∧ n < start + (count + 1)) := by omega
        have hother : close t start n = t n := FdTable.close_of_ne hn
        simp only [hiff, hother]

/-- Either way closes everything from `start` on. -/
def Closing.Reaches (t : FdTable φ) : Closing → Prop
  | .closeRange => True
  | .brutely sysconf => ∀ n : ℕ, (t n).isSome → n < getOpenMax sysconf

private theorem close_apply {closing : Closing} {t t' : FdTable φ} {start : ℕ}
    (h : closing.Reaches t) (hrest : ∀ n, start ≤ n → t' n = t n) (n : ℕ) :
    closing.close t' start n = if n < start then t' n else none := by
  cases closing with
  | closeRange => rfl
  | brutely sysconf =>
      change closeRangeBrutely t' start _ n = _
      rw [closeRangeBrutely_apply]
      by_cases hlt : n < start
      · have hout : ¬ (start ≤ n ∧ n < start + (getOpenMax sysconf - start).toNat) := by omega
        rw [if_neg hout, if_pos hlt]
      · rw [if_neg hlt]
        by_cases hin : start ≤ n ∧ n < start + (getOpenMax sysconf - start).toNat
        · rw [if_pos hin]
        · rw [if_neg hin]
          by_contra hopen
          rw [hrest n (by omega)] at hopen
          have hmax := h n (Option.isSome_iff_ne_none.mpr hopen)
          omega

/-! Reordering. -/

/-- A variable below 3 keeps its value; otherwise it leads to the same open file. -/
structure Kept (t t' : FdTable φ) (fd fd' : ℤ) : Prop where
  low : fd < 3 → fd' = fd
  high : 3 ≤ fd → 3 ≤ fd' ∧ t' fd'.toNat = t fd.toNat

/-- The one spec of `reorder_fd`: nothing happens below the start, and otherwise the open file
is at the start afterwards. -/
private theorem reorderFd_spec (t : FdTable φ) (start : ℕ) (target : ℤ)
    (hopen : target < start ∨ (t target.toNat).isSome = true) :
    ∃ r, reorderFd t start target = .ok r ∧
      (target < start → r = (start, target, t)) ∧
      (start ≤ target → r.1 = start + 1 ∧ r.2.1 = start ∧ r.2.2 start = t target.toNat ∧
        ∀ n, n ≠ start → r.2.2 n = t n) := by
  unfold reorderFd
  by_cases hlt : target < start
  · rw [if_pos hlt]
    exact ⟨_, rfl, fun _ => rfl, fun hle => by omega⟩
  · rw [if_neg hlt]
    by_cases hgt : target > start
    · obtain ⟨file, hfile⟩ := Option.isSome_iff_exists.mp (hopen.resolve_left hlt)
      have hdup : dup2 t target.toNat start = .ok (t.put start file) := by
        simp [dup2, hfile]
      rw [if_pos hgt, hdup]
      refine ⟨_, rfl, fun h => absurd h hlt, fun _ => ⟨rfl, rfl, ?_, fun n hn => ?_⟩⟩
      · simp [hfile]
      · exact FdTable.put_of_ne hn
    · obtain rfl : target = start := by omega
      rw [if_neg hgt]
      exact ⟨_, rfl, fun h => absurd h hlt, fun _ => ⟨rfl, rfl, rfl, fun _ _ => rfl⟩⟩

/-- What two reorderings from 3 on leave: `fd` and `fd'` are the new values of `a` and `b`. -/
private structure Reordered (t : FdTable φ) (a b : ℤ) (start : ℕ) (fd fd' : ℤ)
    (t' : FdTable φ) : Prop where
  low : ∀ n < 3, t' n = t n
  first : Kept t t' a fd
  second : Kept t t' b fd'
  range : 3 ≤ start ∧ start ≤ 5
  below : fd < start ∧ fd' < start
  covered : ∀ n : ℕ, 3 ≤ n → n < start → fd = n ∨ fd' = n
  rest : ∀ n, start ≤ n → t' n = t n

/-- The smaller descriptor goes first, so that it is not overwritten by the other one, and the
other one not by it. -/
private theorem reordered {t : FdTable φ} {a b : ℤ} (hle : a ≤ b)
    (ha : a < 3 ∨ (t a.toNat).isSome = true) (hb : b < 3 ∨ (t b.toNat).isSome = true) :
    ∃ r r', reorderFd t 3 a = .ok r ∧ reorderFd r.2.2 r.1 b = .ok r' ∧
      Reordered t a b r'.1 r.2.1 r'.2.1 r'.2.2 := by
  obtain ⟨r, hr, hlow, hhigh⟩ := reorderFd_spec t 3 a ha
  by_cases ha3 : a < 3
  · obtain rfl := hlow ha3
    obtain ⟨r', hr', hlow', hhigh'⟩ := reorderFd_spec t 3 b hb
    refine ⟨_, r', hr, hr', ?_⟩
    by_cases hb3 : b < 3
    · obtain rfl := hlow' hb3
      refine ⟨fun _ _ => rfl, ⟨fun _ => rfl, fun h => by omega⟩,
        ⟨fun _ => rfl, fun h => by omega⟩, by simp, ⟨ha3, hb3⟩, fun n h h' => ?_, fun _ _ => rfl⟩
      simp only at h'
      omega
    · obtain ⟨hstart, hfd, hfile, hother⟩ := hhigh' (by simpa using hb3)
      refine ⟨fun n hn => hother n (by omega), ⟨fun _ => rfl, fun h => by omega⟩,
        ⟨fun h => by omega, fun _ => ?_⟩, by omega, by simp only; omega, fun n h h' => ?_,
        fun n hn => hother n (by omega)⟩
      · rw [hfd]
        exact ⟨by simp, hfile⟩
      · exact .inr (by omega)
  · obtain ⟨hstart, hfd, hfile, hother⟩ := hhigh (by simpa using ha3)
    have hb' : b < r.1 ∨ (r.2.2 b.toNat).isSome = true := by
      by_cases hb4 : b < 4
      · exact .inl (by omega)
      · rw [hother _ (by omega)]
        exact .inr (hb.resolve_left (by omega))
    obtain ⟨r', hr', hlow', hhigh'⟩ := reorderFd_spec r.2.2 r.1 b hb'
    refine ⟨r, r', hr, hr', ?_⟩
    by_cases hb4 : b < 4
    · -- both variables are 3
      obtain ⟨rfl, rfl⟩ : a = 3 ∧ b = 3 := by omega
      obtain rfl := hlow' (by omega)
      refine ⟨fun n hn => hother n (by omega), ⟨fun h => by omega, fun _ => ?_⟩,
        ⟨fun h => by omega, fun _ => ⟨le_rfl, hfile⟩⟩, by simp only; omega, by simp only; omega,
        fun n h h' => ?_, fun n hn => hother n (by simp only at hn; omega)⟩
      · rw [hfd]
        exact ⟨le_rfl, hfile⟩
      · simp only at h'
        exact .inl (by omega)
    · obtain ⟨hstart', hfd', hfile', hother'⟩ := hhigh' (by omega)
      refine ⟨fun n hn => ?_, ⟨fun h => by omega, fun _ => ⟨by omega, ?_⟩⟩,
        ⟨fun h => by omega, fun _ => ⟨by omega, ?_⟩⟩, by omega, by omega, fun n h h' => ?_,
        fun n hn => ?_⟩
      · rw [hother' n (by omega), hother n (by omega)]
      · rw [hfd, hother' _ (by simp; omega)]
        exact hfile
      · rw [hfd', Int.toNat_natCast, hfile', hother _ (by omega)]
      · by_cases hn : n = 3
        · exact .inl (by omega)
        · exact .inr (by omega)
      · rw [hother' n (by omega), hother n (by omega)]

/-! `sanitize_fds`. -/

/-- The variable is negative or leads to an open file. -/
def Refers (t : FdTable φ) (fd : ℤ) : Prop := fd < 0 ∨ (t fd.toNat).isSome = true

private theorem Refers.low {t : FdTable φ} {fd : ℤ} (h : Refers t fd) :
    fd < 3 ∨ (t fd.toNat).isSome = true := h.imp_left fun hneg => by omega

/-- What is open after `sanitize_fds` has led from `s` to `s'`. -/
structure Hygienic (s s' : Fds φ) : Prop where
  standard : ∀ n < 3, s'.table n = s.table n
  logFd : Kept s.table s'.table s.logFd s'.logFd
  chrootFd : Kept s.table s'.table s.chrootFd s'.chrootFd
  consecutive : ∃ k ≤ 2, s'.table.Packed (3 + k)
  held : ∀ n : ℕ, 3 ≤ n → (s'.table n).isSome = true → s'.logFd = n ∨ s'.chrootFd = n

/-- Both variables are reordered, whichever goes first. -/
private theorem reorderFds_spec {s : Fds φ} (hlog : Refers s.table s.logFd)
    (hchroot : Refers s.table s.chrootFd) :
    ∃ r, reorderFds s 3 = .ok r ∧
      (Reordered s.table s.logFd s.chrootFd r.1 r.2.logFd r.2.chrootFd r.2.table ∨
        Reordered s.table s.chrootFd s.logFd r.1 r.2.chrootFd r.2.logFd r.2.table) := by
  unfold reorderFds
  by_cases hlt : s.logFd < s.chrootFd
  · obtain ⟨r, r', hr, hr', hreordered⟩ := reordered hlt.le hlog.low hchroot.low
    rw [if_pos hlt, hr]
    refine ⟨(r'.1, ⟨r'.2.2, r.2.1, r'.2.1⟩), ?_, .inl hreordered⟩
    change (do let r' ← reorderFd r.2.2 r.1 s.chrootFd; _) = _
    rw [hr']
    rfl
  · obtain ⟨r, r', hr, hr', hreordered⟩ := reordered (not_lt.mp hlt) hchroot.low hlog.low
    rw [if_neg hlt, hr]
    refine ⟨(r'.1, ⟨r'.2.2, r'.2.1, r.2.1⟩), ?_, .inr hreordered⟩
    change (do let r' ← reorderFd r.2.2 r.1 s.logFd; _) = _
    rw [hr']
    rfl

private theorem Kept.close {t t' t'' : FdTable φ} {fd fd' : ℤ} {start : ℕ} (h : Kept t t' fd fd')
    (hbelow : fd' < start) (hclose : ∀ n, t'' n = if n < start then t' n else none) :
    Kept t t'' fd fd' := by
  refine ⟨h.low, fun hhigh => ?_⟩
  obtain ⟨hle, hfile⟩ := h.high hhigh
  refine ⟨hle, ?_⟩
  rw [hclose, if_pos (by omega), hfile]

/-- Everything up to the next start is open, and held by a variable from 3 on. -/
private theorem Reordered.open_below {t t' : FdTable φ} {a b fd fd' : ℤ} {start n : ℕ}
    (h : Reordered t a b start fd fd' t') (hstd : ∀ n < 3, (t n).isSome = true)
    (ha : Refers t a) (hb : Refers t b) (hn : n < start) : (t' n).isSome = true := by
  by_cases hlow : n < 3
  · rw [h.low n hlow]
    exact hstd n hlow
  · rcases h.covered n (by omega) hn with hfd | hfd
    · have ha3 : 3 ≤ a := by
        by_contra hlt
        have := h.first.low (by omega)
        omega
      have hfile := (h.first.high ha3).2
      rw [hfd, Int.toNat_natCast] at hfile
      rw [hfile]
      exact ha.resolve_left (by omega)
    · have hb3 : 3 ≤ b := by
        by_contra hlt
        have := h.second.low (by omega)
        omega
      have hfile := (h.second.high hb3).2
      rw [hfd, Int.toNat_natCast] at hfile
      rw [hfile]
      exact hb.resolve_left (by omega)

theorem sanitizeFds_hygienic (closing : Closing) {s : Fds φ}
    (hstd : ∀ n < 3, (s.table n).isSome = true) (hlog : Refers s.table s.logFd)
    (hchroot : Refers s.table s.chrootFd) (hclosing : closing.Reaches s.table) :
    ∃ s', sanitizeFds closing s = .ok s' ∧ Hygienic s s' := by
  obtain ⟨r, hr, hreordered⟩ := reorderFds_spec hlog hchroot
  have hpresent : ¬ ((s.table 0).isNone ∨ (s.table 1).isNone ∨ (s.table 2).isNone) := by
    have h0 := hstd 0 (by omega)
    have h1 := hstd 1 (by omega)
    have h2 := hstd 2 (by omega)
    simp [Option.isNone_iff_eq_none, Option.isSome_iff_ne_none.mp h0,
      Option.isSome_iff_ne_none.mp h1, Option.isSome_iff_ne_none.mp h2]
  refine ⟨{ r.2 with table := closing.close r.2.table r.1 }, ?_, ?_⟩
  · rw [sanitizeFds, if_neg hpresent, hr]
    rfl
  -- what the two orders have in common
  obtain ⟨hlow, hlogFd, hchrootFd, hrange, hbelow, hcovered, hrest, hopen⟩ :
      (∀ n < 3, r.2.table n = s.table n) ∧ Kept s.table r.2.table s.logFd r.2.logFd ∧
        Kept s.table r.2.table s.chrootFd r.2.chrootFd ∧ (3 ≤ r.1 ∧ r.1 ≤ 5) ∧
        (r.2.logFd < r.1 ∧ r.2.chrootFd < r.1) ∧
        (∀ n : ℕ, 3 ≤ n → n < r.1 → r.2.logFd = n ∨ r.2.chrootFd = n) ∧
        (∀ n, r.1 ≤ n → r.2.table n = s.table n) ∧
        ∀ n < r.1, (r.2.table n).isSome = true := by
    rcases hreordered with h | h
    · exact ⟨h.low, h.first, h.second, h.range, h.below, h.covered, h.rest,
        fun n hn => h.open_below hstd hlog hchroot hn⟩
    · exact ⟨h.low, h.second, h.first, h.range, h.below.symm,
        fun n h₃ hn => (h.covered n h₃ hn).symm, h.rest,
        fun n hn => h.open_below hstd hchroot hlog hn⟩
  have hclose := close_apply hclosing hrest
  have hiff : ∀ n, (closing.close r.2.table r.1 n).isSome = true ↔ n < r.1 := by
    intro n
    rw [hclose]
    by_cases hn : n < r.1
    · simp [hn, hopen n hn]
    · simp [hn]
  refine ⟨fun n hn => ?_, hlogFd.close hbelow.1 hclose, hchrootFd.close hbelow.2 hclose,
    ⟨r.1 - 3, by omega, fun n => ?_⟩, fun n h₃ hn => ?_⟩
  · change closing.close r.2.table r.1 n = _
    rw [hclose, if_pos (by omega), hlow n hn]
  · rw [hiff]
    omega
  · exact hcovered n h₃ ((hiff n).mp hn)

/-! The executor. -/

/-- The descriptors of the job are distinct, open and none of the standard three. -/
structure Distinct (t : FdTable φ) (job : Job) (fds : Fin 3 → ℕ) (dir : ℕ) : Prop where
  stdFds : ∀ i, job.stdFds i = fds i
  chrootFd : job.chrootFd = dir
  injective : Function.Injective fds
  apart : ∀ i, fds i ≠ dir
  high : (∀ i, 3 ≤ fds i) ∧ 3 ≤ dir
  opened : (∀ i, (t (fds i)).isSome = true) ∧ (t dir).isSome = true

private theorem moveFd_ok {t : FdTable φ} {oldfd : ℕ} (newfd : ℕ) (hopen : (t oldfd).isSome = true)
    (hne : oldfd ≠ newfd) :
    ∃ t', moveFd t oldfd newfd = .ok t' ∧ t' newfd = t oldfd ∧
      ∀ n, n ≠ oldfd → n ≠ newfd → t' n = t n := by
  obtain ⟨file, hfile⟩ := Option.isSome_iff_exists.mp hopen
  have hok : ∃ t', moveFd t oldfd newfd = .ok t' := by
    unfold moveFd
    rw [if_neg (by omega), Int.toNat_natCast, hfile]
    exact ⟨_, rfl⟩
  obtain ⟨t', ht'⟩ := hok
  exact ⟨t', ht', moveFd_apply hne ht'⟩

private theorem resetStandard_ok {t : FdTable φ} {job : Job} {fds : Fin 3 → ℕ} {dir : ℕ}
    (h : Distinct t job fds dir) :
    ∃ t', resetStandard job t = .ok t' ∧ (∀ i : Fin 3, t' i = t (fds i)) ∧
      ∀ n, 3 ≤ n → (∀ i, n ≠ fds i) → t' n = t n := by
  have h0 := h.high.1 0
  have h1 := h.high.1 1
  have h2 := h.high.1 2
  have h01 : fds 0 ≠ fds 1 := h.injective.ne (by decide)
  have h02 : fds 0 ≠ fds 2 := h.injective.ne (by decide)
  have h12 : fds 1 ≠ fds 2 := h.injective.ne (by decide)
  obtain ⟨t₀, hr₀, -, k₀⟩ := moveFd_ok 0 (h.opened.1 0) (by omega)
  have hopen₁ : (t₀ (fds 1)).isSome = true := by
    rw [k₀ _ h01.symm (by omega)]
    exact h.opened.1 1
  obtain ⟨t₁, hr₁, -, k₁⟩ := moveFd_ok 1 hopen₁ (by omega)
  have hopen₂ : (t₁ (fds 2)).isSome = true := by
    rw [k₁ _ h12.symm (by omega), k₀ _ h02.symm (by omega)]
    exact h.opened.1 2
  obtain ⟨t₂, hr₂, -, k₂⟩ := moveFd_ok 2 hopen₂ (by omega)
  have hall : resetStandard job t = .ok t₂ := by
    simp only [resetStandard, h.stdFds, hr₀]
    change (do let t ← moveFd t₀ (fds 1) 1; _) = _
    rw [hr₁]
    exact hr₂
  refine ⟨t₂, hall, ?_, fun n hn hfds => ?_⟩
  · exact resetStandard_received h.stdFds h.injective h.high.1 hall
  · rw [k₂ n (hfds 2) (by omega), k₁ n (hfds 1) (by omega), k₀ n (hfds 0) (by omega)]

private theorem three_le_getOpenMax (sysconf : ℤ) : 3 ≤ getOpenMax sysconf := by
  simp only [getOpenMax, nrOpen, intMax]
  split_ifs <;> omega

/-- Moving the standard descriptors opens nothing that could be out of reach. -/
private theorem Closing.Reaches.resetStandard {closing : Closing} {t t' : FdTable φ} {job : Job}
    {fds : Fin 3 → ℕ} {dir : ℕ} (hc : closing.Reaches t) (h : Distinct t job fds dir)
    (hother : ∀ n, 3 ≤ n → (∀ i, n ≠ fds i) → t' n = t n) : closing.Reaches t' := by
  cases closing with
  | closeRange => trivial
  | brutely sysconf =>
      intro n hn
      have hmin := three_le_getOpenMax sysconf
      by_cases hlow : n < 3
      · omega
      · by_cases hfds : ∃ i, n = fds i
        · obtain ⟨i, rfl⟩ := hfds
          exact hc _ (h.opened.1 i)
        · rw [hother n (by omega) (not_exists.mp hfds)] at hn
          exact hc n hn

theorem executorFds_exact {closing : Closing} {t : FdTable φ} {job : Job} {fds : Fin 3 → ℕ}
    {dir : ℕ} (h : Distinct t job fds dir) (hclosing : closing.Reaches t) :
    ∃ s', executorFds closing job t = .ok s' ∧ (∀ i : Fin 3, s'.table i = t (fds i)) ∧
      s'.table 3 = t dir ∧ ∀ n, 3 < n → s'.table n = none := by
  obtain ⟨t', hreset, hstd, hother⟩ := resetStandard_ok h
  have hdir : t' dir = t dir := hother dir h.high.2 fun i => (h.apart i).symm
  have hopen : ∀ n < 3, (t' n).isSome = true := by
    intro n hn
    have hi := hstd ⟨n, hn⟩
    dsimp only at hi
    rw [hi]
    exact h.opened.1 _
  have hrefers : Refers t' job.chrootFd := by
    rw [h.chrootFd]
    exact .inr (by rw [Int.toNat_natCast, hdir]; exact h.opened.2)
  obtain ⟨s', hs', hh⟩ := sanitizeFds_hygienic closing
    (s := { table := t', chrootFd := job.chrootFd }) hopen (.inl (show (-1 : ℤ) < 0 by decide)) hrefers
    (hclosing.resetStandard h hother)
  have hlog : s'.logFd = -1 := hh.logFd.low (show (-1 : ℤ) < 3 by decide)
  obtain ⟨hthree, hfile⟩ := hh.chrootFd.high (by
    dsimp only
    rw [h.chrootFd]
    exact_mod_cast h.high.2)
  dsimp only at hfile
  rw [h.chrootFd, Int.toNat_natCast, hdir] at hfile
  -- the directory is the only one above the standard three, and they are consecutive
  obtain ⟨k, -, hk⟩ := hh.consecutive
  have hat : (s'.table s'.chrootFd.toNat).isSome = true := by
    rw [hfile]
    exact h.opened.2
  have hpos := (hk _).mp hat
  have hchroot : s'.chrootFd = 3 := by
    rcases hh.held 3 le_rfl ((hk 3).mpr (by omega)) with heq | heq
    · omega
    · exact_mod_cast heq
  refine ⟨s', ?_, fun i => ?_, ?_, fun n hn => ?_⟩
  · rw [executorFds, hreset]
    exact hs'
  · rw [hh.standard i i.isLt]
    exact hstd i
  · rw [hchroot] at hfile
    exact hfile
  · by_contra hne
    rcases hh.held n (by omega) (Option.isSome_iff_ne_none.mpr hne) with heq | heq <;> omega

/-- What `sanitize_fds` leaves open, in general and in the executor of a job. -/
theorem descriptor_hygiene (closing : Closing) :
    (∀ s : Fds φ, (∀ n < 3, (s.table n).isSome = true) → Refers s.table s.logFd →
      Refers s.table s.chrootFd → closing.Reaches s.table →
        ∃ s', sanitizeFds closing s = .ok s' ∧ Hygienic s s') ∧
    ∀ (t : FdTable φ) (job : Job) (fds : Fin 3 → ℕ) (dir : ℕ), Distinct t job fds dir →
      closing.Reaches t →
        ∃ s', executorFds closing job t = .ok s' ∧ (∀ i : Fin 3, s'.table i = t (fds i)) ∧
          s'.table 3 = t dir ∧ ∀ n, 3 < n → s'.table n = none :=
  ⟨fun _ hstd hlog hchroot hclosing => sanitizeFds_hygienic _ hstd hlog hchroot hclosing,
    fun _ _ _ _ h hclosing => executorFds_exact h hclosing⟩

/-- Ten open files, and a job that holds four of them. -/
def sampleTable : FdTable ℕ := fun n => if n < 10 then some (100 + n) else none

def sampleJob : Job where
  type := 4
  stdFds := ![5, 6, 7]
  chrootFd := 4

theorem descriptor_hygiene_sample :
    (∃ s', sanitizeFds (.brutely 256) { table := sampleTable, logFd := 9, chrootFd := 4 } = .ok s' ∧
      Hygienic { table := sampleTable, logFd := 9, chrootFd := 4 } s') ∧
    ∃ s', executorFds .closeRange sampleJob sampleTable = .ok s' ∧
      (∀ i : Fin 3, s'.table i = sampleTable (![5, 6, 7] i)) ∧ s'.table 3 = sampleTable 4 ∧
      ∀ n, 3 < n → s'.table n = none := by
  have hreach : (Closing.brutely 256).Reaches sampleTable := by
    intro n hn
    have hlt : n < 10 := by
      by_contra hge
      simp [sampleTable, hge] at hn
    have hmax : getOpenMax 256 = 1024 := by decide
    omega
  have hdistinct : Distinct sampleTable sampleJob ![5, 6, 7] 4 := by
    refine ⟨?_, rfl, by decide, by decide, by decide, by decide⟩
    intro i
    fin_cases i <;> rfl
  exact ⟨(descriptor_hygiene (.brutely 256)).1 _ (by decide) (.inr rfl) (.inr rfl) hreach,
    (descriptor_hygiene .closeRange).2 _ _ _ _ hdistinct trivial⟩

end HasherPriv.JobService.SanitizeFds
