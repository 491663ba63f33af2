/- GID: HasherPriv/SessionService/SingleDaemon
   layer: session service
   source: pidfile.c, hasher-privd.c
   digest: Which interleavings of two start-ups leave one daemon and its pid in the pidfile. -/

import HasherPriv.SessionService.Pidfile

set_option autoImplicit false
set_option relaxedAutoImplicit false

namespace HasherPriv.SessionService.SingleDaemon

open Foundations.ByteString
open Foundations.Numerals
open Foundations.Program
open Foundations.Shared
open Pidfile

/-! Positions in a start-up. -/

inductive Pos
  | start
  | reading
  | readClosing (n : Option ℤ)
  | comparing (pid : ℤ)
  | killing (pid : ℤ)
  | detaching
  | opening
  | fdopening
  | locking
  | lockedOut
  | leaving
  | naming
  | printing (pid : ℤ)
  | writing (pid : ℤ)
  | closing (pid : ℤ) (written : Bool)
  | passed
  | failed
  | died (why : String)
  deriving DecidableEq

/-- What follows `write_pid`. -/
def afterWrite (pid : ℤ) : PidProg Bool := .ret (decide (pid ≠ 0))

/-- What follows `check_pid`. -/
def afterCheck (daemonize : Bool) (pid : ℤ) : PidProg Bool := do
  if pid ≠ 0 then .die "already running"
  else
    if daemonize then
      match ← call .daemon with
      | none => .die "daemon"
      | some _ => writePid.bind afterWrite
    else writePid.bind afterWrite

/-- What follows `read_pid`. -/
def afterRead (daemonize : Bool) (pid : ℤ) : PidProg Bool :=
  (do
    if pid = 0 then return 0
    else
      let self ← call .getpid
      if pid = self then return 0
      else if ← call (.kill pid) then return 0
      else return pid : PidProg ℤ).bind (afterCheck daemonize)

/-! The tails of `write_pid`, from the last one on. -/

def leaveTail : PidProg ℤ := do
  let _ ← call .close
  return 0

def closeTail (pid : ℤ) (written : Bool) : PidProg ℤ := do
  let closed ← call .close
  return if written && closed then pid else 0

def writeTail (pid : ℤ) : PidProg ℤ := do
  let written ← call (.write (pidText pid))
  closeTail pid written

def printTail (pid : ℤ) : PidProg ℤ := do
  if ← call (.fprintf pid) then writeTail pid else leaveTail

def nameTail : PidProg ℤ := do
  let pid ← call .getpid
  printTail pid

def lockedOutTail : PidProg ℤ := do
  let _ ← call .fscanf
  leaveTail

def lockTail : PidProg ℤ := do
  if ← call .flock then nameTail else lockedOutTail

def fdopenTail : PidProg ℤ := do
  if ← call .fdopen then lockTail else leaveTail

/-- What is left of a start-up. -/
def rest (daemonize : Bool) : Pos → PidProg Bool
  | .start => startUp daemonize
  | .reading => do
      let pid ← call .fscanf
      call .fclose
      afterRead daemonize (pid.getD 0)
  | .readClosing n => do
      call .fclose
      afterRead daemonize (n.getD 0)
  | .comparing pid => afterRead daemonize pid
  | .killing pid =>
      (do if ← call (.kill pid) then return 0 else return pid : PidProg ℤ).bind
        (afterCheck daemonize)
  | .detaching => afterCheck true 0
  | .opening => writePid.bind afterWrite
  | .fdopening => fdopenTail.bind afterWrite
  | .locking => lockTail.bind afterWrite
  | .lockedOut => lockedOutTail.bind afterWrite
  | .leaving => leaveTail.bind afterWrite
  | .naming => nameTail.bind afterWrite
  | .printing pid => (printTail pid).bind afterWrite
  | .writing pid => (writeTail pid).bind afterWrite
  | .closing pid written => (closeTail pid written).bind afterWrite
  | .passed => .ret true
  | .failed => .ret false
  | .died why => .die why

/-- Where the call leads that is made at a position. -/
inductive Advance (daemonize : Bool) : Pos → (o : PidOp) → PidRes o → Pos → Prop
  | found : Advance daemonize .start .fopen true .reading
  | missing : Advance daemonize .start .fopen false
      (if daemonize then .detaching else .opening)
  | read (n : Option ℤ) : Advance daemonize .reading .fscanf n (.readClosing n)
  | readNothing {n : Option ℤ} (h : n.getD 0 = 0) : Advance daemonize (.readClosing n) .fclose ()
      (if daemonize then .detaching else .opening)
  | readSome {n : Option ℤ} (h : n.getD 0 ≠ 0) :
      Advance daemonize (.readClosing n) .fclose () (.comparing (n.getD 0))
  | same (pid : ℤ) : Advance daemonize (.comparing pid) .getpid pid
      (if daemonize then .detaching else .opening)
  | differs {pid self : ℤ} (h : pid ≠ self) :
      Advance daemonize (.comparing pid) .getpid self (.killing pid)
  | absent (pid : ℤ) : Advance daemonize (.killing pid) (.kill pid) true
      (if daemonize then .detaching else .opening)
  | alive (pid : ℤ) :
      Advance daemonize (.killing pid) (.kill pid) false (.died "already running")
  | detached (pid : ℤ) : Advance daemonize .detaching .daemon (some pid) .opening
  | attached : Advance daemonize .detaching .daemon none (.died "daemon")
  | opened : Advance daemonize .opening .open true .fdopening
  | notOpened : Advance daemonize .opening .open false .failed
  | stream : Advance daemonize .fdopening .fdopen true .locking
  | noStream : Advance daemonize .fdopening .fdopen false .leaving
  | locked : Advance daemonize .locking .flock true .naming
  | notLocked : Advance daemonize .locking .flock false .lockedOut
  | reported (n : Option ℤ) : Advance daemonize .lockedOut .fscanf n .leaving
  | left (r : Bool) : Advance daemonize .leaving .close r .failed
  | named (pid : ℤ) : Advance daemonize .naming .getpid pid (.printing pid)
  | printed (pid : ℤ) : Advance daemonize (.printing pid) (.fprintf pid) true (.writing pid)
  | notPrinted (pid : ℤ) : Advance daemonize (.printing pid) (.fprintf pid) false .leaving
  | wrote (pid : ℤ) (r : Bool) :
      Advance daemonize (.writing pid) (.write (pidText pid)) r (.closing pid r)
  | closed {pid : ℤ} (h : pid ≠ 0) : Advance daemonize (.closing pid true) .close true .passed
  | notClosed {pid : ℤ} {written r : Bool} (h : (written && r) = false) :
      Advance daemonize (.closing pid written) .close r .failed

theorem afterCheck_zero (daemonize : Bool) :
    afterCheck daemonize 0 = rest daemonize (if daemonize then .detaching else .opening) := by
  cases daemonize <;> rfl

theorem afterRead_zero (daemonize : Bool) :
    afterRead daemonize 0 = rest daemonize (if daemonize then .detaching else .opening) :=
  afterCheck_zero daemonize

theorem afterRead_of_ne (daemonize : Bool) {pid : ℤ} (h : pid ≠ 0) :
    afterRead daemonize pid = (call .getpid).bind fun self =>
      (if pid = self then .ret 0
        else (do if ← call (.kill pid) then return 0 else return pid) : PidProg ℤ).bind
          (afterCheck daemonize) := by
  rw [afterRead, if_neg h]
  rfl

theorem afterCheck_of_ne (daemonize : Bool) {pid : ℤ} (h : pid ≠ 0) :
    afterCheck daemonize pid = .die "already running" := if_pos h

/-- The numbers that a position carries are not 0. -/
def Pos.Sound : Pos → Prop
  | .comparing pid | .killing pid | .printing pid | .writing pid | .closing pid _ => pid ≠ 0
  | _ => True

theorem advance_of_call {daemonize : Bool} {p : Pos} {o : PidOp} {k : PidRes o → PidProg Bool}
    (r : PidRes o) (hsound : p.Sound) (h : rest daemonize p = .call o k) :
    ∃ p', Advance daemonize p o r p' ∧ k r = rest daemonize p' := by
  cases p with
  | passed => cases h
  | failed => cases h
  | died why => cases h
  | start =>
      cases h
      cases r with
      | false => exact ⟨_, .missing, afterRead_zero daemonize⟩
      | true => exact ⟨_, .found, rfl⟩
  | reading =>
      cases h
      exact ⟨_, .read r, rfl⟩
  | readClosing n =>
      cases h
      by_cases hzero : n.getD 0 = 0
      · refine ⟨_, .readNothing hzero, ?_⟩
        exact (congrArg (afterRead daemonize) hzero).trans (afterRead_zero daemonize)
      · exact ⟨_, .readSome hzero, rfl⟩
  | comparing pid =>
      rw [rest, afterRead_of_ne daemonize hsound] at h
      cases h
      by_cases hsame : pid = r
      · subst hsame
        refine ⟨_, .same pid, ?_⟩
        rw [← afterCheck_zero]
        simp
      · refine ⟨_, .differs hsame, ?_⟩
        simp [hsame, rest]
  | killing pid =>
      cases h
      cases r with
      | false => exact ⟨_, .alive pid, afterCheck_of_ne daemonize hsound⟩
      | true => exact ⟨_, .absent pid, afterCheck_zero daemonize⟩
  | detaching =>
      cases h
      cases r with
      | none => exact ⟨_, .attached, rfl⟩
      | some pid => exact ⟨_, .detached pid, rfl⟩
  | opening =>
      cases h
      cases r with
      | false => exact ⟨_, .notOpened, rfl⟩
      | true => exact ⟨_, .opened, rfl⟩
  | fdopening =>
      cases h
      cases r with
      | false => exact ⟨_, .noStream, rfl⟩
      | true => exact ⟨_, .stream, rfl⟩
  | locking =>
      cases h
      cases r with
      | false => exact ⟨_, .notLocked, rfl⟩
      | true => exact ⟨_, .locked, rfl⟩
  | lockedOut =>
      cases h
      exact ⟨_, .reported r, rfl⟩
  | leaving =>
      cases h
      exact ⟨_, .left r, rfl⟩
  | naming =>
      cases h
      exact ⟨_, .named r, rfl⟩
  | printing pid =>
      cases h
      cases r with
      | false => exact ⟨_, .notPrinted pid, rfl⟩
      | true => exact ⟨_, .printed pid, rfl⟩
  | writing pid =>
      cases h
      exact ⟨_, .wrote pid r, rfl⟩
  | closing pid written =>
      cases h
      cases written with
      | false => exact ⟨_, .notClosed rfl, rfl⟩
      | true =>
          cases r with
          | false => exact ⟨_, .notClosed rfl, rfl⟩
          | true =>
              refine ⟨_, .closed hsound, ?_⟩
              exact congrArg Prog.ret (decide_eq_true hsound)

/-! What holds at the positions. -/

/-- Not yet at the `open` of `write_pid`. -/
@[simp] def Pos.early : Pos → Bool
  | .start | .reading | .readClosing _ | .comparing _ | .killing _ | .detaching | .opening => true
  | _ => false

/-- Between the `open` and the `flock`. -/
@[simp] def Pos.undecided : Pos → Bool
  | .fdopening | .locking => true
  | _ => false

/-- The lock is held. -/
@[simp] def Pos.holding : Pos → Bool
  | .naming | .printing _ | .writing _ | .closing _ _ => true
  | _ => false

/-- The file has been emptied and nothing been written. -/
@[simp] def Pos.emptied : Pos → Bool
  | .fdopening | .locking | .lockedOut | .leaving | .naming | .printing _ | .writing _
  | .closing _ false => true
  | _ => false

/-- The pid is in the file. -/
@[simp] def Pos.wrote : Pos → Bool
  | .closing _ true | .passed => true
  | _ => false

def Looked (s : Progress) (n : ℤ) : Prop :=
  s.read = some n ∧ s.cleared = false ∧ s.opened = false ∧ s.settled = false ∧ s.refused = false

def Cleared (s : Progress) : Prop :=
  (∃ n, s.read = some n ∧ (n = 0 ∨ s.cleared = true)) ∧ s.settled = false ∧ s.refused = false

/-- What a start-up at a position has done. -/
def Here (k : Kernel) (i : Starter) : Pos → Prop
  | .start | .reading => k.seen i = {}
  | .readClosing n => Looked (k.seen i) (n.getD 0)
  | .comparing pid | .killing pid => Looked (k.seen i) pid ∧ pid ≠ 0
  | .detaching | .opening => Cleared (k.seen i) ∧ (k.seen i).opened = false
  | .fdopening | .locking => Cleared (k.seen i) ∧ (k.seen i).opened = true
  | .printing pid | .writing pid => pid = k.pid i
  | .closing pid written => pid = k.pid i ∧ (written = true → (k.seen i).wrote = true)
  | _ => True

/-- Where the other start-up may be once `pid` is in the file. -/
def Admitted (pid : ℤ) (p : Pos) : Pos → Prop
  | .start | .reading | .lockedOut | .leaving | .failed | .died _ => True
  | .readClosing n => n = some pid
  | .comparing n | .killing n => n = pid
  | .fdopening | .locking => p ≠ .passed
  | _ => False

/-- What holds between a start-up at `p` and the other one at `q`. -/
structure Good (k : Kernel) (i : Starter) (p q : Pos) : Prop where
  holder : k.lock = some i → k.stage i = .running ∧ (p.holding = true ∨ p = .leaving)
  holds : k.stage i = .running → p.holding = true → k.lock = some i
  file : p.emptied = true ∨ p.wrote = true → k.content.isSome = true
  empty : p.emptied = true → q.early = true → k.recorded = none
  written : k.stage i = .running → p.wrote = true → k.recorded = some (k.pid i) ∧
    (k.stage i.other = .running → Admitted (k.pid i) p q)
  waiting : k.lock = some i → k.stage i.other = .running → q.undecided = true →
    (k.seen i.other).wiped = none

structure Inv (pos : Starter → Pos) (k : Kernel) : Prop where
  positive : ∀ i, k.stage i ≠ .absent → 0 < k.pid i ∧ k.pid i < 2 ^ 31
  distinct : ∀ i, k.stage i = .running → k.stage i.other = .running → k.pid i ≠ k.pid i.other
  unborn : ∀ i, k.stage i = .absent → pos i = .start
  here : ∀ i, Here k i (pos i)
  spared : ∀ i, (k.seen i).refused = true → (k.seen i).wiped = none
  good : ∀ i, Good k i (pos i) (pos i.other)

/-! The condition. -/

/-- The start-up is under way with nothing in what it has read that stops it at the pid of `i`. -/
def Underway (w : PidWorld) (i : Starter) : Prop :=
  w.kernel.stage i.other = .running ∧ (∃ o k, w.procs i.other = .call o k) ∧
    ∃ n, (w.kernel.seen i.other).read = some n ∧
      (n = w.kernel.pid i → (w.kernel.seen i.other).cleared = true)

/-- The file does not hold the pid of the other start-up while that one runs. -/
def Unrecorded (w : PidWorld) (i : Starter) : Prop :=
  w.kernel.stage i.other = .running → w.kernel.recorded ≠ some (w.kernel.pid i.other)

/-- The steps after which nothing goes wrong. -/
def Orderly (w : PidWorld) : Label Starter Change PidRes → Prop
  | .call i ⟨.fopen, false⟩ => Unrecorded w i
  | .call i ⟨.fscanf, none⟩ => (w.kernel.seen i).opened = false → Unrecorded w i
  | .call i ⟨.write _, true⟩ => Underway w i → (w.kernel.seen i.other).opened = true
  | .call i ⟨.close, true⟩ =>
      (w.kernel.seen i).wrote = true → Underway w i → (w.kernel.seen i.other).settled = true
  | .call i ⟨.flock, true⟩ =>
      Underway w i → (w.kernel.seen i.other).opened = true →
        (w.kernel.seen i.other).settled = false → (w.kernel.seen i.other).wiped = none
  | _ => True

/-! Preservation. -/

@[simp] theorem other_other (i : Starter) : i.other.other = i := by cases i <;> rfl
@[simp] theorem other_ne (i : Starter) : i.other ≠ i := by cases i <;> decide
@[simp] theorem ne_other (i : Starter) : i ≠ i.other := (other_ne i).symm

theorem forall_starter {P : Starter → Prop} (i : Starter) (h : P i) (h' : P i.other) :
    ∀ j, P j := by
  intro j
  cases i <;> cases j <;> assumption

theorem scanPid_overwrite {pid : ℤ} (hpos : 0 < pid) (hlt : pid < 2 ^ 31) (content : Bytes) :
    scanPid (overwrite (pidText pid) content) = some pid := by
  have htext : overwrite (pidText pid) content =
      decimal pid.natAbs ++ 10 :: content.drop (pidText pid).length := by
    have hsign : ¬ pid < 0 := by omega
    rw [overwrite, pidText, signedDecimal, if_neg hsign, List.append_assoc]
    rfl
  have hscan := scanNumeral_decimal pid.natAbs (b := 10) (by decide)
    (content.drop (pidText pid).length)
  have hvalue : (strtol 10 (overwrite (pidText pid) content)).value = pid := by
    rw [htext, strtol, hscan]
    dsimp only
    rw [if_neg Bool.false_ne_true, if_neg (by omega), if_neg (by omega)]
    exact Int.natAbs_of_nonneg hpos.le
  rw [scanPid, hvalue, htext, hscan, if_neg (by simp)]
  congr 1
  exact Int.bmod_eq_of_le (by omega) (by omega)

/-- A call changes nothing of the other start-up. -/
theorem perform_frame {k k' : Kernel} {i : Starter} {o : PidOp} {r : PidRes o}
    (h : k.perform i o r = some k') :
    k'.stage = k.stage ∧ k'.pid i.other = k.pid i.other ∧ k'.seen i.other = k.seen i.other := by
  unfold Kernel.perform at h
  split at h <;> (try split_ifs at h) <;> cases h <;> simp [Kernel.note]

/-- The calls that change neither the file nor the lock. -/
def Quiet : (o : PidOp) → PidRes o → Prop
  | .open, true | .flock, true | .write _, true | .close, _ => False
  | _, _ => True

theorem perform_quiet {k k' : Kernel} {i : Starter} {o : PidOp} {r : PidRes o} (hquiet : Quiet o r)
    (h : k.perform i o r = some k') :
    k'.content = k.content ∧ k'.lock = k.lock ∧ (k'.seen i).wiped = (k.seen i).wiped := by
  unfold Kernel.perform at h
  split at h <;> (try split_ifs at h) <;> cases h <;> simp_all [Kernel.note, Quiet]

theorem here_congr {k k' : Kernel} {i : Starter} (hpid : k'.pid i = k.pid i)
    (hseen : k'.seen i = k.seen i) {p : Pos} (h : Here k i p) : Here k' i p := by
  have hsame : Here k' i p = Here k i p := by cases p <;> simp only [Here, hpid, hseen]
  rw [hsame]
  exact h

/-- The invariant after a call from what holds between the two sides. -/
theorem Inv.advance {pos : Starter → Pos} {k k' : Kernel} {i : Starter} {p' : Pos}
    (hinv : Inv pos k) (hrun : k.stage i = .running) (hstage : k'.stage = k.stage)
    (hpid : k'.pid i.other = k.pid i.other) (hseen : k'.seen i.other = k.seen i.other)
    (hpos : 0 < k'.pid i ∧ k'.pid i < 2 ^ 31)
    (hne : k.stage i.other = .running → k'.pid i ≠ k.pid i.other) (hhere : Here k' i p')
    (hspared : (k'.seen i).refused = true → (k'.seen i).wiped = none)
    (hgood : Good k' i p' (pos i.other)) (hgood' : Good k' i.other (pos i.other) p') :
    Inv (Function.update pos i p') k' := by
  refine ⟨?_, ?_, ?_, ?_, ?_, ?_⟩
  · refine forall_starter i (fun _ => hpos) ?_
    rw [hstage, hpid]
    exact hinv.positive i.other
  · refine forall_starter i ?_ ?_
    · rw [hstage, hpid]
      exact fun _ => hne
    · rw [other_other, hstage, hpid]
      exact fun h _ => (hne h).symm
  · refine forall_starter i ?_ ?_
    · rw [hstage, hrun]
      intro h
      cases h
    · rw [hstage, Function.update_of_ne (other_ne i)]
      exact hinv.unborn i.other
  · refine forall_starter i ?_ ?_
    · rw [Function.update_self]
      exact hhere
    · rw [Function.update_of_ne (other_ne i)]
      exact here_congr hpid hseen (hinv.here i.other)
  · refine forall_starter i hspared ?_
    rw [hseen]
    exact hinv.spared i.other
  · refine forall_starter i ?_ ?_
    · rw [Function.update_self, Function.update_of_ne (other_ne i)]
      exact hgood
    · rw [other_other, Function.update_self, Function.update_of_ne (other_ne i)]
      exact hgood'

/-- A call that leaves the file and the lock alone. -/
theorem Inv.quiet {pos : Starter → Pos} {k k' : Kernel} {i : Starter} {p p' : Pos}
    (hinv : Inv pos k) (hp : pos i = p) (hrun : k.stage i = .running) (hstage : k'.stage = k.stage)
    (hpid : k'.pid i.other = k.pid i.other) (hseen : k'.seen i.other = k.seen i.other)
    (hcontent : k'.content = k.content) (hlock : k'.lock = k.lock)
    (hwiped : (k'.seen i).wiped = (k.seen i).wiped) (hpos : 0 < k'.pid i ∧ k'.pid i < 2 ^ 31)
    (hne : k.stage i.other = .running → k'.pid i ≠ k.pid i.other) (hhere : Here k' i p')
    (hspared : (k'.seen i).refused = true → (k'.seen i).wiped = none)
    (hadmitted : ∀ q, k.recorded = some (k.pid i.other) → k.content.isSome = true →
      k.stage i.other = .running → Admitted (k.pid i.other) q p →
        Admitted (k.pid i.other) q p')
    (hholder : p.holding = true ∨ p = .leaving → p'.holding = true ∨ p' = .leaving := by simp)
    (hholds : p'.holding = true → p.holding = true := by simp)
    (hemptied : p'.emptied = true → p.emptied = true := by simp)
    (hwrote : p'.wrote = false := by rfl)
    (hearly : p'.early = true → p.early = true := by simp)
    (hundecided : p'.undecided = true → p.undecided = true := by simp) :
    Inv (Function.update pos i p') k' := by
  have hg := hinv.good i
  have hg' := hinv.good i.other
  rw [hp] at hg
  rw [other_other, hp] at hg'
  have hrecorded : k'.recorded = k.recorded := congrArg (Option.bind · scanPid) hcontent
  refine hinv.advance hrun hstage hpid hseen hpos hne hhere hspared ⟨?_, ?_, ?_, ?_, ?_, ?_⟩
    ⟨?_, ?_, ?_, ?_, ?_, ?_⟩
  · rw [hlock, hstage]
    exact fun h => (hg.holder h).imp_right hholder
  · rw [hlock, hstage]
    exact fun h hh => hg.holds h (hholds hh)
  · rw [hcontent, hwrote]
    exact fun h => hg.file (.inl (hemptied (h.resolve_right Bool.false_ne_true)))
  · rw [hrecorded]
    exact fun h => hg.empty (hemptied h)
  · rw [hwrote]
    exact fun _ h => absurd h Bool.false_ne_true
  · rw [hlock, hstage, hseen]
    exact hg.waiting
  · rw [hlock, hstage]
    exact hg'.holder
  · rw [hlock, hstage]
    exact hg'.holds
  · rw [hcontent]
    exact hg'.file
  · rw [hrecorded]
    exact fun h hh => hg'.empty h (hearly hh)
  · rw [hrecorded, hstage, hpid, other_other]
    intro h hh
    obtain ⟨hrec, hadm⟩ := hg'.written h hh
    rw [other_other] at hadm
    exact ⟨hrec, fun h' => hadmitted _ hrec (hg'.file (.inr hh)) h (hadm h')⟩
  · rw [hlock, hstage, other_other, hwiped]
    have hw := hg'.waiting
    rw [other_other] at hw
    exact fun h h' hh => hw h h' (hundecided hh)

/-- Where a start-up goes that has found nothing in the file that stops it. -/
theorem inv_cleared {pos : Starter → Pos} {k k' : Kernel} {i : Starter} {p : Pos}
    (daemonize : Bool) (hinv : Inv pos k) (hp : pos i = p) (hrun : k.stage i = .running)
    (hstage : k'.stage = k.stage) (hpid : k'.pid = k.pid) (hseen : k'.seen i.other = k.seen i.other)
    (hcontent : k'.content = k.content) (hlock : k'.lock = k.lock)
    (hwiped : (k'.seen i).wiped = (k.seen i).wiped)
    (hcleared : Cleared (k'.seen i) ∧ (k'.seen i).opened = false)
    (hnot : ∀ q, k.recorded = some (k.pid i.other) → k.content.isSome = true →
      k.stage i.other = .running → ¬ Admitted (k.pid i.other) q p)
    (hholder : ¬ (p.holding = true ∨ p = .leaving) := by simp)
    (hearly : p.early = true := by rfl) :
    Inv (Function.update pos i (if daemonize then .detaching else .opening)) k' := by
  have hspared : (k'.seen i).refused = true → (k'.seen i).wiped = none := fun h =>
    absurd (hcleared.1.2.2.symm.trans h) Bool.false_ne_true
  have hposi := hinv.positive i (by simp [hrun])
  refine hinv.quiet hp hrun hstage (congrFun hpid _) hseen hcontent hlock hwiped ?_ ?_ ?_ hspared
    (fun q hrec hsome hother hadm => absurd hadm (hnot q hrec hsome hother))
    (fun h => absurd h hholder) ?_ ?_ ?_ (fun _ => hearly) ?_
  · rw [hpid]
    exact hposi
  · rw [hpid]
    exact hinv.distinct i hrun
  · cases daemonize <;> exact hcleared
  · cases daemonize <;> simp
  · cases daemonize <;> simp
  · cases daemonize <;> rfl
  · cases daemonize <;> simp

/-- The calls that leave the file and the lock alone. -/
theorem inv_quiet_call {daemonize : Bool} {procs : Starter → PidProg Bool} {pos : Starter → Pos}
    {k k' : Kernel} {i : Starter} {p' : Pos} {o : PidOp} {r : PidRes o} (hinv : Inv pos k)
    (hrun : k.stage i = .running) (hadv : Advance daemonize (pos i) o r p')
    (horderly : Orderly ⟨procs, k⟩ (.call i ⟨o, r⟩)) (hk : k.perform i o r = some k')
    (hquiet : Quiet o r) : Inv (Function.update pos i p') k' := by
  obtain ⟨hstage, hpid, hseen⟩ := perform_frame hk
  obtain ⟨hcontent, hlock, hwiped⟩ := perform_quiet hquiet hk
  have hh := hinv.here i
  have hs := hinv.spared i
  have hposi := hinv.positive i (by simp [hrun])
  have hposj : k.stage i.other = .running → 0 < k.pid i.other := fun h =>
    (hinv.positive i.other (by simp [h])).1
  have hdist := hinv.distinct i hrun
  generalize hp : pos i = p at *
  cases hadv with
  | found =>
      simp [Kernel.perform] at hk
      obtain ⟨hsome, rfl⟩ := hk
      exact hinv.quiet hp hrun hstage hpid hseen hcontent hlock hwiped hposi hdist hh hs
        fun q _ _ _ h => h
  | missing =>
      simp [Kernel.perform] at hk
      subst hk
      have hblank : k.seen i = {} := hh
      refine inv_cleared daemonize hinv hp hrun hstage rfl hseen hcontent hlock hwiped ?_ ?_
      · simp [Kernel.note, hblank, Cleared]
      · intro q hrec _ hother _
        exact horderly hother hrec
  | read n =>
      simp [Kernel.perform] at hk
      obtain ⟨hn, rfl⟩ := hk
      have hblank : k.seen i = {} := hh
      refine hinv.quiet hp hrun hstage hpid hseen hcontent hlock hwiped hposi hdist ?_ ?_
        ?_
      · simp [Here, Kernel.note, hblank, Looked]
      · simp [Kernel.note, hblank]
      · intro q hrec _ hother _
        rcases hn with hn | rfl
        · exact hn.trans hrec
        · have hnotOpened : (k.seen i).opened = false := by rw [hblank]
          exact (horderly hnotOpened hother hrec).elim
  | readNothing hzero =>
      simp [Kernel.perform] at hk
      subst hk
      refine inv_cleared daemonize hinv hp hrun hstage rfl hseen hcontent hlock hwiped ?_ ?_
      · obtain ⟨hread, hcl, hop, hse, hre⟩ := hh
        exact ⟨⟨⟨_, hread, .inl hzero⟩, hse, hre⟩, hop⟩
      · intro q _ _ hother hadm
        have := hposj hother
        obtain rfl : _ = some _ := hadm
        simp at hzero
        omega
  | readSome hne =>
      simp [Kernel.perform] at hk
      subst hk
      refine hinv.quiet hp hrun hstage hpid hseen hcontent hlock hwiped hposi hdist ⟨hh, hne⟩ hs
        ?_
      intro q _ _ _ hadm
      obtain rfl : _ = some _ := hadm
      rfl
  | same pid =>
      simp [Kernel.perform] at hk
      obtain ⟨hself, rfl⟩ := hk
      obtain ⟨⟨hread, hcl, hop, hse, hre⟩, hne⟩ := hh
      refine inv_cleared daemonize hinv hp hrun hstage rfl hseen hcontent hlock hwiped ?_ ?_
      · simp [Kernel.note, Cleared, hread, hop, hse, hre]
      · intro q _ _ hother hadm
        exact hdist hother (hself.symm.trans hadm)
  | differs hne =>
      simp [Kernel.perform] at hk
      obtain ⟨hself, rfl⟩ := hk
      obtain ⟨⟨hread, hcl, hop, hse, hre⟩, hzero⟩ := hh
      refine hinv.quiet hp hrun hstage hpid hseen hcontent hlock hwiped hposi hdist ?_ ?_
        fun q _ _ _ h => h
      · simp [Here, Kernel.note, Looked, hread, hcl, hop, hse, hre, hzero, hne]
      · simp [Kernel.note, hre]
  | absent pid =>
      simp [Kernel.perform] at hk
      obtain ⟨hnot, rfl⟩ := hk
      obtain ⟨⟨hread, hcl, hop, hse, hre⟩, hzero⟩ := hh
      refine inv_cleared daemonize hinv hp hrun hstage rfl hseen hcontent hlock hwiped ?_ ?_
      · simp [Kernel.note, Cleared, hread, hop, hse, hre]
      · intro q _ _ hother hadm
        apply hnot
        cases i
        · exact .inr ⟨hother, hadm.symm⟩
        · exact .inl ⟨hother, hadm.symm⟩
  | alive pid =>
      simp [Kernel.perform] at hk
      subst hk
      exact hinv.quiet hp hrun hstage hpid hseen hcontent hlock hwiped hposi hdist trivial hs
        fun _ _ _ _ _ => trivial
  | detached pid =>
      simp [Kernel.perform] at hk
      obtain ⟨hfresh, rfl⟩ := hk
      refine hinv.quiet hp hrun hstage hpid hseen hcontent hlock hwiped ?_ ?_ hh hs
        fun _ _ _ _ h => h
      · simpa using ⟨hfresh.1, hfresh.2.1⟩
      · simpa using hfresh.2.2
  | attached =>
      simp [Kernel.perform] at hk
      subst hk
      exact hinv.quiet hp hrun hstage hpid hseen hcontent hlock hwiped hposi hdist trivial hs
        fun _ _ _ _ _ => trivial
  | opened => exact hquiet.elim
  | notOpened =>
      simp [Kernel.perform] at hk
      subst hk
      exact hinv.quiet hp hrun hstage hpid hseen hcontent hlock hwiped hposi hdist trivial hs
        fun _ _ _ _ _ => trivial
  | stream =>
      simp [Kernel.perform] at hk
      subst hk
      exact hinv.quiet hp hrun hstage hpid hseen hcontent hlock hwiped hposi hdist hh hs
        fun _ _ _ _ h => h
  | noStream =>
      simp [Kernel.perform] at hk
      subst hk
      refine hinv.quiet hp hrun hstage hpid hseen hcontent hlock hwiped hposi hdist trivial ?_
        fun _ _ _ _ _ => trivial
      simpa [Kernel.note] using hs
  | locked => exact hquiet.elim
  | notLocked =>
      simp [Kernel.perform] at hk
      subst hk
      refine hinv.quiet hp hrun hstage hpid hseen hcontent hlock hwiped hposi hdist trivial ?_
        fun _ _ _ _ _ => trivial
      have hw := (hinv.good i.other).waiting
      rw [other_other, hp] at hw
      intro hrefused
      rw [hwiped]
      simp [Kernel.note] at hrefused
      exact hw hrefused hrun rfl
  | reported n =>
      simp [Kernel.perform] at hk
      obtain ⟨hn, rfl⟩ := hk
      refine hinv.quiet hp hrun hstage hpid hseen hcontent hlock hwiped hposi hdist trivial ?_
        fun _ _ _ _ _ => trivial
      simpa [Kernel.note] using hs
  | left r => exact hquiet.elim
  | named pid =>
      simp [Kernel.perform] at hk
      obtain ⟨hself, rfl⟩ := hk
      refine hinv.quiet hp hrun hstage hpid hseen hcontent hlock hwiped hposi hdist hself ?_
        fun _ _ _ _ h => h
      simpa [Kernel.note] using hs
  | printed pid =>
      simp [Kernel.perform] at hk
      subst hk
      exact hinv.quiet hp hrun hstage hpid hseen hcontent hlock hwiped hposi hdist hh hs
        fun _ _ _ _ h => h
  | notPrinted pid =>
      simp [Kernel.perform] at hk
      subst hk
      exact hinv.quiet hp hrun hstage hpid hseen hcontent hlock hwiped hposi hdist trivial hs
        fun _ _ _ _ _ => trivial
  | wrote pid r =>
      cases r with
      | true => exact hquiet.elim
      | false =>
          simp [Kernel.perform] at hk
          subst hk
          exact hinv.quiet hp hrun hstage hpid hseen hcontent hlock hwiped hposi hdist
            ⟨hh, fun h => absurd h Bool.false_ne_true⟩ hs fun _ _ _ _ h => h
  | closed h => exact hquiet.elim
  | notClosed h => exact hquiet.elim

/-! The calls that change the file or the lock. -/

theorem emptied_or_wrote {q : Pos} (h : q.holding = true ∨ q = .leaving) :
    q.emptied = true ∨ q.wrote = true := by
  rcases h with h | rfl
  · cases q with
    | closing pid written => cases written <;> simp
    | _ => simp at h ⊢
  · exact .inl rfl

/-- A start-up that has read the file and may go on is under way. -/
theorem underway_of_cleared {daemonize : Starter → Bool} {pos : Starter → Pos} {k : Kernel}
    {i : Starter} (hrun : k.stage i.other = .running) (hpid : 0 < k.pid i)
    (hcleared : Cleared (k.seen i.other))
    (hcall : ∃ o c, rest (daemonize i.other) (pos i.other) = .call o c) :
    Underway ⟨fun j => rest (daemonize j) (pos j), k⟩ i := by
  obtain ⟨⟨n, hread, hn⟩, -, -⟩ := hcleared
  refine ⟨hrun, hcall, n, hread, ?_⟩
  rintro rfl
  exact hn.resolve_left hpid.ne'

theorem underway_of_looked {daemonize : Starter → Bool} {pos : Starter → Pos} {k : Kernel}
    {i : Starter} {n : ℤ} (hrun : k.stage i.other = .running) (hlooked : Looked (k.seen i.other) n)
    (hne : n ≠ k.pid i) (hcall : ∃ o c, rest (daemonize i.other) (pos i.other) = .call o c) :
    Underway ⟨fun j => rest (daemonize j) (pos j), k⟩ i :=
  ⟨hrun, hcall, n, hlooked.1, fun h => absurd h hne⟩

theorem call_of_undecided (daemonize : Bool) {q : Pos} (h : q.undecided = true) :
    ∃ o c, rest daemonize q = .call o c := by
  cases q with
  | fdopening => exact ⟨_, _, rfl⟩
  | locking => exact ⟨_, _, rfl⟩
  | _ => simp at h

section Changes

variable {pos : Starter → Pos} {k k' : Kernel} {i : Starter}

/-- The text of the file goes. -/
theorem inv_opened (hinv : Inv pos k) (hrun : k.stage i = .running) (hp : pos i = .opening)
    (hk : k.perform i .open true = some k') : Inv (Function.update pos i .fdopening) k' := by
  obtain ⟨hstage, hpid, hseen⟩ := perform_frame hk
  simp only [Kernel.perform, Option.some.injEq] at hk
  have hposi := hinv.positive i (by simp [hrun])
  have hh := hinv.here i
  have hg := hinv.good i
  have hg' := hinv.good i.other
  rw [other_other] at hg'
  rw [hp] at hh hg hg'
  obtain ⟨⟨hread, hse, hre⟩, hop⟩ := hh
  have hfree : k.lock ≠ some i := by
    intro hlock
    have := (hg.holder hlock).2
    simp at this
  have hseenOf : k'.seen i = { k.seen i with opened := true, wiped := k.recorded } := by
    subst hk
    simp [Kernel.note]
  have hempty : k'.recorded = none := by
    subst hk
    rfl
  have hcontent : k'.content = some [] := by
    subst hk
    rfl
  have hlock : k'.lock = k.lock := by
    subst hk
    rfl
  have hpidOf : k'.pid i = k.pid i := by
    subst hk
    rfl
  refine hinv.advance hrun hstage hpid hseen (hpidOf ▸ hposi) (hpidOf ▸ hinv.distinct i hrun)
    ?_ ?_ ⟨?_, ?_, ?_, ?_, ?_, ?_⟩ ⟨?_, ?_, ?_, ?_, ?_, ?_⟩
  · rw [Here, hseenOf]
    exact ⟨⟨hread, hse, hre⟩, rfl⟩
  · rw [hseenOf]
    intro h
    exact absurd (hre.symm.trans h) Bool.false_ne_true
  · rw [hlock]
    exact fun h => absurd h hfree
  · simp
  · simp [hcontent]
  · exact fun _ _ => hempty
  · simp
  · rw [hlock]
    exact fun h => absurd h hfree
  · rw [hlock, hstage]
    exact hg'.holder
  · rw [hlock, hstage]
    exact hg'.holds
  · simp [hcontent]
  · simp
  · rw [hstage, other_other]
    intro hother hwrote
    have hadm := (hg'.written hother hwrote).2
    rw [other_other] at hadm
    exact (hadm hrun).elim
  · rw [hlock, hstage, other_other, hseenOf]
    intro hheld _ _
    obtain ⟨hother, hholding⟩ := hg'.holder hheld
    rcases emptied_or_wrote hholding with hemptied | hwrote
    · exact hg'.empty hemptied rfl
    · have hadm := (hg'.written hother hwrote).2
      rw [other_other] at hadm
      exact (hadm hrun).elim

/-- The lock is taken while it is free. -/
theorem inv_locked {daemonize : Starter → Bool} (hinv : Inv pos k) (hrun : k.stage i = .running)
    (hp : pos i = .locking)
    (horderly : Orderly ⟨fun j => rest (daemonize j) (pos j), k⟩ (.call i ⟨.flock, true⟩))
    (hk : k.perform i .flock true = some k') : Inv (Function.update pos i .naming) k' := by
  obtain ⟨hstage, hpid, hseen⟩ := perform_frame hk
  simp only [Kernel.perform, Option.ite_none_right_eq_some, Option.some.injEq] at hk
  obtain ⟨hfree, hk⟩ := hk
  have hposi := hinv.positive i (by simp [hrun])
  have hh' := hinv.here i.other
  have hs := hinv.spared i
  have hg := hinv.good i
  have hg' := hinv.good i.other
  rw [other_other] at hg'
  rw [hp] at hg hg'
  have hlock : k'.lock = some i := by
    subst hk
    rfl
  have hcontent : k'.content = k.content := by
    subst hk
    rfl
  have hrecorded : k'.recorded = k.recorded := congrArg (Option.bind · scanPid) hcontent
  have hpidOf : k'.pid i = k.pid i := by
    subst hk
    rfl
  have hspared : (k'.seen i).refused = true → (k'.seen i).wiped = none := by
    subst hk
    simpa [Kernel.note] using hs
  have hnotHolding : k.stage i.other = .running → (pos i.other).holding = false := by
    intro hother
    by_contra hholding
    rw [Bool.not_eq_false] at hholding
    rw [hg'.holds hother hholding] at hfree
    cases hfree
  refine hinv.advance hrun hstage hpid hseen (hpidOf ▸ hposi) (hpidOf ▸ hinv.distinct i hrun)
    trivial hspared ⟨?_, ?_, ?_, ?_, ?_, ?_⟩ ⟨?_, ?_, ?_, ?_, ?_, ?_⟩
  · rw [hstage]
    exact fun _ => ⟨hrun, .inl rfl⟩
  · exact fun _ _ => hlock
  · rw [hcontent]
    exact fun _ => hg.file (.inl rfl)
  · rw [hrecorded]
    exact fun _ => hg.empty rfl
  · simp
  · rw [hstage, hseen]
    intro _ hother hundecided
    have hhere : Cleared (k.seen i.other) ∧ (k.seen i.other).opened = true := by
      generalize pos i.other = q at hh' hundecided
      cases q with
      | fdopening => exact hh'
      | locking => exact hh'
      | _ => simp at hundecided
    have hcall := call_of_undecided (daemonize i.other) hundecided
    exact horderly (underway_of_cleared hother hposi.1 hhere.1 hcall) hhere.2 hhere.1.2.1
  · rw [hlock]
    intro h
    exact absurd (Option.some.inj h) (ne_other i)
  · rw [hstage]
    intro hother hholding
    exact absurd ((hnotHolding hother).symm.trans hholding) Bool.false_ne_true
  · rw [hcontent]
    exact hg'.file
  · simp
  · rw [hstage, other_other]
    intro hother hwrote
    have hadm := (hg'.written hother hwrote).2
    rw [other_other] at hadm
    have hne : pos i.other ≠ .passed := hadm hrun
    have hnot := hnotHolding hother
    generalize pos i.other = q at hwrote hne hnot
    cases q <;> simp at hwrote hne hnot
  · simp

/-- The pid gets into the file. -/
theorem inv_wrote {daemonize : Starter → Bool} {pid : ℤ} (hinv : Inv pos k)
    (hrun : k.stage i = .running) (hp : pos i = .writing pid)
    (horderly : Orderly ⟨fun j => rest (daemonize j) (pos j), k⟩
      (.call i ⟨.write (pidText pid), true⟩))
    (hk : k.perform i (.write (pidText pid)) true = some k') :
    Inv (Function.update pos i (.closing pid true)) k' := by
  obtain ⟨hstage, hpid, hseen⟩ := perform_frame hk
  simp only [Kernel.perform, Option.some.injEq] at hk
  have hposi := hinv.positive i (by simp [hrun])
  have hh := hinv.here i
  have hh' := hinv.here i.other
  have hs := hinv.spared i
  have hg := hinv.good i
  have hg' := hinv.good i.other
  rw [other_other] at hg'
  rw [hp] at hh hg hg'
  have hself : pid = k.pid i := hh
  have hheld : k.lock = some i := hg.holds hrun rfl
  obtain ⟨content, hfile⟩ := Option.isSome_iff_exists.mp (hg.file (.inl rfl))
  have hlock : k'.lock = k.lock := by
    subst hk
    rfl
  have hcontent : k'.content = some (overwrite (pidText pid) content) := by
    subst hk
    simp [Kernel.note, hfile]
  have hrecorded : k'.recorded = some (k.pid i) := by
    rw [Kernel.recorded, hcontent, hself]
    exact scanPid_overwrite hposi.1 hposi.2 content
  have hpidOf : k'.pid i = k.pid i := by
    subst hk
    rfl
  have hspared : (k'.seen i).refused = true → (k'.seen i).wiped = none := by
    subst hk
    simpa [Kernel.note] using hs
  have hwroteOf : (k'.seen i).wrote = true := by
    subst hk
    simp [Kernel.note]
  have hexcluded : k.stage i.other = .running → (pos i.other).wrote = true → False := by
    intro hother hwrote
    have hadm := (hg'.written hother hwrote).2
    rw [other_other] at hadm
    exact hadm hrun
  have hnotHolding : k.stage i.other = .running → (pos i.other).holding = false := by
    intro hother
    by_contra hholding
    rw [Bool.not_eq_false] at hholding
    have := hheld.symm.trans (hg'.holds hother hholding)
    exact absurd (Option.some.inj this) (ne_other i)
  have hadmitted : k.stage i.other = .running →
      Admitted (k.pid i) (.closing pid true) (pos i.other) := by
    intro hother
    have hnot := hnotHolding hother
    have hexcl := hexcluded hother
    have hunder : ∀ {n : ℤ}, Looked (k.seen i.other) n →
        (∃ o c, rest (daemonize i.other) (pos i.other) = .call o c) → n = k.pid i := by
      intro n hlooked hcall
      by_contra hne
      have hopened := horderly (underway_of_looked hother hlooked hne hcall)
      exact absurd (hlooked.2.2.1.symm.trans hopened) Bool.false_ne_true
    have hopening : Cleared (k.seen i.other) → (k.seen i.other).opened = false →
        (∃ o c, rest (daemonize i.other) (pos i.other) = .call o c) → False := by
      intro hcleared hnotOpened hcall
      have hopened := horderly (underway_of_cleared hother hposi.1 hcleared hcall)
      exact absurd (hnotOpened.symm.trans hopened) Bool.false_ne_true
    generalize pos i.other = q at hh' hnot hexcl hunder hopening
    cases q with
    | readClosing n =>
        have hn := hunder hh' ⟨_, _, rfl⟩
        cases n with
        | none => exact absurd hn hposi.1.ne
        | some n => exact congrArg some hn
    | comparing n => exact hunder hh'.1 ⟨_, _, afterRead_of_ne _ hh'.2⟩
    | killing n => exact hunder hh'.1 ⟨_, _, rfl⟩
    | detaching => exact hopening hh'.1 hh'.2 ⟨_, _, rfl⟩
    | opening => exact hopening hh'.1 hh'.2 ⟨_, _, rfl⟩
    | passed => exact hexcl rfl
    | _ => simp [Admitted] at hnot ⊢
  refine hinv.advance hrun hstage hpid hseen (hpidOf ▸ hposi) (hpidOf ▸ hinv.distinct i hrun)
    ⟨hself.trans hpidOf.symm, fun _ => hwroteOf⟩ hspared ⟨?_, ?_, ?_, ?_, ?_, ?_⟩
    ⟨?_, ?_, ?_, ?_, ?_, ?_⟩
  · rw [hstage]
    exact fun _ => ⟨hrun, .inl rfl⟩
  · rw [hlock]
    exact fun _ _ => hheld
  · simp [hcontent]
  · simp
  · rw [hstage, hpidOf]
    exact fun _ _ => ⟨hrecorded, hadmitted⟩
  · rw [hlock, hstage, hseen]
    exact hg.waiting
  · rw [hlock, hstage]
    exact hg'.holder
  · rw [hlock, hstage]
    exact hg'.holds
  · simp [hcontent]
  · simp
  · rw [hstage]
    intro hother hwrote
    exact (hexcluded hother hwrote).elim
  · simp

/-- The file is closed, and with it the lock gone. -/
theorem inv_closed {daemonize : Starter → Bool} {p p' : Pos} {r : Bool} (hinv : Inv pos k)
    (hrun : k.stage i = .running) (hp : pos i = p)
    (hend : p' = .failed ∨ p' = .passed ∧ r = true ∧ ∃ pid, p = .closing pid true)
    (horderly : Orderly ⟨fun j => rest (daemonize j) (pos j), k⟩ (.call i ⟨.close, r⟩))
    (hk : k.perform i .close r = some k') : Inv (Function.update pos i p') k' := by
  obtain ⟨hstage, hpid, hseen⟩ := perform_frame hk
  simp only [Kernel.perform, Option.some.injEq] at hk
  have hposi := hinv.positive i (by simp [hrun])
  have hh := hinv.here i
  have hh' := hinv.here i.other
  have hg := hinv.good i
  have hg' := hinv.good i.other
  rw [other_other] at hg'
  rw [hp] at hh hg hg'
  have hfree : k'.lock ≠ some i := by
    subst hk
    dsimp only
    split_ifs with hheld
    · simp
    · exact hheld
  have hlock : k'.lock = some i.other ↔ k.lock = some i.other := by
    subst hk
    dsimp only
    split_ifs with hheld
    · simp [hheld]
    · exact Iff.rfl
  have hsame : k'.content = k.content ∧ k'.pid = k.pid ∧ k'.seen = k.seen := by
    subst hk
    exact ⟨rfl, rfl, rfl⟩
  obtain ⟨hcontent, hpidOf, hseenOf⟩ := hsame
  have hrecorded : k'.recorded = k.recorded := congrArg (Option.bind · scanPid) hcontent
  have hquiet : p'.holding = false ∧ p'.emptied = false ∧ p'.early = false ∧
      p'.undecided = false := by
    rcases hend with rfl | ⟨rfl, -⟩ <;> exact ⟨rfl, rfl, rfl, rfl⟩
  obtain ⟨hholding, hemptied, hearly, hundecided⟩ := hquiet
  have hpassed : p'.wrote = true → ∃ pid, p = .closing pid true ∧ p' = .passed ∧ r = true := by
    rcases hend with rfl | ⟨rfl, hr, pid, hpid⟩
    · simp
    · exact fun _ => ⟨pid, hpid, rfl, hr⟩
  refine hinv.advance hrun hstage hpid hseen (hpidOf ▸ hposi) (hpidOf ▸ hinv.distinct i hrun)
    ?_ (hseenOf ▸ hinv.spared i) ⟨?_, ?_, ?_, ?_, ?_, ?_⟩ ⟨?_, ?_, ?_, ?_, ?_, ?_⟩
  · rcases hend with rfl | ⟨rfl, -⟩ <;> trivial
  · exact fun h => absurd h hfree
  · rw [hholding]
    exact fun _ h => absurd h Bool.false_ne_true
  · rw [hcontent]
    intro h
    rw [hemptied] at h
    obtain ⟨pid, rfl, -⟩ := hpassed (h.resolve_left Bool.false_ne_true)
    exact hg.file (.inr rfl)
  · rw [hemptied]
    exact fun h => absurd h Bool.false_ne_true
  · rw [hrecorded, hstage, hpidOf]
    intro _ hwrote
    obtain ⟨pid, rfl, rfl, rfl⟩ := hpassed hwrote
    obtain ⟨hrec, hadm⟩ := hg.written hrun rfl
    refine ⟨hrec, fun hother => ?_⟩
    have hadmitted := hadm hother
    have hsettled : Cleared (k.seen i.other) → (pos i.other).undecided = true → False := by
      intro hcleared hq
      have := horderly (hh.2 rfl)
        (underway_of_cleared hother hposi.1 hcleared (call_of_undecided _ hq))
      exact absurd (hcleared.2.1.symm.trans this) Bool.false_ne_true
    generalize pos i.other = q at hh' hadmitted hsettled
    cases q with
    | fdopening => exact (hsettled hh'.1 rfl).elim
    | locking => exact (hsettled hh'.1 rfl).elim
    | _ => exact hadmitted
  · exact fun h => absurd h hfree
  · rw [hlock, hstage]
    exact hg'.holder
  · rw [hlock, hstage]
    exact hg'.holds
  · rw [hcontent]
    exact hg'.file
  · rw [hearly]
    exact fun _ h => absurd h Bool.false_ne_true
  · rw [hrecorded, hstage, hpidOf, other_other]
    intro hother hwrote
    obtain ⟨hrec, hadm⟩ := hg'.written hother hwrote
    rw [other_other] at hadm
    refine ⟨hrec, fun h => ?_⟩
    rcases hend with rfl | ⟨rfl, -, pid, rfl⟩
    · trivial
    · exact (hadm h).elim
  · rw [hundecided]
    exact fun _ _ h => absurd h Bool.false_ne_true

end Changes

/-! Whole runs. -/

theorem inv_before (content : Option Bytes) :
    Inv (fun _ => .start) { content := content : Kernel } where
  positive i h := absurd rfl h
  distinct i h := by cases h
  unborn _ _ := rfl
  here _ := rfl
  spared _ h := by cases h
  good _ :=
    { holder := by simp
      holds := by simp
      file := by simp
      empty := by simp
      written := by simp
      waiting := by simp }

theorem inv_call {daemonize : Starter → Bool} {pos : Starter → Pos} {k k' : Kernel} {i : Starter}
    {o : PidOp} {c : PidRes o → PidProg Bool} {r : PidRes o} (hinv : Inv pos k)
    (hcall : rest (daemonize i) (pos i) = .call o c)
    (horderly : Orderly ⟨fun j => rest (daemonize j) (pos j), k⟩ (.call i ⟨o, r⟩))
    (hanswer : machine.answer k i o r = some k') :
    ∃ p, c r = rest (daemonize i) p ∧ Inv (Function.update pos i p) k' := by
  simp only [machine, Option.ite_none_right_eq_some] at hanswer
  obtain ⟨hrun, hk⟩ := hanswer
  have hposi := (hinv.positive i (by simp [hrun])).1
  have hsound : (pos i).Sound := by
    have hh := hinv.here i
    generalize pos i = p at hh
    cases p with
    | comparing pid => exact hh.2
    | killing pid => exact hh.2
    | printing pid => exact hh.trans_ne hposi.ne'
    | writing pid => exact hh.trans_ne hposi.ne'
    | closing pid written => exact hh.1.trans_ne hposi.ne'
    | _ => trivial
  obtain ⟨p', hadv, hrest⟩ := advance_of_call r hsound hcall
  refine ⟨p', hrest, ?_⟩
  by_cases hquiet : Quiet o r
  · exact inv_quiet_call hinv hrun hadv horderly hk hquiet
  · clear hcall hrest hsound
    generalize hp : pos i = p at hadv
    cases hadv with
    | opened => exact inv_opened hinv hrun hp hk
    | locked => exact inv_locked hinv hrun hp horderly hk
    | wrote pid r =>
        cases r with
        | true => exact inv_wrote hinv hrun hp horderly hk
        | false => exact absurd trivial hquiet
    | left r => exact inv_closed hinv hrun hp (.inl rfl) horderly hk
    | closed hne => exact inv_closed hinv hrun hp (.inr ⟨rfl, rfl, _, rfl⟩) horderly hk
    | notClosed hne => exact inv_closed hinv hrun hp (.inl rfl) horderly hk
    | _ => exact absurd trivial hquiet

theorem inv_start {pos : Starter → Pos} {k : Kernel} {i : Starter} {pid : ℤ} (hinv : Inv pos k)
    (habsent : k.stage i = .absent) (hfresh : k.Fresh i pid) :
    Inv pos { k with
      stage := Function.update k.stage i .running
      pid := Function.update k.pid i pid } := by
  have hstart := hinv.unborn i habsent
  have hg := hinv.good i
  have hg' := hinv.good i.other
  have hh := hinv.here i
  rw [other_other] at hg'
  rw [hstart] at hg hg' hh
  have hfree : k.lock ≠ some i := by
    intro hlock
    have hrun := (hg.holder hlock).1
    rw [habsent] at hrun
    cases hrun
  refine ⟨?_, ?_, ?_, ?_, hinv.spared, ?_⟩
  · refine forall_starter i ?_ ?_
    · intro _
      dsimp only
      rw [Function.update_self]
      exact ⟨hfresh.1, hfresh.2.1⟩
    · simpa using hinv.positive i.other
  · refine forall_starter i ?_ ?_
    · simpa using hfresh.2.2
    · simpa using fun h => (hfresh.2.2 h).symm
  · refine forall_starter i ?_ ?_
    · simp
    · simpa using hinv.unborn i.other
  · refine forall_starter i ?_ ?_
    · rw [hstart]
      exact hh
    · apply here_congr (k := k)
      · exact Function.update_of_ne (other_ne i) _ _
      · rfl
      · exact hinv.here i.other
  · refine forall_starter i ?_ ?_
    · rw [hstart]
      refine ⟨fun h => absurd h hfree, ?_, ?_, ?_, ?_, fun h => absurd h hfree⟩
      all_goals simp
    · rw [other_other, hstart]
      refine ⟨?_, ?_, hg'.file, hg'.empty, ?_, ?_⟩
      · simpa using hg'.holder
      · simpa using hg'.holds
      · simp only [Function.update_of_ne (other_ne i)]
        exact fun h hh => ⟨(hg'.written h hh).1, fun _ => trivial⟩
      · simp

theorem inv_exit {pos : Starter → Pos} {k : Kernel} {i : Starter} (hinv : Inv pos k)
    (hrun : k.stage i = .running) :
    Inv pos { k with
      stage := Function.update k.stage i .gone
      lock := if k.lock = some i then none else k.lock } := by
  have hg := hinv.good i
  have hg' := hinv.good i.other
  rw [other_other] at hg'
  have hfree : (if k.lock = some i then none else k.lock) ≠ some i := by
    split_ifs with hheld
    · simp
    · exact hheld
  have hother : (if k.lock = some i then none else k.lock) = some i.other ↔
      k.lock = some i.other := by
    split_ifs with hheld
    · simp [hheld]
    · exact Iff.rfl
  refine ⟨?_, ?_, ?_, ?_, hinv.spared, ?_⟩
  · refine forall_starter i ?_ ?_
    · exact fun _ => hinv.positive i (by simp [hrun])
    · simpa using hinv.positive i.other
  · refine forall_starter i ?_ ?_ <;> simp
  · refine forall_starter i ?_ ?_
    · simp
    · simpa using hinv.unborn i.other
  · exact fun j => here_congr (k := k) rfl rfl (hinv.here j)
  · refine forall_starter i ?_ ?_
    · refine ⟨fun h => absurd h hfree, ?_, hg.file, hg.empty, ?_, fun h => absurd h hfree⟩
      · intro h
        simp at h
      · intro h
        simp at h
    · rw [other_other]
      refine ⟨?_, ?_, hg'.file, hg'.empty, ?_, ?_⟩
      · rw [hother]
        simpa using hg'.holder
      · rw [hother]
        simpa using hg'.holds
      · simp only [Function.update_of_ne (other_ne i), other_other, Function.update_self]
        refine fun h hh => ⟨(hg'.written h hh).1, fun h' => ?_⟩
        cases h'
      · intro _ h
        simp at h

theorem inv_of_reach {daemonize : Starter → Bool} {content : Option Bytes} {w : PidWorld}
    (h : Reach machine Orderly (before daemonize content) w) :
    ∃ pos, (∀ i, w.procs i = rest (daemonize i) (pos i)) ∧ Inv pos w.kernel := by
  refine Reach.positions (fun i => rest (daemonize i))
    ⟨fun _ => .start, fun _ => rfl, inv_before content⟩ inv_call ?_ h
  intro pos k e k' hinv _ henv
  cases e with
  | start i pid =>
      simp only [machine, Option.ite_none_right_eq_some, Option.some.injEq] at henv
      obtain ⟨⟨habsent, hfresh⟩, rfl⟩ := henv
      exact inv_start hinv habsent hfresh
  | exit i =>
      simp only [machine, Option.ite_none_right_eq_some, Option.some.injEq] at henv
      obtain ⟨hrun, rfl⟩ := henv
      exact inv_exit hinv hrun

/-- The start-up has passed both `check_pid` and `write_pid` and still runs. -/
def Passed (w : PidWorld) (i : Starter) : Prop :=
  w.procs i = .ret true ∧ w.kernel.stage i = .running

theorem passed_of_rest {daemonize : Bool} {p : Pos}
    (hcmp : ∀ pid, p = .comparing pid → pid ≠ 0) (h : rest daemonize p = .ret true) :
    p = .passed := by
  cases p with
  | passed => rfl
  | comparing pid =>
      rw [rest, afterRead_of_ne daemonize (hcmp pid rfl)] at h
      cases h
  | detaching => cases h
  | failed => injection h with h; cases h
  | _ => cases h

theorem one_daemon_and_its_pid {daemonize : Starter → Bool} {content : Option Bytes} {w : PidWorld}
    (h : Reach machine Orderly (before daemonize content) w) :
    ¬ (Passed w .first ∧ Passed w .second) ∧
      ∀ i, (w.kernel.seen i).refused = true → (w.kernel.seen i).wiped = none := by
  obtain ⟨pos, hprocs, hinv⟩ := inv_of_reach h
  refine ⟨?_, hinv.spared⟩
  have hpassed : ∀ i, Passed w i → pos i = .passed := by
    intro i hi
    refine passed_of_rest ?_ ((hprocs i).symm.trans hi.1)
    intro pid hpos
    have hh := hinv.here i
    rw [hpos] at hh
    exact hh.2
  rintro ⟨hfirst, hsecond⟩
  have hg := hinv.good .first
  rw [hpassed _ hfirst] at hg
  have hadm := (hg.written hfirst.2 rfl).2 hsecond.2
  rw [show pos Starter.first.other = .passed from hpassed _ hsecond] at hadm
  exact hadm

private def sampleLabels (i : Starter) (pid : ℤ) : List (Label Starter Change PidRes) :=
  [.call i ⟨.open, true⟩, .call i ⟨.fdopen, true⟩, .call i ⟨.flock, true⟩,
    .call i ⟨.getpid, pid⟩, .call i ⟨.fprintf pid, true⟩, .call i ⟨.write (pidText pid), true⟩]

/-- Both start-ups look before either has written: both pass, or the one that is refused has
emptied the file of the one that has the lock. -/
theorem late_check_fails :
    (∃ w : PidWorld, Reach machine (fun _ _ => True) (before (fun _ => false) none) w ∧
      Passed w .first ∧ Passed w .second) ∧
    ∃ w : PidWorld, Reach machine (fun _ _ => True) (before (fun _ => false) none) w ∧
      (w.kernel.seen .second).refused = true ∧ (w.kernel.seen .second).wiped = some 100 := by
  let look : List (Label Starter Change PidRes) :=
    [.env (.start .first 100), .env (.start .second 200), .call .first ⟨.fopen, false⟩,
      .call .second ⟨.fopen, false⟩]
  let both := look ++ sampleLabels .first 100 ++ [.call .first ⟨.close, true⟩] ++
    sampleLabels .second 200 ++ [.call .second ⟨.close, true⟩]
  let wiping := look ++ sampleLabels .first 100 ++
    [.call .second ⟨.open, true⟩, .call .second ⟨.fdopen, true⟩, .call .second ⟨.flock, false⟩]
  constructor
  · have hrun : machine.run (before (fun _ => false) none) both = some _ := rfl
    exact ⟨_, Reach.init.run (fun _ _ => trivial) hrun, ⟨rfl, rfl⟩, rfl, rfl⟩
  · have hrun : machine.run (before (fun _ => false) none) wiping = some _ := rfl
    refine ⟨_, Reach.init.run (fun _ _ => trivial) hrun, rfl, ?_⟩
    decide

/-- On its own a start-up cannot do anything wrong. -/
theorem orderly_alone {w : PidWorld} {i : Starter} (habsent : w.kernel.stage i.other = .absent)
    (e : Event PidRes) : Orderly w (.call i e) := by
  have halone : ¬ Underway w i := by
    intro hunder
    exact absurd (habsent.symm.trans hunder.1) (by decide)
  have hunrecorded : Unrecorded w i := by
    intro hrun
    exact absurd (habsent.symm.trans hrun) (by decide)
  unfold Orderly
  split
  · rename_i heq
    cases heq
    exact hunrecorded
  · rename_i heq
    cases heq
    exact fun _ => hunrecorded
  · rename_i heq
    cases heq
    exact fun h => absurd h halone
  · rename_i heq
    cases heq
    exact fun _ h => absurd h halone
  · rename_i heq
    cases heq
    exact fun h => absurd h halone
  · trivial

/-- A start-up with a file that is left from an earlier daemon. -/
theorem one_daemon_and_its_pid_sample :
    ∃ w : PidWorld, Passed w .first ∧ w.kernel.recorded = some 100 ∧
      ¬ (Passed w .first ∧ Passed w .second) ∧
        ∀ i, (w.kernel.seen i).refused = true → (w.kernel.seen i).wiped = none := by
  let first (e : Event PidRes) : Label Starter Change PidRes := .call .first e
  let w₀ : PidWorld := before (fun _ => false) (some (pidText 77))
  have hstarted : Reach machine Orderly w₀ _ :=
    Reach.init.step (l := .env (.start .first 100)) trivial rfl
  have hlooked : Reach machine Orderly w₀ _ :=
    ((((hstarted.step (l := first ⟨.fopen, true⟩) (orderly_alone rfl _) rfl).step
      (l := first ⟨.fscanf, some 77⟩) (orderly_alone rfl _) rfl).step
      (l := first ⟨.fclose, ()⟩) (orderly_alone rfl _) rfl).step
      (l := first ⟨.getpid, (100 : ℤ)⟩) (orderly_alone rfl _) rfl).step
      (l := first ⟨.kill 77, true⟩) (orderly_alone rfl _) rfl
  have hprinted : Reach machine Orderly w₀ _ :=
    ((((hlooked.step (l := first ⟨.open, true⟩) (orderly_alone rfl _) rfl).step
      (l := first ⟨.fdopen, true⟩) (orderly_alone rfl _) rfl).step
      (l := first ⟨.flock, true⟩) (orderly_alone rfl _) rfl).step
      (l := first ⟨.getpid, (100 : ℤ)⟩) (orderly_alone rfl _) rfl).step
      (l := first ⟨.fprintf 100, true⟩) (orderly_alone rfl _) rfl
  have hclosed : Reach machine Orderly w₀ _ :=
    (hprinted.step (l := first ⟨.write (pidText 100), true⟩) (orderly_alone rfl _) rfl).step
      (l := first ⟨.close, true⟩) (orderly_alone rfl _) rfl
  exact ⟨_, ⟨rfl, rfl⟩, by decide, one_daemon_and_its_pid hclosed⟩

end HasherPriv.SessionService.SingleDaemon
