/- GID: HasherPriv/Chroot/Inheritance
   layer: chroot
   source: chrootuid.c, fds.c, x11.c, child.c
   digest: Which descriptors the program of a job inherits, and which its parent keeps. -/

import HasherPriv.Chroot.Child
import HasherPriv.Chroot.Chrootuid
import HasherPriv.Foundations.OpenFiles

set_option autoImplicit false
set_option relaxedAutoImplicit false

namespace HasherPriv.Chroot.Inheritance

open Foundations.ByteString
open Foundations.Program
open Foundations.Contracts
open Foundations.OpenFiles
open Foundations.Scanning (twoDigits)
open Config.CallerData
open Config.Environment
open JobService.SanitizeFds (getOpenMax Fds Closing Refers sanitizeFds sanitizeFds_hygienic)
open Syscall
open Chrootuid (Program)
open Pty (PtyOp PtyRes PtyCall PtyCallRes PtyProg openPty Chrootedness Verbosity)
open Unshare (UnshareCall UnshareRes)
open Child

/-! `chrootuid`, behind `sanitize_fds`. -/

/-- Its local variables; the reading end of a pipe comes first. -/
structure Ends where
  master : ℤ
  slave : ℤ
  pipeOut : ℤ × ℤ
  pipeErr : ℤ × ℤ
  ctl : ℤ × ℤ
  deriving DecidableEq

def createPipe : JobProg (ℤ × ℤ) := do
  match ← jcall .pipe with
  | none => .die "pipe"
  | some (readEnd, writeEnd) => return ((readEnd : ℤ), (writeEnd : ℤ))

def createPipes (usePty : Bool) : JobProg ((ℤ × ℤ) × (ℤ × ℤ)) := do
  if usePty then return ((-1, -1), (-1, -1))
  else
    let pipeOut ← createPipe
    let pipeErr ← createPipe
    return (pipeOut, pipeErr)

/-- `x11_prepare_connect`: the variables of `x11.c`, and whether it succeeds. -/
def x11PrepareConnect (x : X11) : JobProg (X11 × Bool) :=
  match x.connectMethod with
  | none => .ret (x, false)
  | some .inet => .ret (x, true)
  | some .unix => do
      -- x11_dir_fd is used by nobody else before the fork
      match ← jcall (.open x11UnixDir) with
      | none =>
          jcall (.perrorMsg s!"open: {text x11UnixDir}")
          return (x11DropDisplay x, false)
      | some _ => return (x, true)

def createSocketpair (connect : Bool) : JobProg (ℤ × ℤ) := do
  if connect then
    match ← jcall .socketpair with
    | none => .die "socketpair AF_UNIX"
    | some (parentEnd, childEnd) => return ((parentEnd : ℤ), (childEnd : ℤ))
  else return (-1, -1)

/-- What becomes of two ptys. -/
def chooseMaster (first second : ℤ × ℤ) : JobProg (ℤ × ℤ) := do
  if second.1 > first.1 then
    let _ ← xclose first.1
    let _ ← xclose first.2
    return second
  else return first

/-- The body of the loop of `cloexec_range_brutely`, for a descriptor that is open. -/
def addCloexec (fd flags : ℕ) : JobProg Unit :=
  let newflags := flags ||| 1
  if flags ≠ newflags then do
    if ← jcall (.setfd fd newflags) then return () else .die "fcntl F_SETFD"
  else .ret ()

def cloexecOne (fd : ℕ) : JobProg Unit := do
  match ← jcall (.getfd fd) with
  | none => return ()
  | some flags => addCloexec fd flags

def cloexecFds : JobProg Unit := do
  if ← jcall (.closeRangeCloexec 3) then return ()
  else
    let sysconf ← jcall .sysconfOpenMax
    Prog.each cloexecOne (List.range' 3 (getOpenMax sysconf - 3).toNat)

def checkOrDie (o : JobProg Bool) (why : String) : JobProg Unit := do
  if ← o then return () else .die why

def unshareNetworkIf (b : Bool) (s : Settings) : JobProg Unit :=
  if b then ofUnshare (Unshare.unshareNetwork s.shareNetwork) else .ret ()

/-- Up to the fork. -/
def makeDescriptors (c : Caller) (s : Settings) (x : X11) (devPtsMounted : Bool) :
    JobProg (X11 × Ends) := do
  let (pipeOut, pipeErr) ← createPipes s.usePty
  let (x, connect) ← x11PrepareConnect x
  let ctl ← createSocketpair connect
  ofUnshare (Unshare.unshareIpc s.shareIpc)
  ofUnshare (Unshare.unshareUts s.shareUts)
  unshareNetworkIf (! x.shareCallerNetwork) s
  let first ← (openPty c s devPtsMounted .openPtyUnchrooted .openPtyVerbose).inl
  checkOrDie (jcall (.chroot (str "."))) "chroot"
  let verboseError := if first.1 < 0 then Verbosity.openPtyVerbose else .openPtySilent
  let second ← (openPty c s devPtsMounted .openPtyChrooted verboseError).inl
  let (master, slave) ← chooseMaster first second
  if master < 0 then .die "failed to create pty"
  else
    checkOrDie (jcall .setRlimits) "setrlimit"
    cloexecFds
    sigprocmaskOrDie sigchld true
    return (x, ⟨master, slave, pipeOut, pipeErr, ctl⟩)

/-- The condition that each process closes the ends of the other one with. -/
def closeEnds (s : Settings) (x : X11) (pty out err ctl : ℤ) : JobProg Unit :=
  Prog.each (fun fd => xcloseOrDie fd "close")
    (pty :: ((if s.usePty then [] else [out, err]) ++ if x.display.isSome then [ctl] else []))

def runParent (c : Caller) (s : Settings) (x : X11) (e : Ends) (pid : ℕ) : JobProg ℤ := do
  closeEnds s x e.slave e.pipeOut.2 e.pipeErr.2 e.ctl.2
  checkOrDie (jcall .prctlDumpable) "prctl PR_SET_DUMPABLE"
  checkOrDie (jcall (.setgid c.gid)) "setgid"
  checkOrDie (jcall (.setuid c.uid)) "setuid"
  jcall (.handleParent pid e.master e.pipeOut.1 e.pipeErr.1 e.ctl.1)

def setPersonality (persona : UInt32) : JobProg Unit := do
  if persona = 0xffffffff then return ()
  else if ← jcall (.personality persona) then return ()
  else checkOrDie (jcall (.personality persona)) "personality"

def runChild (s : Settings) (x : X11) (e : Ends) (p : Program) (groups : List UInt32)
    (uid gid persona : UInt32) : JobProg ℤ := do
  closeEnds s x e.master e.pipeOut.1 e.pipeErr.1 e.ctl.1
  unshareNetworkIf x.shareCallerNetwork s
  checkOrDie (jcall .prctlDumpable) "prctl PR_SET_DUMPABLE"
  let _ ← jcall (.setgroups groups)
  checkOrDie (jcall (.setgid gid)) "setgid"
  checkOrDie (jcall (.setuid uid)) "setuid"
  setPersonality persona
  handleChild s x p.argv (p.env ⟨x.display.isSome, x.shareCallerNetwork⟩ s) e.slave e.pipeOut.2
    e.pipeErr.2 e.ctl.2

/-- How a process goes on, which the fork of `chrootuid` has answered to. -/
def afterFork (c : Caller) (s : Settings) (x : X11) (e : Ends) (p : Program)
    (groups : List UInt32) (uid gid persona : UInt32) : ForkResult → JobProg ℤ
  | .failed => .die "fork"
  | .parent pid => runParent c s x e pid
  | .child => runChild s x e p groups uid gid persona

/-- `chrootuid` from the creation of the pipes on. -/
def finishJob (c : Caller) (s : Settings) (x : X11) (devPtsMounted : Bool) (p : Program)
    (groups : List UInt32) (uid gid persona : UInt32) : JobProg ℤ := do
  let (x, e) ← makeDescriptors c s x devPtsMounted
  let r ← jcall .fork
  afterFork c s x e p groups uid gid persona r

/-! The descriptors. -/

/-- An open file: one that was there before, or what a call has opened. Pipes, pairs and sockets
are numbered, a pty has the number that its slave is named by. -/
inductive File (φ : Type)
  | given (f : φ)
  | named (name : Bytes)
  | ptmx (name : Bytes) (num : UInt32)
  | pipe (id : ℕ) (writing : Bool)
  | pair (id : ℕ) (child : Bool)
  | socket (id : ℕ)
  | rtnetlink
  deriving DecidableEq

/-- `forks` is what the forks have answered. -/
structure World (φ : Type) where
  files : Files (File φ)
  made : ℕ
  forks : List ForkResult

variable {φ : Type}

/-- The process behind `sanitize_fds`. -/
def World.start (t : FdTable φ) : World φ where
  files n := (t n).map fun f => ⟨.given f, false⟩
  made := 0
  forks := []

def World.opened (w : World φ) (fd : ℕ) (file : File φ) : World φ :=
  { w with files := w.files.insert fd file, made := w.made + 1 }

def Opens (w : World φ) (file : File φ) (r : Option ℕ) (w' : World φ) : Prop :=
  match r with
  | none => w' = w
  | some fd => w.files.Lowest fd ∧ w' = w.opened fd file

def OpensTwo (w : World φ) (file file' : File φ) (r : Option (ℕ × ℕ)) (w' : World φ) : Prop :=
  match r with
  | none => w' = w
  | some (fd, fd') => w.files.Lowest fd ∧ (w.files.insert fd file).Lowest fd' ∧
      w' = { w with files := (w.files.insert fd file).insert fd' file', made := w.made + 1 }

/-- A descriptor that is open can be closed. -/
def Closes (w : World φ) (fd : ℤ) (r : Bool) (w' : World φ) : Prop :=
  if 0 ≤ fd ∧ (w.files fd.toNat).isSome then
    r = true ∧ w' = { w with files := w.files.close fd.toNat }
  else r = false ∧ w' = w

/-- `FD_CLOEXEC` is the only flag. -/
def flagsOf (e : Entry (File φ)) : ℕ := if e.cloexec then 1 else 0

def JobAnswers : (o : JobCall) → World φ → JobCallRes o → World φ → Prop
  | .open name, w, r, w' => Opens w (.named name) r w'
  | .pipe, w, r, w' => OpensTwo w (.pipe w.made false) (.pipe w.made true) r w'
  | .socketpair, w, r, w' => OpensTwo w (.pair w.made false) (.pair w.made true) r w'
  | .socket, w, r, w' => Opens w (.socket w.made) r w'
  | .dup2 oldfd newfd, w, r, w' =>
      if r then 0 ≤ oldfd ∧ 0 ≤ newfd ∧ (w.files oldfd.toNat).isSome = true ∧
        w' = { w with files := w.files.dup2 oldfd.toNat newfd.toNat }
      else w' = w
  | .close fd, w, r, w' => Closes w fd r w'
  | .closeRangeCloexec first, w, r, w' =>
      w' = if r then { w with files := w.files.closeOnExec first } else w
  | .getfd fd, w, r, w' => w' = w ∧ r = (w.files fd).map flagsOf
  | .setfd fd flags, w, r, w' =>
      w' = if r then { w with files := w.files.setCloexec fd (flags.testBit 0) } else w
  | .fork, w, r, w' => w' = { w with forks := w.forks ++ [r] }
  | _, w, _, w' => w' = w

/-- The devices that make a new pty when they are opened. -/
def isPtmx (name : Bytes) : Bool := name = str "/dev/ptmx" ∨ name = str "ptmx"

def PtyAnswers : (o : PtyOp) → World φ → PtyRes o → World φ → Prop
  | .inr (.open name _), w, r, w' => ∃ num,
      Opens w (if isPtmx name then .ptmx name num else .named name) r w'
  | .inr (.tiocgptn fd), w, r, w' => w' = w ∧ ∀ num, r = some num →
      ∃ name e, w.files fd.toNat = some e ∧ e.file = .ptmx name num
  | .inr (.close fd), w, r, w' => Closes w fd r w'
  | _, w, _, w' => w' = w

def UnshareAnswers : (o : UnshareCall) → World φ → UnshareRes o → World φ → Prop
  | .socketRtnetlink, w, r, w' => Opens w .rtnetlink r w'
  | .close fd, w, r, w' => Closes w fd r w'
  | _, w, _, w' => w' = w

def Answers : (o : JobOp) → World φ → JobRes o → World φ → Prop
  | .inl o, w, r, w' => PtyAnswers o w r w'
  | .inr (.inl o), w, r, w' => UnshareAnswers o w r w'
  | .inr (.inr o), w, r, w' => JobAnswers o w r w'

/-! Up to the fork new descriptors are the next ones. -/

section Setup

variable {w w' v : World φ} {k k' m : ℕ}

/-- From `k` descriptors to `k'`, the lower ones being kept. -/
structure Grown (w w' : World φ) (k k' : ℕ) : Prop where
  packed : w'.files.Packed k'
  kept : ∀ n < min k k', w'.files n = w.files n
  made : w.made ≤ w'.made
  forks : w'.forks = w.forks

def Has (w : World φ) (fd : ℕ) (file : File φ) : Prop := w.files fd = some ⟨file, false⟩

theorem Grown.refl (h : w.files.Packed k) : Grown w w k k :=
  ⟨h, fun _ _ => rfl, Nat.le_refl _, rfl⟩

theorem Grown.trans (h : Grown w w' k k') (h' : Grown w' v k' m) (hk : k ≤ k') (hm : k ≤ m) :
    Grown w v k m := by
  refine ⟨h'.packed, ?_, h.made.trans h'.made, h'.forks.trans h.forks⟩
  intro n hn
  rw [h'.kept n (by omega), h.kept n (by omega)]

theorem Grown.has {fd : ℕ} {file : File φ} (h : Grown w w' k k') (hk : k ≤ k') (hfd : fd < k)
    (hfile : Has w fd file) : Has w' fd file := by
  rw [Has, h.kept fd (by omega)]
  exact hfile

theorem opens_grown {file : File φ} {fd : ℕ} (hw : w.files.Packed k)
    (h : Opens w file (some fd) w') : fd = k ∧ Grown w w' k (k + 1) ∧ Has w' k file := by
  obtain ⟨hlowest, rfl⟩ := h
  obtain rfl := hw.lowest hlowest
  refine ⟨rfl, ⟨hw.insert, ?_, Nat.le_succ _, rfl⟩, Files.insert_self⟩
  intro n hn
  exact Files.insert_of_ne (by omega)

theorem opensTwo_grown {file file' : File φ} {fd fd' : ℕ} (hw : w.files.Packed k)
    (h : OpensTwo w file file' (some (fd, fd')) w') : fd = k ∧ fd' = k + 1 ∧
      Grown w w' k (k + 2) ∧ Has w' k file ∧ Has w' (k + 1) file' ∧ w'.made = w.made + 1 := by
  obtain ⟨hlowest, hlowest', rfl⟩ := h
  obtain rfl := hw.lowest hlowest
  obtain rfl := hw.insert.lowest hlowest'
  refine ⟨rfl, rfl, ⟨hw.insert.insert, ?_, Nat.le_succ _, rfl⟩, ?_, Files.insert_self, rfl⟩
  · intro n hn
    show (w.files.insert fd file).insert (fd + 1) file' n = w.files n
    rw [Files.insert_of_ne (by omega), Files.insert_of_ne (by omega)]
  · show (w.files.insert fd file).insert (fd + 1) file' fd = _
    rw [Files.insert_of_ne (by omega), Files.insert_self]

theorem closes_open {fd : ℕ} {r : Bool} (hopen : (w.files fd).isSome = true)
    (h : Closes w (fd : ℤ) r w') : r = true ∧ w' = { w with files := w.files.close fd } := by
  have hcond : 0 ≤ (fd : ℤ) ∧ (w.files (fd : ℤ).toNat).isSome = true := by
    rw [Int.toNat_natCast]
    exact ⟨by omega, hopen⟩
  rw [Closes, if_pos hcond, Int.toNat_natCast] at h
  exact h

/-- The last descriptor is closed. -/
theorem closes_last {r : Bool} (hw : w.files.Packed (k + 1)) (h : Closes w (k : ℤ) r w') :
    r = true ∧ Grown w w' (k + 1) k := by
  obtain ⟨rfl, rfl⟩ := closes_open ((hw k).mpr (Nat.lt_succ_self k)) h
  refine ⟨rfl, hw.close, ?_, Nat.le_refl _, rfl⟩
  intro n hn
  exact Files.close_of_ne (by omega)

abbrev Keeps {α : Type} (p : JobProg α) (post : α → World φ → Prop) (w : World φ) : Prop :=
  Ensures Answers (fun _ _ _ _ => True) p post w

/-- The calls that touch no descriptor. -/
def IsOther : JobCall → Prop
  | .open _ | .pipe | .socketpair | .socket | .dup2 _ _ | .close _ => False
  | .closeRangeCloexec _ | .setfd _ _ | .fork => False
  | _ => True

theorem other_same {o : JobCall} {r : JobCallRes o} (ho : IsOther o) (h : JobAnswers o w r w') :
    w' = w := by
  cases o with
  | getfd fd => exact h.1
  | «open» name => exact ho.elim
  | pipe => exact ho.elim
  | socketpair => exact ho.elim
  | socket => exact ho.elim
  | dup2 oldfd newfd => exact ho.elim
  | close fd => exact ho.elim
  | closeRangeCloexec first => exact ho.elim
  | setfd fd flags => exact ho.elim
  | fork => exact ho.elim
  | _ => exact h

theorem checkOrDie_keeps {α : Type} {p : JobProg Bool} {why : String} {f : Unit → JobProg α}
    {post : α → World φ → Prop} (h : Keeps p (fun _ w' => w' = w) w) (hf : Keeps (f ()) post w) :
    Keeps ((checkOrDie p why).bind f) post w := by
  rw [checkOrDie, bind_eq_bind, prog_bind_assoc]
  apply h.bind
  rintro r w' rfl
  cases r with
  | true => exact hf
  | false => trivial

/-- Both pipes, where there is no pty for the standard descriptors. -/
def PipesAt (usePty : Bool) (pipeOut pipeErr : ℤ × ℤ) (k k' : ℕ) (w : World φ) : Prop :=
  if usePty then pipeOut = (-1, -1) ∧ pipeErr = (-1, -1) ∧ k' = k
  else k' = k + 4 ∧ pipeOut = ((k : ℤ), ((k + 1 : ℕ) : ℤ)) ∧
    pipeErr = (((k + 2 : ℕ) : ℤ), ((k + 3 : ℕ) : ℤ)) ∧ ∃ a b, a ≠ b ∧
      Has w k (.pipe a false) ∧ Has w (k + 1) (.pipe a true) ∧
      Has w (k + 2) (.pipe b false) ∧ Has w (k + 3) (.pipe b true)

theorem createPipe_keeps (hw : w.files.Packed k) :
    Keeps createPipe (fun ends w' => ends = ((k : ℤ), ((k + 1 : ℕ) : ℤ)) ∧ Grown w w' k (k + 2) ∧
      Has w' k (.pipe w.made false) ∧ Has w' (k + 1) (.pipe w.made true) ∧
      w'.made = w.made + 1) w := by
  intro r w' hanswers
  refine ⟨trivial, ?_⟩
  rcases r with _ | ⟨fd, fd'⟩
  · trivial
  · obtain ⟨rfl, rfl, hgrown, hread, hwrite, hmade⟩ := opensTwo_grown hw hanswers
    exact ⟨rfl, hgrown, hread, hwrite, hmade⟩

theorem createPipes_keeps (usePty : Bool) (hw : w.files.Packed k) :
    Keeps (createPipes usePty) (fun ends w' => ∃ k', k ≤ k' ∧ k' ≤ k + 4 ∧ Grown w w' k k' ∧
      PipesAt usePty ends.1 ends.2 k k' w') w := by
  cases usePty with
  | true => exact ⟨k, Nat.le_refl _, by omega, .refl hw, rfl, rfl, rfl⟩
  | false =>
      apply (createPipe_keeps hw).bind
      rintro _ w₁ ⟨rfl, h₁, hread, hwrite, hmade⟩
      apply (createPipe_keeps h₁.packed).bind
      rintro _ w₂ ⟨rfl, h₂, hread', hwrite', -⟩
      refine ⟨k + 4, by omega, Nat.le_refl _, h₁.trans h₂ (by omega) (by omega), rfl, rfl, rfl,
        w.made, w₁.made, by omega, ?_, ?_, hread', hwrite'⟩
      · exact h₂.has (by omega) (by omega) hread
      · exact h₂.has (by omega) (by omega) hwrite

theorem x11PrepareConnect_keeps (x : X11) (hw : w.files.Packed k) :
    Keeps (x11PrepareConnect x) (fun r w' => ∃ k', Grown w w' k k' ∧
      (k' = k ∨ k' = k + 1 ∧ Has w' k (.named x11UnixDir)) ∧
      (r.2 = true → r.1 = x ∧ x.connectMethod ≠ none)) w := by
  rw [x11PrepareConnect]
  rcases hmethod : x.connectMethod with _ | method
  · exact ⟨k, .refl hw, .inl rfl, nofun⟩
  · cases method with
    | inet => exact ⟨k, .refl hw, .inl rfl, fun _ => ⟨rfl, nofun⟩⟩
    | unix =>
        intro r w₁ hanswers
        refine ⟨trivial, ?_⟩
        cases r with
        | none =>
            obtain rfl := hanswers
            rintro _ w₂ rfl
            exact ⟨trivial, k, .refl hw, .inl rfl, nofun⟩
        | some fd =>
            obtain ⟨rfl, hgrown, hdir⟩ := opens_grown hw hanswers
            exact ⟨fd + 1, hgrown, .inr ⟨rfl, hdir⟩, fun _ => ⟨rfl, nofun⟩⟩

def PairAt (ctl : ℤ × ℤ) (k k' : ℕ) (w : World φ) : Prop :=
  (ctl = (-1, -1) ∧ k' = k) ∨ (ctl = ((k : ℤ), ((k + 1 : ℕ) : ℤ)) ∧ k' = k + 2 ∧ ∃ a,
    Has w k (.pair a false) ∧ Has w (k + 1) (.pair a true))

theorem createSocketpair_keeps (connect : Bool) (hw : w.files.Packed k) :
    Keeps (createSocketpair connect) (fun ctl w' => ∃ k', k ≤ k' ∧ k' ≤ k + 2 ∧
      Grown w w' k k' ∧ PairAt ctl k k' w') w := by
  cases connect with
  | false => exact ⟨k, Nat.le_refl _, by omega, .refl hw, .inl ⟨rfl, rfl⟩⟩
  | true =>
      intro r w' hanswers
      refine ⟨trivial, ?_⟩
      rcases r with _ | ⟨fd, fd'⟩
      · trivial
      · obtain ⟨rfl, rfl, hgrown, hparent, hchild, -⟩ := opensTwo_grown hw hanswers
        exact ⟨fd + 2, by omega, Nat.le_refl _, hgrown, .inr ⟨rfl, rfl, w.made, hparent, hchild⟩⟩

/-! The functions of `unshare.c` close what they open. -/

abbrev UnshareKeeps (p : Unshare.UnshareProg Unit) (w : World φ) : Prop :=
  Ensures UnshareAnswers (fun _ _ _ _ => True) p
    (fun _ w' => w'.files = w.files ∧ w.made ≤ w'.made ∧ w'.forks = w.forks) w

theorem ofUnshare_keeps {p : Unshare.UnshareProg Unit} (h : UnshareKeeps p w) :
    Keeps (ofUnshare p) (fun _ w' => w'.files = w.files ∧ w.made ≤ w'.made ∧
      w'.forks = w.forks) w :=
  Ensures.onRight (Ensures.inl h)

theorem doUnshare_keeps (flags : ℕ) (cloneName shareName : String) (shareFlag : Option Bool)
    {f : Bool → Unshare.UnshareProg Unit} (hf : ∀ b, UnshareKeeps (f b) w) :
    UnshareKeeps ((Unshare.doUnshare flags cloneName shareFlag shareName).bind f) w := by
  rw [Unshare.doUnshare]
  by_cases htrue : shareFlag = some true
  · rw [if_pos htrue]
    exact hf false
  · rw [if_neg htrue]
    rintro r w₁ rfl
    refine ⟨trivial, ?_⟩
    cases r with
    | ok => exact hf true
    | expected =>
        rintro _ w₂ rfl
        refine ⟨trivial, ?_⟩
        show Ensures _ _ (Prog.bind (ite _ _ _) _) _ _
        by_cases hfalse : shareFlag ≠ some false
        · rw [if_pos hfalse]
          exact hf false
        · rw [if_neg hfalse]
          trivial
    | failed => trivial

theorem same_files (w : World φ) :
    w.files = w.files ∧ w.made ≤ w.made ∧ w.forks = w.forks := ⟨rfl, Nat.le_refl _, rfl⟩

theorem unshareIpc_keeps (shareFlag : Option Bool) :
    UnshareKeeps (Unshare.unshareIpc shareFlag) w :=
  doUnshare_keeps _ _ _ shareFlag fun _ => same_files w

theorem unshareUts_keeps (shareFlag : Option Bool) :
    UnshareKeeps (Unshare.unshareUts shareFlag) w := by
  apply doUnshare_keeps
  intro b
  cases b with
  | false => exact same_files w
  | true =>
      rintro r w₁ rfl
      refine ⟨trivial, ?_⟩
      cases r with
      | true => exact same_files w₁
      | false => trivial

/-- Also in a table with gaps. -/
theorem unshareNetwork_keeps (shareFlag : Option Bool) :
    UnshareKeeps (Unshare.unshareNetwork shareFlag) w := by
  apply doUnshare_keeps
  intro b
  cases b with
  | false => exact same_files w
  | true =>
      intro fd w₁ hopens
      refine ⟨trivial, ?_⟩
      cases fd with
      | none => trivial
      | some fd =>
          obtain ⟨hlowest, rfl⟩ := hopens
          rintro index w₂ rfl
          refine ⟨trivial, ?_⟩
          rintro sent w₃ rfl
          refine ⟨trivial, ?_⟩
          cases sent with
          | false => trivial
          | true =>
              intro closed w₄ hcloses
              refine ⟨trivial, ?_⟩
              have hopen : (w.files.insert fd .rtnetlink fd).isSome = true := by
                rw [Files.insert_self]
                rfl
              obtain ⟨rfl, rfl⟩ := closes_open (w := w.opened fd .rtnetlink) hopen hcloses
              exact ⟨Files.close_insert hlowest.1, Nat.le_succ _, rfl⟩

/-! `open_pty`. -/

abbrev PtyKeeps {α : Type} (p : PtyProg α) (post : α → World φ → Prop) (w : World φ) : Prop :=
  Ensures PtyAnswers (fun _ _ _ _ => True) p post w

theorem sys_keeps {α : Type} (p : SysProg α) : PtyKeeps p.inl (fun _ w' => w' = w) w := by
  apply Ensures.inl
  refine ensures_of_uses (I := fun w' => w' = w) (uses_true p) rfl ?_
  intro o v r v' _ hv hanswers
  have hsame : v' = v := hanswers
  exact ⟨trivial, hsame.trans hv⟩

theorem sys_bind {α β : Type} {p : SysProg α} {f : α → PtyProg β} {post : β → World φ → Prop}
    (hf : ∀ a, PtyKeeps (f a) post w) : PtyKeeps (p.inl.bind f) post w := by
  apply (sys_keeps p).bind
  rintro a _ rfl
  exact hf a

/-- The directories of ptys, outside and inside the chroot. -/
def IsNames (names : Pty.Names) : Prop :=
  names = ⟨str "/dev/ptmx", str "/dev/pts/"⟩ ∨ names = ⟨str "ptmx", str "pts/"⟩

/-- The two sides of one pty. -/
def PtyAt (k : ℕ) (w : World φ) : Prop :=
  ∃ names num, IsNames names ∧ Has w k (.ptmx names.devPtmx num) ∧
    Has w (k + 1) (.named (names.pts ++ decimal num.toNat))

/-- `open_pty` has opened both sides or leaves nothing open. -/
def PtyOpened (k k' : ℕ) (fds : ℤ × ℤ) (w' : World φ) : Prop :=
  (fds = (-1, -1) ∧ k' = k) ∨ (fds = ((k : ℤ), ((k + 1 : ℕ) : ℤ)) ∧ k' = k + 2 ∧ PtyAt k w')

abbrev PtyPost (w : World φ) (k : ℕ) (fds : ℤ × ℤ) (w' : World φ) : Prop :=
  ∃ k', Grown w w' k k' ∧ PtyOpened k k' fds w'

theorem complain_keeps {α : Type} {verboseError : Verbosity} {text : String} {f : Unit → PtyProg α}
    {post : α → World φ → Prop} (hf : PtyKeeps (f ()) post w) :
    PtyKeeps ((Pty.complain verboseError text).bind f) post w := by
  cases verboseError with
  | openPtySilent => exact hf
  | openPtyVerbose =>
      rintro _ w₁ rfl
      exact ⟨trivial, hf⟩

/-- The way to the label `err` once the first side is open. -/
theorem closeBoth_keeps (h : Grown w w' k (k + 1)) :
    PtyKeeps (Pty.closeBoth (k : ℤ) (-1)) (PtyPost w k) w' := by
  have hneg : ¬ (k : ℤ) < 0 := by omega
  rw [Pty.closeBoth, Pty.xclose, if_pos (by decide)]
  show PtyKeeps ((Pty.xclose (k : ℤ)).bind _) _ _
  rw [Pty.xclose, if_neg hneg]
  intro r w₁ hcloses
  refine ⟨trivial, ?_⟩
  obtain ⟨rfl, hclosed⟩ := closes_last h.packed hcloses
  refine ⟨k, ⟨hclosed.packed, ?_, h.made.trans hclosed.made, hclosed.forks.trans h.forks⟩,
    .inl ⟨rfl, rfl⟩⟩
  intro n hn
  rw [hclosed.kept n (by omega), h.kept n (by omega)]

theorem closeNothing_keeps (hw : w.files.Packed k) :
    PtyKeeps (Pty.closeBoth (-1) (-1)) (PtyPost w k) w :=
  ⟨k, .refl hw, .inl ⟨rfl, rfl⟩⟩

theorem append_ne {a b : Bytes} (n : ℕ) (hn : n ≤ a.length) (h : a.take n ≠ b.take n) (d : Bytes) :
    a ++ d ≠ b := by
  rintro rfl
  exact h (List.take_append_of_le_length hn).symm

theorem pts_not_ptmx {names : Pty.Names} (h : IsNames names) (num : UInt32) :
    isPtmx names.devPtmx = true ∧ isPtmx (names.pts ++ decimal num.toNat) = false := by
  have hnot {pts : Bytes} (n : ℕ) (hn : n ≤ pts.length)
      (hout : pts.take n ≠ (str "/dev/ptmx").take n) (hin : pts.take n ≠ (str "ptmx").take n) :
      isPtmx (pts ++ decimal num.toNat) = false := by
    have hout' := append_ne n hn hout (decimal num.toNat)
    have hin' := append_ne n hn hin (decimal num.toNat)
    rw [isPtmx, decide_eq_false (by simp [hout', hin'])]
  rcases h with rfl | rfl
  · exact ⟨by decide, hnot 8 (by decide) (by decide) (by decide)⟩
  · exact ⟨by decide, hnot 3 (by decide) (by decide) (by decide)⟩

theorem openPair_keeps {names : Pty.Names} (hnames : IsNames names) (verboseError : Verbosity)
    (hw : w.files.Packed k) : PtyKeeps (Pty.openPair verboseError names) (PtyPost w k) w := by
  intro r w₁ hanswers
  refine ⟨trivial, ?_⟩
  obtain ⟨num, hopens⟩ := hanswers
  cases r with
  | none =>
      obtain rfl := hopens
      exact complain_keeps (closeNothing_keeps hw)
  | some ptmx =>
      obtain ⟨rfl, h₁, hmaster⟩ := opens_grown hw hopens
      rw [(pts_not_ptmx hnames num).1, if_pos rfl] at hmaster
      rintro r w₂ ⟨rfl, hnum⟩
      refine ⟨trivial, ?_⟩
      cases r with
      | none => exact complain_keeps (closeBoth_keeps h₁)
      | some num' =>
          rintro unlocked w₃ rfl
          refine ⟨trivial, ?_⟩
          cases unlocked with
          | false => exact complain_keeps (closeBoth_keeps h₁)
          | true =>
              rintro r w₄ ⟨num'', hopens'⟩
              refine ⟨trivial, ?_⟩
              cases r with
              | none =>
                  obtain rfl := hopens'
                  exact complain_keeps (closeBoth_keeps h₁)
              | some slave =>
                  obtain ⟨rfl, h₂, hslave⟩ := opens_grown h₁.packed hopens'
                  rw [(pts_not_ptmx hnames num').2, if_neg (by decide)] at hslave
                  obtain ⟨name, e, he, hfile⟩ := hnum num' rfl
                  have hsame : e.file = .ptmx names.devPtmx num := by
                    rw [Int.toNat_natCast, hmaster] at he
                    exact congrArg Entry.file (Option.some.inj he).symm
                  rw [hsame] at hfile
                  obtain ⟨-, rfl⟩ := File.ptmx.inj hfile
                  refine ⟨ptmx + 2, h₁.trans h₂ (by omega) (by omega), .inr ⟨rfl, rfl, names, num,
                    hnames, ?_, hslave⟩⟩
                  exact h₂.has (by omega) (by omega) hmaster

theorem openPty_keeps (c : Caller) (s : Settings) (devPtsMounted : Bool)
    (chrooted : Chrootedness) (verboseError : Verbosity) (hw : w.files.Packed k) :
    PtyKeeps (openPty c s devPtsMounted chrooted verboseError) (PtyPost w k) w := by
  have hnothing (w : World φ) : w = w ∧ ∀ n, (none : Option Pty.Names) = some n → IsNames n := by
    refine ⟨rfl, ?_⟩
    intro n hn
    cases hn
  have hnames : PtyKeeps (Pty.devNames (Chdiruid.owners c s) devPtsMounted chrooted)
      (fun names w' => w' = w ∧ ∀ n, names = some n → IsNames n) w := by
    cases chrooted with
    | openPtyUnchrooted =>
        refine ⟨rfl, ?_⟩
        intro n hn
        exact .inl (Option.some.inj hn).symm
    | openPtyChrooted =>
        rw [Pty.devNames]
        cases devPtsMounted with
        | false => exact hnothing w
        | true =>
            apply sys_bind
            rintro _ r w₁ rfl
            refine ⟨trivial, ?_⟩
            cases r with
            | none => exact hnothing _
            | some st =>
                show Ensures _ _ (ite _ _ _) _ _
                split_ifs
                · refine ⟨rfl, ?_⟩
                  intro n hn
                  exact .inr (Option.some.inj hn).symm
                · exact hnothing _
  have hopen : PtyKeeps (Pty.openAsCaller (Chdiruid.owners c s) devPtsMounted chrooted verboseError)
      (PtyPost w k) w := by
    apply hnames.bind
    rintro names _ ⟨rfl, hnames⟩
    cases names with
    | none => exact closeNothing_keeps hw
    | some n => exact openPair_keeps (hnames n rfl) verboseError hw
  apply sys_bind
  intro savedGid
  apply sys_bind
  intro savedUid
  apply hopen.bind
  intro fds w' hpost
  have hleave : PtyKeeps (Pty.leaveDev chrooted) (fun _ v => v = w') w' := by
    cases chrooted with
    | openPtyUnchrooted => rfl
    | openPtyChrooted => exact sys_keeps _
  apply hleave.bind
  rintro _ _ rfl
  apply sys_bind
  intro _
  apply sys_bind
  intro _
  exact hpost

/-! The choice between two ptys, and the flags. -/

theorem xclose_keeps {fd : ℕ} (hopen : (w.files fd).isSome = true) :
    Keeps (xclose (fd : ℤ)) (fun r w' => r = true ∧
      w' = { w with files := w.files.close fd }) w := by
  have hneg : ¬ (fd : ℤ) < 0 := by omega
  rw [xclose, if_neg hneg]
  intro r w' hanswers
  exact ⟨trivial, closes_open hopen hanswers⟩

/-- The flags are set one by one where `close_range` fails. -/
theorem cloexecOne_keeps (fd : ℕ) :
    Keeps (cloexecOne fd) (fun _ w' =>
      w' = { w with files := w.files.setCloexec fd true }) w := by
  rintro r w₁ ⟨rfl, rfl⟩
  refine ⟨trivial, ?_⟩
  rcases he : w₁.files fd with _ | ⟨file, flag⟩
  · show w₁ = _
    rw [Files.setCloexec, he, Option.map_none, ← he, Function.update_eq_self]
  · cases flag with
    | true =>
        have hflags : flagsOf (⟨file, true⟩ : Entry (File φ)) = 1 := rfl
        have hnone : addCloexec fd 1 = .ret () := by
          rw [addCloexec, if_neg (by decide)]
        show Ensures _ _ (addCloexec fd (flagsOf ⟨file, true⟩)) _ _
        rw [hflags, hnone]
        show w₁ = _
        rw [Files.setCloexec, he, Option.map_some, ← he, Function.update_eq_self]
    | false =>
        have hflags : flagsOf (⟨file, false⟩ : Entry (File φ)) = 0 := rfl
        show Ensures _ _ (addCloexec fd (flagsOf ⟨file, false⟩)) _ _
        rw [hflags, addCloexec, if_pos (by decide)]
        rintro set w₂ rfl
        refine ⟨trivial, ?_⟩
        cases set with
        | true => rfl
        | false => trivial

theorem cloexecRange_keeps (start count : ℕ) :
    Keeps (Prog.each cloexecOne (List.range' start count)) (fun _ w' => w'.made = w.made ∧
      w'.forks = w.forks ∧ ∀ n, w'.files n = if start ≤ n ∧ n < start + count then
        (w.files n).map fun e => { e with cloexec := true } else w.files n) w := by
  induction count generalizing w start with
  | zero =>
      refine ⟨rfl, rfl, ?_⟩
      intro n
      rw [if_neg (by omega)]
  | succ count ih =>
      rw [List.range'_succ, each_cons]
      apply (cloexecOne_keeps start).bind
      rintro _ _ rfl
      apply (ih (start + 1)).mono
      rintro _ w' ⟨hmade, hforks, hfiles⟩
      refine ⟨hmade, hforks, ?_⟩
      intro n
      rw [hfiles n]
      by_cases hn : n = start
      · subst hn
        rw [if_neg (by omega), if_pos (by omega)]
        exact Function.update_self _ _ _
      · have hkept : w.files.setCloexec start true n = w.files n := Files.setCloexec_of_ne hn
        have hiff : (start + 1 ≤ n ∧ n < start + 1 + count) ↔
            (start ≤ n ∧ n < start + (count + 1)) := by omega
        rw [if_congr hiff rfl rfl]
        show (if _ then (w.files.setCloexec start true n).map _ else
          w.files.setCloexec start true n) = _
        rw [hkept]

/-- Either way all descriptors but the standard ones are closed on `execve`. -/
theorem cloexecFds_keeps (hw : ∀ n, 1024 ≤ n → w.files n = none) :
    Keeps cloexecFds (fun _ w' => w' = { w with files := w.files.closeOnExec 3 }) w := by
  rintro r w₁ rfl
  refine ⟨trivial, ?_⟩
  cases r with
  | true => rfl
  | false =>
      rintro sysconf w₂ rfl
      refine ⟨trivial, ?_⟩
      apply (cloexecRange_keeps 3 _).mono
      rintro _ ⟨files, made, forks⟩ ⟨rfl, rfl, hfiles⟩
      refine congrArg (fun files => (⟨files, _, _⟩ : World φ)) ?_
      funext n
      show files n = _
      have hn' := hfiles n
      dsimp only at hn'
      rw [hn', Files.closeOnExec]
      by_cases hn : n < 3
      · rw [if_neg (by omega), if_pos hn]
      · rw [if_neg hn]
        by_cases hmax : 3 ≤ n ∧ n < 3 + (getOpenMax sysconf - 3).toNat
        · rw [if_pos hmax]
        · rw [if_neg hmax]
          have hlarge : 1024 ≤ getOpenMax sysconf := by
            simp only [getOpenMax, JobService.SanitizeFds.nrOpen, JobService.SanitizeFds.intMax]
            split_ifs <;> omega
          have hnone : w₂.files n = none := hw n (by omega)
          show w₂.files n = (w₂.files n).map _
          rw [hnone]
          rfl

/-- What the two attempts leave: one pty, and nothing else above `k`. -/
structure Ptys (w w' : World φ) (k m : ℕ) : Prop where
  kept : ∀ n < k, w'.files n = w.files n
  pty : PtyAt m w'
  only : ∀ n, k ≤ n → (w'.files n).isSome = true → n = m ∨ n = m + 1
  range : k ≤ m ∧ m ≤ k + 2
  made : w.made ≤ w'.made
  forks : w'.forks = w.forks

/-- One of the two attempts has succeeded. -/
theorem Grown.ptys {n : ℕ} (h : Grown w w' k m) (hm : m = n + 2) (hkn : n = k)
    (hpty : PtyAt n w') : Ptys w w' k n := by
  subst hkn
  refine ⟨fun i hi => h.kept i (by omega), hpty, ?_, by omega, h.made, h.forks⟩
  intro i hi hopen
  have hlt := (h.packed i).mp hopen
  omega

/-- The pty in the chroot takes the place of the other one, which is closed. -/
theorem chooseMaster_keeps {w₁ w₂ : World φ} {first second : ℤ × ℤ} {k₁ k₂ : ℕ}
    (h₁ : Grown w w₁ k k₁) (hfirst : PtyOpened k k₁ first w₁) (h₂ : Grown w₁ w₂ k₁ k₂)
    (hsecond : PtyOpened k₁ k₂ second w₂) :
    Keeps (chooseMaster first second) (fun fds w' => fds.1 < 0 ∨ ∃ m : ℕ,
      fds = ((m : ℤ), ((m + 1 : ℕ) : ℤ)) ∧ Ptys w w' k m) w₂ := by
  rw [chooseMaster]
  rcases hfirst with ⟨rfl, rfl⟩ | ⟨rfl, rfl, hpty₁⟩
  · have h := h₁.trans h₂ (Nat.le_refl _)
    rcases hsecond with ⟨rfl, rfl⟩ | ⟨rfl, rfl, hpty₂⟩
    · rw [if_neg (by decide)]
      exact Or.inl (by decide)
    · rw [if_pos (by show (k₁ : ℤ) > -1; omega)]
      exact .inr ⟨k₁, rfl, (h (by omega)).ptys rfl rfl hpty₂⟩
  · rcases hsecond with ⟨rfl, rfl⟩ | ⟨rfl, rfl, hpty₂⟩
    · rw [if_neg (by show ¬ (-1 : ℤ) > (k : ℤ); omega)]
      refine .inr ⟨k, rfl, ?_⟩
      have h := h₁.trans h₂ (by omega) (by omega)
      obtain ⟨names, num, hnames, hmaster, hslave⟩ := hpty₁
      refine h.ptys rfl rfl ⟨names, num, hnames, ?_, ?_⟩
      · exact h₂.has (by omega) (by omega) hmaster
      · exact h₂.has (by omega) (by omega) hslave
    · rw [if_pos (by show ((k + 2 : ℕ) : ℤ) > (k : ℤ); omega)]
      have hopen : (w₂.files k).isSome = true := (h₂.packed k).mpr (by omega)
      apply (xclose_keeps hopen).bind
      rintro _ _ ⟨-, rfl⟩
      have hopen' : ((w₂.files.close k) (k + 1)).isSome = true := by
        rw [Files.close_of_ne (by omega)]
        exact (h₂.packed (k + 1)).mpr (by omega)
      apply (xclose_keeps hopen').bind
      rintro _ _ ⟨-, rfl⟩
      have hclosed (n : ℕ) (hn : n ≠ k) (hn' : n ≠ k + 1) :
          (w₂.files.close k).close (k + 1) n = w₂.files n := by
        rw [Files.close_of_ne hn', Files.close_of_ne hn]
      refine .inr ⟨k + 2, rfl, ?_, ?_, ?_, by omega, h₁.made.trans h₂.made,
        h₂.forks.trans h₁.forks⟩
      · intro n hn
        show (w₂.files.close k).close (k + 1) n = _
        rw [hclosed n (by omega) (by omega), h₂.kept n (by omega), h₁.kept n (by omega)]
      · obtain ⟨names, num, hnames, hmaster, hslave⟩ := hpty₂
        refine ⟨names, num, hnames, ?_, ?_⟩
        · show (w₂.files.close k).close (k + 1) (k + 2) = _
          rw [hclosed _ (by omega) (by omega)]
          exact hmaster
        · show (w₂.files.close k).close (k + 1) (k + 2 + 1) = _
          rw [hclosed _ (by omega) (by omega)]
          exact hslave
      · intro n hn hopen
        have hne : n ≠ k := by
          rintro rfl
          have hnone : (w₂.files.close n).close (n + 1) n = none := by
            rw [Files.close_of_ne (by omega), Files.close_self]
          have hopen : ((w₂.files.close n).close (n + 1) n).isSome = true := hopen
          rw [hnone] at hopen
          cases hopen
        have hne' : n ≠ k + 1 := by
          rintro rfl
          have hopen : ((w₂.files.close k).close (k + 1) (k + 1)).isSome = true := hopen
          rw [Files.close_self] at hopen
          cases hopen
        have hopen : ((w₂.files.close k).close (k + 1) n).isSome = true := hopen
        rw [hclosed n hne hne', h₂.packed n] at hopen
        omega

/-- A descriptor of this file, which is closed on `execve`. -/
def Holds (w : World φ) (fd : ℤ) (file : File φ) : Prop :=
  ∃ n : ℕ, fd = n ∧ 3 ≤ n ∧ w.files n = some ⟨file, true⟩

/-- The variables of `chrootuid`. -/
def Ends.fds (e : Ends) : List ℤ :=
  [e.master, e.slave, e.pipeOut.1, e.pipeOut.2, e.pipeErr.1, e.pipeErr.2, e.ctl.1, e.ctl.2]

/-- The process when it forks: `w` is where it was behind `sanitize_fds`, with `k` descriptors. -/
structure AtFork (s : Settings) (x : X11) (k : ℕ) (w v : World φ) (e : Ends) : Prop where
  standard : ∀ n < 3, v.files n = w.files n
  onExec : v.files.Sealed 3
  pipes : if s.usePty then e.pipeOut = (-1, -1) ∧ e.pipeErr = (-1, -1)
    else ∃ a b, a ≠ b ∧ Holds v e.pipeOut.1 (.pipe a false) ∧ Holds v e.pipeOut.2 (.pipe a true) ∧
      Holds v e.pipeErr.1 (.pipe b false) ∧ Holds v e.pipeErr.2 (.pipe b true)
  ctl : e.ctl = (-1, -1) ∨ (x.display ≠ none ∧
    ∃ a, Holds v e.ctl.1 (.pair a false) ∧ Holds v e.ctl.2 (.pair a true))
  pty : ∃ names num, IsNames names ∧ Holds v e.master (.ptmx names.devPtmx num) ∧
    Holds v e.slave (.named (names.pts ++ decimal num.toNat))
  others : ∀ n, 3 ≤ n → (v.files n).isSome = true → n < k ∨
    v.files n = some ⟨.named x11UnixDir, true⟩ ∨ (n : ℤ) ∈ e.fds
  given : ∀ n, 3 ≤ n → n < k → v.files n = (w.files n).map fun f => { f with cloexec := true }
  forks : v.forks = w.forks

theorem holds_of_has {fd : ℕ} {file : File φ} (h : Has w fd file) (hfd : 3 ≤ fd) :
    Holds { w with files := w.files.closeOnExec 3 } (fd : ℤ) file := by
  refine ⟨fd, rfl, hfd, ?_⟩
  show w.files.closeOnExec 3 fd = _
  rw [Files.closeOnExec, if_neg (by omega), h]
  rfl

/-- All stages of the setup together. -/
theorem atFork {s : Settings} {x : X11} {w₁ w₂ w₃ w₄ : World φ} {k₁ k₂ k₃ m : ℕ} {e : Ends}
    (hk : 3 ≤ k) (hk₁ : k ≤ k₁) (h₁ : Grown w w₁ k k₁)
    (hpipes : PipesAt s.usePty e.pipeOut e.pipeErr k k₁ w₁)
    (h₂ : Grown w₁ w₂ k₁ k₂) (hdir : k₂ = k₁ ∨ k₂ = k₁ + 1 ∧ Has w₂ k₁ (.named x11UnixDir))
    (hk₃ : k₂ ≤ k₃) (h₃ : Grown w₂ w₃ k₂ k₃) (hctl : PairAt e.ctl k₂ k₃ w₃)
    (hdisplay : e.ctl ≠ (-1, -1) → x.display ≠ none) (h₄ : Ptys w₃ w₄ k₃ m)
    (hmaster : e.master = m) (hslave : e.slave = ((m + 1 : ℕ) : ℤ)) :
    AtFork s x k w { w₄ with files := w₄.files.closeOnExec 3 } e := by
  have hkept₃ (n : ℕ) (hn : n < k₃) : w₄.files n = w₃.files n := h₄.kept n hn
  have hkept₂ (n : ℕ) (hn : n < k₂) : w₄.files n = w₂.files n := by
    rw [hkept₃ n (by omega), h₃.kept n (by omega)]
  have hk₂ : k₁ ≤ k₂ := by
    rcases hdir with rfl | ⟨rfl, -⟩ <;> omega
  have hkept₁ (n : ℕ) (hn : n < k₁) : w₄.files n = w₁.files n := by
    rw [hkept₂ n (by omega), h₂.kept n (by omega)]
  have hkept (n : ℕ) (hn : n < k) : w₄.files n = w.files n := by
    rw [hkept₁ n (by omega), h₁.kept n (by omega)]
  have hhas₁ {fd : ℕ} {file : File φ} (h : Has w₁ fd file) (hfd : k ≤ fd) (hfd' : fd < k₁) :
      Holds { w₄ with files := w₄.files.closeOnExec 3 } (fd : ℤ) file :=
    holds_of_has ((hkept₁ fd hfd').trans h) (by omega)
  have hhas₃ {fd : ℕ} {file : File φ} (h : Has w₃ fd file) (hfd : k₂ ≤ fd) (hfd' : fd < k₃) :
      Holds { w₄ with files := w₄.files.closeOnExec 3 } (fd : ℤ) file :=
    holds_of_has ((hkept₃ fd hfd').trans h) (by omega)
  refine ⟨?_, Files.sealed_closeOnExec _ 3, ?_, ?_, ?_, ?_, ?_, ?_⟩
  · intro n hn
    show w₄.files.closeOnExec 3 n = _
    rw [Files.closeOnExec_below hn, hkept n (by omega)]
  · rw [PipesAt] at hpipes
    split_ifs at hpipes ⊢
    · exact ⟨hpipes.1, hpipes.2.1⟩
    · obtain ⟨hk₁', hout, herr, a, b, hne, hread, hwrite, hread', hwrite'⟩ := hpipes
      rw [hout, herr]
      exact ⟨a, b, hne, hhas₁ hread (by omega) (by omega), hhas₁ hwrite (by omega) (by omega),
        hhas₁ hread' (by omega) (by omega), hhas₁ hwrite' (by omega) (by omega)⟩
  · rcases hctl with ⟨hnone, -⟩ | ⟨heq, hk₃', a, hparent, hchild⟩
    · exact .inl hnone
    · have hne : e.ctl ≠ (-1, -1) := by
        rw [heq]
        intro h
        have hfirst := (Prod.mk.inj h).1
        omega
      refine .inr ⟨hdisplay hne, a, ?_⟩
      rw [heq]
      exact ⟨hhas₃ hparent (by omega) (by omega), hhas₃ hchild (by omega) (by omega)⟩
  · obtain ⟨names, num, hnames, hptmx, hpts⟩ := h₄.pty
    refine ⟨names, num, hnames, ?_⟩
    rw [hmaster, hslave]
    exact ⟨holds_of_has hptmx (by have := h₄.range; omega),
      holds_of_has hpts (by have := h₄.range; omega)⟩
  · intro n hn hopen
    have hopen : (w₄.files.closeOnExec 3 n).isSome = true := hopen
    rw [Files.closeOnExec_isSome] at hopen
    by_cases hlow : n < k
    · exact .inl hlow
    · by_cases hlow₁ : n < k₁
      · refine .inr (.inr ?_)
        rw [PipesAt] at hpipes
        split_ifs at hpipes
        · omega
        · obtain ⟨hk₁', hout, herr, -⟩ := hpipes
          simp only [Ends.fds, hout, herr, List.mem_cons]
          omega
      · by_cases hlow₂ : n < k₂
        · refine .inr (.inl ?_)
          rcases hdir with heq | ⟨heq, hhas⟩
          · omega
          · obtain rfl : n = k₁ := by omega
            show w₄.files.closeOnExec 3 n = _
            rw [Files.closeOnExec, if_neg (by omega), hkept₂ n hlow₂, hhas]
            rfl
        · refine .inr (.inr ?_)
          by_cases hlow₃ : n < k₃
          · rcases hctl with ⟨-, heq⟩ | ⟨heq, hk₃', -⟩
            · omega
            · simp only [Ends.fds, heq, List.mem_cons]
              omega
          · have hpty := h₄.only n (by omega) hopen
            simp only [Ends.fds, hmaster, hslave, List.mem_cons]
            omega
  · intro n hn hlow
    show w₄.files.closeOnExec 3 n = _
    rw [Files.closeOnExec, if_neg (by omega), hkept n hlow]
  · exact h₄.forks.trans (h₃.forks.trans (h₂.forks.trans h₁.forks))

theorem Grown.same {k' : ℕ} (h : Grown w w' k k') (hv : v.files = w'.files ∧ w'.made ≤ v.made ∧
    v.forks = w'.forks) : Grown w v k k' := by
  obtain ⟨hfiles, hmade, hforks⟩ := hv
  refine ⟨?_, ?_, h.made.trans hmade, hforks.trans h.forks⟩
  · rw [hfiles]
    exact h.packed
  · intro n hn
    rw [hfiles]
    exact h.kept n hn

theorem PairAt.same {ctl : ℤ × ℤ} (h : PairAt ctl k k' w) (hv : v.files = w.files) :
    PairAt ctl k k' v := by
  simp only [PairAt, Has] at h ⊢
  rw [hv]
  exact h

theorem unshareNetworkIf_keeps (b : Bool) (s : Settings) :
    Keeps (unshareNetworkIf b s) (fun _ w' => w'.files = w.files ∧ w.made ≤ w'.made ∧
      w'.forks = w.forks) w := by
  cases b with
  | true => exact ofUnshare_keeps (unshareNetwork_keeps s.shareNetwork)
  | false => exact same_files w

theorem call_same (o : JobCall) (ho : IsOther o) : Keeps (jcall o) (fun _ w' => w' = w) w := by
  intro r w' hanswers
  exact ⟨trivial, other_same ho hanswers⟩

theorem makeDescriptors_keeps (c : Caller) (s : Settings) (x : X11) (devPtsMounted : Bool)
    (hw : w.files.Packed k) (hk : 3 ≤ k) (hmax : k ≤ 1000)
    (hx : x.display = none → x.connectMethod = none) :
    Keeps (makeDescriptors c s x devPtsMounted) (fun r v => AtFork s r.1 k w v r.2) w := by
  apply (createPipes_keeps s.usePty hw).bind
  rintro ⟨pipeOut, pipeErr⟩ w₁ ⟨k₁, hk₁, hk₁', h₁, hpipes⟩
  apply (x11PrepareConnect_keeps x h₁.packed).bind
  rintro ⟨x', connect⟩ w₂ ⟨k₂, h₂, hdir, hconnect⟩
  have hk₂ : k₂ ≤ k₁ + 1 := by
    rcases hdir with rfl | ⟨rfl, -⟩ <;> omega
  have hsocketpair : Keeps (createSocketpair connect) (fun ctl w' => (∃ k', k₂ ≤ k' ∧
      k' ≤ k₂ + 2 ∧ Grown w₂ w' k₂ k' ∧ PairAt ctl k₂ k' w') ∧
      (ctl ≠ (-1, -1) → x'.display ≠ none)) w₂ := by
    cases connect with
    | false =>
        exact ⟨⟨k₂, Nat.le_refl _, by omega, .refl h₂.packed, .inl ⟨rfl, rfl⟩⟩,
          fun hne => absurd rfl hne⟩
    | true =>
        apply (createSocketpair_keeps true h₂.packed).mono
        intro ctl w' hpost
        refine ⟨hpost, ?_⟩
        intro _ hnone
        obtain ⟨rfl, hmethod⟩ := hconnect rfl
        exact hmethod (hx hnone)
  apply hsocketpair.bind
  rintro ctl w₃ ⟨⟨k₃, hk₃, hk₃', h₃, hctl⟩, hdisplay⟩
  apply (ofUnshare_keeps (unshareIpc_keeps s.shareIpc)).bind
  intro _ v₁ hv₁
  apply (ofUnshare_keeps (unshareUts_keeps s.shareUts)).bind
  intro _ v₂ hv₂
  apply (unshareNetworkIf_keeps (! x'.shareCallerNetwork) s).bind
  intro _ v₃ hv₃
  have hsame : v₃.files = w₃.files := hv₃.1.trans (hv₂.1.trans hv₁.1)
  have h₃' : Grown w₂ v₃ k₂ k₃ := ((h₃.same hv₁).same hv₂).same hv₃
  apply (Ensures.inl (openPty_keeps c s devPtsMounted .openPtyUnchrooted .openPtyVerbose
    h₃'.packed)).bind
  rintro first w₄ ⟨k₄, h₄, hfirst⟩
  apply checkOrDie_keeps (call_same (.chroot (str ".")) trivial)
  apply (Ensures.inl (openPty_keeps c s devPtsMounted .openPtyChrooted _ h₄.packed)).bind
  rintro second w₅ ⟨k₅, h₅, hsecond⟩
  apply (chooseMaster_keeps h₄ hfirst h₅ hsecond).bind
  rintro ⟨master, slave⟩ w₆ hfds
  show Ensures _ _ (ite _ _ _) _ _
  by_cases hneg : master < 0
  · rw [if_pos hneg]
    trivial
  · rw [if_neg hneg]
    obtain ⟨m, hfds, hptys⟩ := hfds.resolve_left hneg
    obtain ⟨rfl, rfl⟩ := Prod.mk.inj hfds
    apply checkOrDie_keeps (call_same .setRlimits trivial)
    have hclosed : ∀ n, 1024 ≤ n → w₆.files n = none := by
      intro n hn
      by_contra hopen
      have honly := hptys.only n (by omega) (Option.isSome_iff_ne_none.mpr hopen)
      have hrange := hptys.range
      omega
    apply (cloexecFds_keeps hclosed).bind
    rintro _ _ rfl
    apply (call_same (.sigprocmask sigchld true) trivial).bind
    rintro r _ rfl
    cases r with
    | false => trivial
    | true =>
        exact atFork hk hk₁ h₁ hpipes h₂ hdir hk₃ h₃' (hctl.same hsame) hdisplay hptys rfl rfl

end Setup

/-! The two processes after the fork. -/

def World.forked (w : World φ) (r : ForkResult) : World φ := { w with forks := w.forks ++ [r] }

def fileOf (w : World φ) (fd : ℤ) : Option (File φ) := (w.files fd.toNat).map Entry.file

/-- The standard descriptors of a program: the slave of the pty, or the writing ends of the pipes
and what the client has given, an empty pipe if that is a terminal. -/
def Standard (s : Settings) (v : World φ) (e : Ends) (w : World φ) : Prop :=
  if s.usePty then ∀ n < 3, w.files.inherited n = fileOf v e.slave
  else w.files.inherited 1 = fileOf v e.pipeOut.2 ∧ w.files.inherited 2 = fileOf v e.pipeErr.2 ∧
    (w.files.inherited 0 = v.files.inherited 0 ∨
      ∃ id, v.made ≤ id ∧ w.files.inherited 0 = some (.pipe id false))

/-- What is executed finds the standard descriptors; `xauth`, which the child executes in a process
of its own, also inherits the listening socket. -/
def Executable (s : Settings) (v : World φ) (e : Ends) (w : World φ) : Prop :=
  Standard s v e w ∧
    if w.forks = v.forks ++ [.child, .child] then
      ∀ n, 3 ≤ n → ∀ file, w.files.inherited n = some file → ∃ id, file = .socket id
    else w.files.Sealed 3

/-- The calls of the child. -/
def MayExecute (s : Settings) (v : World φ) (e : Ends) : JobOp → World φ → Prop
  | .inr (.inr (.execve _ _ _)), w => Executable s v e w
  | .inr (.inr (.handleParent _ _ _ _ _)), _ => False
  | _, _ => True

/-- What the parent has kept when it begins to relay: its own ends. -/
structure ParentKeeps (k : ℕ) (v : World φ) (e : Ends) (w : World φ) : Prop where
  standard : ∀ n < 3, w.files n = v.files n
  ends : ∀ fd ∈ [e.master, e.pipeOut.1, e.pipeErr.1, e.ctl.1], ∀ file, Holds v fd file →
    Holds w fd file
  only : ∀ n, 3 ≤ n → (w.files n).isSome = true → n < k ∨
    w.files n = some ⟨.named x11UnixDir, true⟩ ∨
      (n : ℤ) ∈ [e.master, e.pipeOut.1, e.pipeErr.1, e.ctl.1]

/-- The calls of the parent. -/
def ParentReady (pid k : ℕ) (v : World φ) (e : Ends) : JobOp → World φ → Prop
  | .inr (.inr (.handleParent pid' pty out err ctl)), w =>
      pid' = pid ∧ pty = e.master ∧ out = e.pipeOut.1 ∧ err = e.pipeErr.1 ∧ ctl = e.ctl.1 ∧
        ParentKeeps k v e w
  | .inr (.inr (.execve _ _ _)), _ => False
  | _, _ => True

section Processes

variable {w w' v : World φ} {k : ℕ} {s : Settings} {x : X11} {e : Ends}

theorem xcloseOrDie_keeps {fd : ℤ} {why : String} (hfd : 0 ≤ fd) :
    Keeps (xcloseOrDie fd why) (fun _ w' =>
      w' = { w with files := w.files.close fd.toNat }) w := by
  rw [xcloseOrDie, xclose, if_neg (by omega)]
  intro r w' hcloses
  refine ⟨trivial, ?_⟩
  have hcloses : Closes w fd r w' := hcloses
  rw [Closes] at hcloses
  split_ifs at hcloses
  · obtain ⟨rfl, rfl⟩ := hcloses
    rfl
  · obtain ⟨rfl, -⟩ := hcloses
    trivial

theorem closeAll_keeps (why : String) (fds : List ℤ) :
    Keeps (Prog.each (fun fd => xcloseOrDie fd why) fds) (fun _ w' => w'.forks = w.forks ∧
      w'.made = w.made ∧ ∀ n : ℕ, w'.files n = if (n : ℤ) ∈ fds then none else w.files n) w := by
  induction fds generalizing w with
  | nil =>
      refine ⟨rfl, rfl, ?_⟩
      intro n
      rw [if_neg List.not_mem_nil]
  | cons fd fds ih =>
      rw [each_cons]
      by_cases hfd : 0 ≤ fd
      · apply (xcloseOrDie_keeps hfd).bind
        rintro _ _ rfl
        apply ih.mono
        rintro _ w' ⟨hforks, hmade, hfiles⟩
        refine ⟨hforks, hmade, ?_⟩
        intro n
        have hn := hfiles n
        dsimp only at hn
        rw [hn]
        by_cases hmem : (n : ℤ) ∈ fds
        · rw [if_pos hmem, if_pos (List.mem_cons_of_mem fd hmem)]
        · rw [if_neg hmem]
          by_cases heq : (n : ℤ) = fd
          · subst heq
            rw [if_pos List.mem_cons_self, Int.toNat_natCast, Files.close_self]
          · rw [if_neg (by rw [List.mem_cons, not_or]; exact ⟨heq, hmem⟩)]
            exact Files.close_of_ne (by omega)
      · rw [xcloseOrDie, xclose, if_pos (by omega)]
        apply ih.mono
        rintro _ w' ⟨hforks, hmade, hfiles⟩
        refine ⟨hforks, hmade, ?_⟩
        intro n
        rw [hfiles n]
        by_cases hmem : (n : ℤ) ∈ fds
        · rw [if_pos hmem, if_pos (List.mem_cons_of_mem fd hmem)]
        · rw [if_neg hmem, if_neg]
          rw [List.mem_cons, not_or]
          exact ⟨by omega, hmem⟩

theorem Holds.ne {fd fd' : ℤ} {file file' : File φ} (h : Holds v fd file) (h' : Holds v fd' file')
    (hne : file ≠ file') : fd ≠ fd' := by
  rintro rfl
  obtain ⟨n, rfl, -, hfile⟩ := h
  obtain ⟨n', heq, -, hfile'⟩ := h'
  obtain rfl : n = n' := by omega
  rw [hfile] at hfile'
  exact hne (congrArg Entry.file (Option.some.inj hfile'))

/-- The sides that the child keeps. -/
def childSide : File φ → Bool
  | .named _ => true
  | .pipe _ writing => writing
  | .pair _ child => child
  | _ => false

theorem Holds.unique {fd : ℤ} {file file' : File φ} (h : Holds v fd file)
    (h' : Holds v fd file') : file = file' := by
  by_contra hne
  exact h.ne h' hne rfl

theorem not_holds_neg {file : File φ} : ¬ Holds v (-1) file := by
  rintro ⟨n, heq, -⟩
  omega

theorem parentEnd_side {w₀ : World φ} (h : AtFork s x k w₀ v e) {fd : ℤ} {file : File φ}
    (hfd : fd ∈ [e.master, e.pipeOut.1, e.pipeErr.1, e.ctl.1]) (hfile : Holds v fd file) :
    childSide file = false := by
  have hpipe : fd = e.pipeOut.1 ∨ fd = e.pipeErr.1 → childSide file = false := by
    intro hfd
    have hpipes := h.pipes
    split_ifs at hpipes
    · rw [hpipes.1, hpipes.2] at hfd
      rcases hfd with rfl | rfl <;> exact (not_holds_neg hfile).elim
    · obtain ⟨a, b, -, hread, -, hread', -⟩ := hpipes
      rcases hfd with rfl | rfl
      · rw [hfile.unique hread]
        rfl
      · rw [hfile.unique hread']
        rfl
  simp only [List.mem_cons, List.not_mem_nil, or_false] at hfd
  rcases hfd with rfl | hfd | hfd | rfl
  · obtain ⟨names, num, -, hmaster, -⟩ := h.pty
    rw [hfile.unique hmaster]
    rfl
  · exact hpipe (.inl hfd)
  · exact hpipe (.inr hfd)
  · rcases h.ctl with hnone | ⟨-, a, hparent, -⟩
    · rw [hnone] at hfile
      exact (not_holds_neg hfile).elim
    · rw [hfile.unique hparent]
      rfl

theorem childEnd_side {w₀ : World φ} (h : AtFork s x k w₀ v e) {fd : ℤ} {file : File φ}
    (hfd : fd ∈ [e.slave, e.pipeOut.2, e.pipeErr.2, e.ctl.2]) (hfile : Holds v fd file) :
    childSide file = true := by
  have hpipe : fd = e.pipeOut.2 ∨ fd = e.pipeErr.2 → childSide file = true := by
    intro hfd
    have hpipes := h.pipes
    split_ifs at hpipes
    · rw [hpipes.1, hpipes.2] at hfd
      rcases hfd with rfl | rfl <;> exact (not_holds_neg hfile).elim
    · obtain ⟨a, b, -, -, hwrite, -, hwrite'⟩ := hpipes
      rcases hfd with rfl | rfl
      · rw [hfile.unique hwrite]
        rfl
      · rw [hfile.unique hwrite']
        rfl
  simp only [List.mem_cons, List.not_mem_nil, or_false] at hfd
  rcases hfd with rfl | hfd | hfd | rfl
  · obtain ⟨names, num, -, -, hslave⟩ := h.pty
    rw [hfile.unique hslave]
    rfl
  · exact hpipe (.inl hfd)
  · exact hpipe (.inr hfd)
  · rcases h.ctl with hnone | ⟨-, a, -, hchild⟩
    · rw [hnone] at hfile
      exact (not_holds_neg hfile).elim
    · rw [hfile.unique hchild]
      rfl

/-- The list that `closeEnds` works on. -/
abbrev toClose (s : Settings) (x : X11) (pty out err ctl : ℤ) : List ℤ :=
  pty :: ((if s.usePty then [] else [out, err]) ++ if x.display.isSome then [ctl] else [])

theorem toClose_subset {pty out err ctl fd : ℤ} (h : fd ∈ toClose s x pty out err ctl) :
    fd ∈ [pty, out, err, ctl] := by
  rw [toClose] at h
  split_ifs at h <;> simp only [List.mem_cons, List.mem_append, List.not_mem_nil, or_false] at h ⊢
  all_goals tauto

/-- Every variable that leads to an open file is non-negative and above the standard ones. -/
theorem AtFork.end_range {w₀ : World φ} (h : AtFork s x k w₀ v e) {fd : ℤ} (hfd : fd ∈ e.fds) :
    fd = -1 ∨ 3 ≤ fd := by
  have hholds {file : File φ} {fd : ℤ} (h : Holds v fd file) : fd = -1 ∨ 3 ≤ fd := by
    obtain ⟨n, rfl, hn, -⟩ := h
    exact .inr (by omega)
  obtain ⟨names, num, -, hmaster, hslave⟩ := h.pty
  have hpipes := h.pipes
  have hctl : (e.ctl.1 = -1 ∨ 3 ≤ e.ctl.1) ∧ (e.ctl.2 = -1 ∨ 3 ≤ e.ctl.2) := by
    rcases h.ctl with hnone | ⟨-, a, hparent, hchild⟩
    · rw [hnone]
      exact ⟨.inl rfl, .inl rfl⟩
    · exact ⟨hholds hparent, hholds hchild⟩
  simp only [Ends.fds, List.mem_cons, List.not_mem_nil, or_false] at hfd
  split_ifs at hpipes
  · rw [hpipes.1, hpipes.2] at hfd
    rcases hfd with rfl | rfl | rfl | rfl | rfl | rfl | rfl | rfl
    · exact hholds hmaster
    · exact hholds hslave
    all_goals first | exact .inl rfl | exact hctl.1 | exact hctl.2
  · obtain ⟨a, b, -, hread, hwrite, hread', hwrite'⟩ := hpipes
    rcases hfd with rfl | rfl | rfl | rfl | rfl | rfl | rfl | rfl
    · exact hholds hmaster
    · exact hholds hslave
    · exact hholds hread
    · exact hholds hwrite
    · exact hholds hread'
    · exact hholds hwrite'
    · exact hctl.1
    · exact hctl.2

theorem parent_keeps {w₀ : World φ} (h : AtFork s x k w₀ v e) {w : World φ}
    (hfiles : ∀ n : ℕ, w.files n = if (n : ℤ) ∈
      toClose s x e.slave e.pipeOut.2 e.pipeErr.2 e.ctl.2 then none else v.files n) :
    ParentKeeps k v e w := by
  have hchild {fd : ℤ} (hfd : fd ∈ toClose s x e.slave e.pipeOut.2 e.pipeErr.2 e.ctl.2) :
      fd ∈ [e.slave, e.pipeOut.2, e.pipeErr.2, e.ctl.2] := toClose_subset hfd
  refine ⟨?_, ?_, ?_⟩
  · intro n hn
    rw [hfiles n, if_neg]
    intro hmem
    have hmem := hchild hmem
    have hfds : (n : ℤ) ∈ e.fds := by
      simp only [Ends.fds, List.mem_cons, List.not_mem_nil, or_false] at hmem ⊢
      tauto
    have hrange := h.end_range hfds
    omega
  · intro fd hfd file hholds
    obtain ⟨n, rfl, hn, hfile⟩ := hholds
    refine ⟨n, rfl, hn, ?_⟩
    rw [hfiles n, if_neg]
    · exact hfile
    · intro hmem
      have hmine := parentEnd_side h hfd ⟨n, rfl, hn, hfile⟩
      have htheirs := childEnd_side h (hchild hmem) ⟨n, rfl, hn, hfile⟩
      rw [hmine] at htheirs
      cases htheirs
  · intro n hn hopen
    rw [hfiles n] at hopen ⊢
    split_ifs at hopen ⊢ with hmem
    · cases hopen
    · rcases h.others n hn hopen with hlow | hdir | hfd
      · exact .inl hlow
      · exact .inr (.inl hdir)
      · refine .inr (.inr ?_)
        have hpipes := h.pipes
        simp only [Ends.fds, List.mem_cons, List.not_mem_nil, or_false] at hfd ⊢
        simp only [toClose, List.mem_cons, List.mem_append, not_or] at hmem
        obtain ⟨hslave, hpipe, hctl⟩ := hmem
        have hctl' : (n : ℤ) ≠ e.ctl.2 := by
          rcases h.ctl with hnone | ⟨hdisplay, -⟩
          · rw [hnone]
            show (n : ℤ) ≠ -1
            omega
          · rw [if_pos (Option.isSome_iff_ne_none.mpr hdisplay)] at hctl
            simpa using hctl
        have hpipe' : (n : ℤ) ≠ e.pipeOut.2 ∧ (n : ℤ) ≠ e.pipeErr.2 := by
          split_ifs at hpipes hpipe
          · rw [hpipes.1, hpipes.2]
            constructor <;> show (n : ℤ) ≠ -1 <;> omega
          · simpa using hpipe
        tauto

/-! `connect_fds`. -/

/-- The standard descriptors are open. -/
def LowOpen (w : World φ) : Prop := ∀ n < 3, (w.files n).isSome = true

/-- The process but for its descriptors. -/
def SameProcess (w w' : World φ) : Prop := w.made ≤ w'.made ∧ w'.forks = w.forks

theorem dup2OrDie_keeps {fd : ℤ} {file : File φ} (newfd : ℕ) (hnew : newfd < 3)
    (hfd : Holds w fd file) : Keeps (dup2OrDie fd newfd) (fun _ w' =>
      w' = { w with files := w.files.insert newfd file }) w := by
  obtain ⟨n, rfl, hn, hfile⟩ := hfd
  intro r w' hanswers
  refine ⟨trivial, ?_⟩
  cases r with
  | false => trivial
  | true =>
      obtain ⟨-, -, -, rfl⟩ := hanswers
      show _ = _
      rw [Int.toNat_natCast, Int.toNat_natCast, Files.dup2_of_some hfile (by omega)]

theorem Holds.insert {fd : ℤ} {newfd : ℕ} {file file' : File φ} (h : Holds w fd file)
    (hnew : newfd < 3) : Holds { w with files := w.files.insert newfd file' } fd file := by
  obtain ⟨n, rfl, hn, hfile⟩ := h
  refine ⟨n, rfl, hn, ?_⟩
  show w.files.insert newfd file' n = _
  rw [Files.insert_of_ne (by omega), hfile]

theorem nullifyStdin_keeps (hlow : LowOpen w) : Keeps nullifyStdin (fun _ w' =>
    SameProcess w w' ∧ w'.files 0 = some ⟨.pipe w.made false, false⟩ ∧
      ∀ n, n ≠ 0 → w'.files n = w.files n) w := by
  intro r w₁ hanswers
  refine ⟨trivial, ?_⟩
  rcases r with _ | ⟨a, b⟩
  · trivial
  · obtain ⟨ha, hb, rfl⟩ := hanswers
    have ha₃ : 3 ≤ a := ha.ge hlow
    have hne : a ≠ b := by
      rintro rfl
      have hnone := hb.1
      rw [Files.insert_self] at hnone
      cases hnone
    have hb₀ : w.files b = none := by
      have hnone := hb.1
      rwa [Files.insert_of_ne hne.symm] at hnone
    have hb₃ : 3 ≤ b := by
      by_contra hlt
      have hopen := hlow b (by omega)
      rw [hb₀] at hopen
      cases hopen
    apply (xcloseOrDie_keeps (by omega)).bind
    rintro _ _ rfl
    have hclose : ((w.files.insert a (.pipe w.made false)).insert b (.pipe w.made true)).close
        (b : ℤ).toNat = w.files.insert a (.pipe w.made false) := by
      rw [Int.toNat_natCast]
      exact Files.close_insert hb.1
    show Ensures _ _ (ite _ _ _) _ _
    rw [if_pos (by omega)]
    intro dup w₂ hdup
    refine ⟨trivial, ?_⟩
    cases dup with
    | false => trivial
    | true =>
        obtain ⟨-, -, -, rfl⟩ := hdup
        have hread : (w.files.insert a (.pipe w.made false)) a =
            some ⟨.pipe w.made false, false⟩ := Files.insert_self
        have hfiles : (((w.files.insert a (.pipe w.made false)).insert b (.pipe w.made true)).close
            (b : ℤ).toNat).dup2 (a : ℤ).toNat (0 : ℤ).toNat =
            (w.files.insert a (.pipe w.made false)).insert 0 (.pipe w.made false) := by
          rw [hclose, Int.toNat_natCast]
          exact Files.dup2_of_some hread (by omega)
        apply (xcloseOrDie_keeps (by omega)).mono
        intro _ w₃ h₃
        have hfinal : w₃.files =
            ((w.files.insert a (.pipe w.made false)).insert 0 (.pipe w.made false)).close a := by
          rw [h₃, ← hfiles, Int.toNat_natCast]
          rfl
        refine ⟨?_, ?_, ?_⟩
        · rw [h₃]
          exact ⟨Nat.le_succ _, rfl⟩
        · rw [hfinal, Files.close_of_ne (by omega), Files.insert_self]
        · intro n hn
          rw [hfinal]
          by_cases hna : n = a
          · subst hna
            rw [Files.close_self, ha.1]
          · rw [Files.close_of_ne hna, Files.insert_of_ne hn, Files.insert_of_ne hna]

theorem closeAbove_keeps (fd : ℤ) (why : String) : Keeps (closeAbove fd why) (fun _ w' =>
    SameProcess w w' ∧ (∀ n < 3, w'.files n = w.files n) ∧
      (w.files.Sealed 3 → w'.files.Sealed 3)) w := by
  rw [closeAbove]
  by_cases hfd : fd > 2
  · rw [if_pos hfd]
    apply (xcloseOrDie_keeps (by omega)).mono
    rintro _ _ rfl
    refine ⟨⟨Nat.le_refl _, rfl⟩, ?_, fun hsealed => hsealed.close⟩
    intro n hn
    exact Files.close_of_ne (by omega)
  · rw [if_neg hfd]
    exact ⟨⟨Nat.le_refl _, rfl⟩, fun _ _ => rfl, id⟩

/-- What the child has when it calls `handle_child`. -/
structure ChildReady (s : Settings) (v : World φ) (e : Ends) (w : World φ) : Prop where
  low : ∀ n < 3, w.files n = v.files n
  lowOpen : LowOpen w
  onExec : w.files.Sealed 3
  made : v.made ≤ w.made
  forks : w.forks = v.forks ++ [.child]
  slave : ∃ file, Holds w e.slave file ∧ fileOf v e.slave = some file
  pipes : s.usePty = false → (∃ file, Holds w e.pipeOut.2 file ∧ fileOf v e.pipeOut.2 = some file) ∧
    ∃ file, Holds w e.pipeErr.2 file ∧ fileOf v e.pipeErr.2 = some file

/-- What it has once the standard descriptors are connected. -/
structure Connected (s : Settings) (v : World φ) (e : Ends) (w : World φ) : Prop where
  standard : Standard s v e w
  lowOpen : LowOpen w
  onExec : w.files.Sealed 3
  forks : w.forks = v.forks ++ [.child]

theorem Connected.mono (h : Connected s v e w) (hlow : ∀ n < 3, w'.files n = w.files n)
    (hsealed : w.files.Sealed 3 → w'.files.Sealed 3) (hforks : w'.forks = w.forks) :
    Connected s v e w' := by
  have hinherited (n : ℕ) (hn : n < 3) : w'.files.inherited n = w.files.inherited n :=
    Files.inherited_congr (hlow n hn)
  refine ⟨?_, ?_, hsealed h.onExec, hforks.trans h.forks⟩
  · have hstandard := h.standard
    rw [Standard] at hstandard ⊢
    split_ifs at hstandard ⊢
    · intro n hn
      rw [hinherited n hn]
      exact hstandard n hn
    · rw [hinherited 0 (by omega), hinherited 1 (by omega), hinherited 2 (by omega)]
      exact hstandard
  · intro n hn
    rw [hlow n hn]
    exact h.lowOpen n hn

theorem closeThree_keeps (a b c : ℤ) (hw : Connected s v e w) : Keeps (do
    closeAbove a "close pty_fd"
    closeAbove b "close pipe_out"
    closeAbove c "close pipe_err") (fun _ w' => Connected s v e w') w := by
  have hstep (fd : ℤ) (why : String) (w : World φ) (hw : Connected s v e w) :
      Keeps (closeAbove fd why) (fun _ w' => Connected s v e w') w := by
    apply (closeAbove_keeps fd why).mono
    rintro _ w' ⟨⟨-, hforks⟩, hlow, hsealed⟩
    exact hw.mono hlow hsealed hforks
  apply (hstep a _ w hw).bind
  intro _ w₁ h₁
  apply (hstep b _ w₁ h₁).bind
  intro _ w₂ h₂
  exact hstep c _ w₂ h₂

/-- The three standard descriptors once the copies are made. -/
theorem connected_of_inserts {f₁ f₂ : File φ} {w₀ : World φ} (hstdin : (w₀.files 0).isSome = true)
    (honExec : w₀.files.Sealed 3) (hforks : w₀.forks = v.forks ++ [.child])
    (hfiles : w.files = (w₀.files.insert 1 f₁).insert 2 f₂) (hsame : w.forks = w₀.forks)
    (hstandard : if s.usePty then w₀.files.inherited 0 = fileOf v e.slave ∧
        fileOf v e.slave = some f₁ ∧ fileOf v e.slave = some f₂
      else fileOf v e.pipeOut.2 = some f₁ ∧ fileOf v e.pipeErr.2 = some f₂ ∧
        (w₀.files.inherited 0 = v.files.inherited 0 ∨
          ∃ id, v.made ≤ id ∧ w₀.files.inherited 0 = some (.pipe id false))) :
    Connected s v e w := by
  have h₀ : w.files.inherited 0 = w₀.files.inherited 0 := by
    rw [hfiles, Files.inherited_insert (by omega), Files.inherited_insert (by omega)]
  have h₁ : w.files.inherited 1 = some f₁ := by
    rw [hfiles, Files.inherited_insert (by omega)]
    exact Files.inherited_of_some Files.insert_self
  have h₂ : w.files.inherited 2 = some f₂ := by
    rw [hfiles]
    exact Files.inherited_of_some Files.insert_self
  refine ⟨?_, ?_, ?_, hsame.trans hforks⟩
  · rw [Standard]
    split_ifs at hstandard ⊢
    · obtain ⟨hzero, hone, htwo⟩ := hstandard
      intro n hn
      have hcases : n = 0 ∨ n = 1 ∨ n = 2 := by omega
      rcases hcases with rfl | rfl | rfl
      · rw [h₀, hzero]
      · rw [h₁, hone]
      · rw [h₂, htwo]
    · obtain ⟨hone, htwo, hzero⟩ := hstandard
      rw [h₀, h₁, h₂]
      exact ⟨hone.symm, htwo.symm, hzero⟩
  · intro n hn
    rw [hfiles]
    have hcases : n = 0 ∨ n = 1 ∨ n = 2 := by omega
    rcases hcases with rfl | rfl | rfl
    · rw [Files.insert_of_ne (by omega), Files.insert_of_ne (by omega)]
      exact hstdin
    · rw [Files.insert_of_ne (by omega), Files.insert_self]
      rfl
    · rw [Files.insert_self]
      rfl
  · rw [hfiles]
    exact (honExec.insert (by omega)).insert (by omega)

theorem checkStdin_keeps (hlow : LowOpen w) : Keeps checkStdin (fun _ w' =>
    SameProcess w w' ∧ (∀ n, n ≠ 0 → w'.files n = w.files n) ∧ (w'.files = w.files ∨
      w'.files 0 = some ⟨.pipe w.made false, false⟩)) w := by
  rintro r _ rfl
  refine ⟨trivial, ?_⟩
  cases r with
  | false => exact ⟨⟨Nat.le_refl _, rfl⟩, fun _ _ => rfl, .inl rfl⟩
  | true =>
      apply (nullifyStdin_keeps hlow).mono
      rintro _ w' ⟨hsame, hzero, hrest⟩
      exact ⟨hsame, hrest, .inr hzero⟩

theorem connectFds_keeps (hw : ChildReady s v e w) :
    Keeps (connectFds s.usePty e.slave e.pipeOut.2 e.pipeErr.2)
      (fun _ w' => Connected s v e w') w := by
  intro sid w' hanswers
  obtain rfl : w = w' := hanswers.symm
  refine ⟨trivial, ?_⟩
  cases sid with
  | false => trivial
  | true =>
      intro ctty w' hanswers
      obtain rfl : w = w' := hanswers.symm
      refine ⟨trivial, ?_⟩
      cases ctty with
      | false => trivial
      | true =>
          cases husePty : s.usePty with
          | true =>
              obtain ⟨file, hslave, hfile⟩ := hw.slave
              apply (dup2OrDie_keeps 0 (by omega) hslave).bind
              intro _ w₁ h₁
              have hslave₁ : Holds w₁ e.slave file := by
                rw [h₁]
                exact hslave.insert (by omega)
              apply (dup2OrDie_keeps 1 (by omega) hslave₁).bind
              intro _ w₂ h₂
              have hslave₂ : Holds w₂ e.slave file := by
                rw [h₂]
                exact hslave₁.insert (by omega)
              apply (dup2OrDie_keeps 2 (by omega) hslave₂).bind
              intro _ w₃ h₃
              apply closeThree_keeps
              have hfiles₁ : w₁.files = w.files.insert 0 file := congrArg World.files h₁
              have hzero : w₁.files 0 = some ⟨file, false⟩ := by
                rw [hfiles₁]
                exact Files.insert_self
              refine @connected_of_inserts _ w₃ v s e file file w₁ ?_ ?_ ?_ ?_ ?_ ?_
              · rw [hzero]
                rfl
              · rw [h₁]
                exact hw.onExec.insert (by omega)
              · rw [h₁]
                exact hw.forks
              · rw [h₃, h₂]
              · rw [h₃, h₂]
              · rw [husePty, if_pos rfl, hfile]
                exact ⟨Files.inherited_of_some hzero, rfl, rfl⟩
          | false =>
              obtain ⟨⟨fileOut, hout, hfileOut⟩, fileErr, herr, hfileErr⟩ := hw.pipes husePty
              apply (checkStdin_keeps hw.lowOpen).bind
              rintro _ w₁ ⟨⟨hmade, hforks⟩, hrest, hzero⟩
              have hkeep {fd : ℤ} {file : File φ} (h : Holds w fd file) : Holds w₁ fd file := by
                obtain ⟨n, rfl, hn, hfile⟩ := h
                exact ⟨n, rfl, hn, by rw [hrest n (by omega), hfile]⟩
              apply (dup2OrDie_keeps 1 (by omega) (hkeep hout)).bind
              intro _ w₂ h₂
              have herr₂ : Holds w₂ e.pipeErr.2 fileErr := by
                rw [h₂]
                exact (hkeep herr).insert (by omega)
              apply (dup2OrDie_keeps 2 (by omega) herr₂).bind
              intro _ w₃ h₃
              apply closeThree_keeps
              refine @connected_of_inserts _ w₃ v s e fileOut fileErr w₁ ?_ ?_ ?_ ?_ ?_ ?_
              · rcases hzero with hsame | hzero
                · rw [hsame]
                  exact hw.lowOpen 0 (by omega)
                · rw [hzero]
                  rfl
              · intro n hn
                rw [Files.inherited_congr (hrest n (by omega))]
                exact hw.onExec n hn
              · rw [hforks]
                exact hw.forks
              · rw [h₃, h₂]
              · rw [h₃, h₂]
              · rw [husePty, if_neg (by decide)]
                refine ⟨hfileOut, hfileErr, ?_⟩
                rcases hzero with hsame | hzero
                · left
                  rw [hsame]
                  exact Files.inherited_congr (hw.low 0 (by omega))
                · exact .inr ⟨w.made, hw.made, Files.inherited_of_some hzero⟩

/-! The forwarding of X11. -/

/-- The descriptors are those of `w`, perhaps with a socket besides. -/
def Listening (w w' : World φ) (fd : ℤ) : Prop :=
  w'.forks = w.forks ∧ ((fd < 0 ∧ w'.files = w.files) ∨ ∃ n id : ℕ, fd = n ∧ 3 ≤ n ∧
    w.files n = none ∧ w'.files = w.files.insert n (.socket id))

theorem Listening.closed {n : ℕ} {r : Bool} {id : ℕ} (hfree : w.files n = none)
    (hfiles : w'.files = w.files.insert n (.socket id)) {w'' : World φ}
    (h : Closes w' (n : ℤ) r w'') : w''.files = w.files ∧ w''.forks = w'.forks := by
  have hopen : (w'.files n).isSome = true := by
    rw [hfiles, Files.insert_self]
    rfl
  obtain ⟨-, rfl⟩ := closes_open hopen h
  refine ⟨?_, rfl⟩
  show w'.files.close n = _
  rw [hfiles, Files.close_insert hfree]

theorem unixListen_keeps (fileName : Bytes) (hlow : LowOpen w) :
    Keeps (unixListen fileName) (fun fd w' => Listening w w' fd) w := by
  intro r w₁ hopens
  refine ⟨trivial, ?_⟩
  cases r with
  | none =>
      obtain rfl := hopens
      rintro _ w₂ rfl
      exact ⟨trivial, rfl, .inl ⟨by decide, rfl⟩⟩
  | some n =>
      obtain ⟨hlowest, rfl⟩ := hopens
      have hn : 3 ≤ n := hlowest.ge hlow
      have hneg : ¬ (n : ℤ) < 0 := by omega
      -- both failures close the socket
      have hclose (text : String) : Keeps ((jcall (.perrorMsg text)).bind fun _ =>
          (xclose (n : ℤ)).bind fun _ => .ret (-1)) (fun fd w' => Listening w w' fd)
          (w.opened n (.socket w.made)) := by
        rintro _ w₂ rfl
        refine ⟨trivial, ?_⟩
        rw [xclose, if_neg hneg]
        intro closed w₃ hcloses
        obtain ⟨hfiles, hforks⟩ := Listening.closed hlowest.1 rfl hcloses
        exact ⟨trivial, hforks, .inl ⟨by decide, hfiles⟩⟩
      rintro bound w₂ rfl
      refine ⟨trivial, ?_⟩
      cases bound with
      | false => exact hclose _
      | true =>
          rintro listening w₃ rfl
          refine ⟨trivial, ?_⟩
          cases listening with
          | false => exact hclose _
          | true => exact ⟨rfl, .inr ⟨n, w.made, rfl, hn, hlowest.1, rfl⟩⟩

theorem x11Listen_keeps (hlow : LowOpen w) :
    Keeps x11Listen (fun fd w' => Listening w w' fd) w := by
  have hfail (w : World φ) (text : String) : Keeps ((jcall (.perrorMsg text)).bind fun _ =>
      .ret (-1)) (fun fd w' => Listening w w' fd) w := by
    rintro _ w₂ rfl
    exact ⟨trivial, rfl, .inl ⟨by decide, rfl⟩⟩
  rintro r w₁ rfl
  refine ⟨trivial, ?_⟩
  cases r with
  | failed => exact hfail w₁ _
  | _ =>
      rintro r w₂ rfl
      refine ⟨trivial, ?_⟩
      cases r with
      | failed => exact hfail w₂ _
      | _ => exact unixListen_keeps x11Path hlow

theorem xauthGenFake_keeps (x11DataLen : ℕ) :
    Keeps (xauthGenFake x11DataLen) (fun _ w' => w'.files = w.files ∧ w'.forks = w.forks) w := by
  intro r w₁ hopens
  refine ⟨trivial, ?_⟩
  cases r with
  | none =>
      obtain rfl := hopens
      rintro _ w₂ rfl
      exact ⟨trivial, rfl, rfl⟩
  | some n =>
      obtain ⟨hlowest, rfl⟩ := hopens
      have hneg : ¬ (n : ℤ) < 0 := by omega
      have hclose {α : Type} (a : α) : Keeps ((xclose (n : ℤ)).bind fun _ => .ret a)
          (fun _ w' => w'.files = w.files ∧ w'.forks = w.forks)
          (w.opened n (.named pathDevurandom)) := by
        rw [xclose, if_neg hneg]
        intro closed w₃ hcloses
        have hopen : ((w.opened n (.named pathDevurandom)).files n).isSome = true := by
          show (w.files.insert n _ n).isSome = true
          rw [Files.insert_self]
          rfl
        obtain ⟨-, rfl⟩ := closes_open hopen hcloses
        exact ⟨trivial, Files.close_insert hlowest.1, rfl⟩
      rintro data w₂ rfl
      refine ⟨trivial, ?_⟩
      show Ensures _ _ (ite _ _ _) _ _
      by_cases hlength : data.val.length ≠ x11DataLen
      · rw [if_pos hlength]
        rintro _ w₃ rfl
        exact ⟨trivial, hclose none⟩
      · rw [if_neg hlength]
        exact hclose (some (data.val, data.val.flatMap twoDigits))

/-! Neither a program is executed nor the parent begins to relay in what comes before. -/

def IsSilent : JobOp → Prop
  | .inr (.inr (.execve _ _ _)) | .inr (.inr (.handleParent _ _ _ _ _)) => False
  | _ => True

theorem silent_mayExecute (o : JobOp) (w : World φ) (h : IsSilent o) : MayExecute s v e o w := by
  rcases o with o | o | o
  · trivial
  · trivial
  · cases o with
    | execve path argv env => exact h.elim
    | handleParent pid pty out err ctl => exact h.elim
    | _ => trivial

theorem silent_parentReady {pid : ℕ} (o : JobOp) (w : World φ) (h : IsSilent o) :
    ParentReady pid k v e o w := by
  rcases o with o | o | o
  · trivial
  · trivial
  · cases o with
    | execve path argv env => exact h.elim
    | handleParent pid pty out err ctl => exact h.elim
    | _ => trivial

theorem jcall_silent (o : JobCall) (h : IsSilent (.inr (.inr o))) : (jcall o).Uses IsSilent :=
  uses_op h

theorem xclose_silent (fd : ℤ) : (xclose fd).Uses IsSilent := by
  rw [xclose]
  split_ifs
  · trivial
  · exact jcall_silent (.close fd) trivial

theorem orDie_silent {α : Type} {p : JobProg Bool} {f : JobProg α} {why : String}
    (hp : p.Uses IsSilent) (hf : f.Uses IsSilent) :
    (p.bind fun ok => if ok then f else .die why).Uses IsSilent := by
  refine hp.bind fun ok => ?_
  cases ok with
  | true => exact hf
  | false => trivial

theorem xcloseOrDie_silent (fd : ℤ) (why : String) : (xcloseOrDie fd why).Uses IsSilent :=
  orDie_silent (xclose_silent fd) (uses_ret _ ())

theorem dup2OrDie_silent (oldfd newfd : ℤ) : (dup2OrDie oldfd newfd).Uses IsSilent :=
  orDie_silent (jcall_silent (.dup2 oldfd newfd) trivial) (uses_ret _ ())

theorem nullifyStdin_silent : nullifyStdin.Uses IsSilent := by
  refine ⟨trivial, fun r => ?_⟩
  rcases r with _ | ⟨a, b⟩
  · trivial
  · refine (xcloseOrDie_silent b "close").bind fun _ => ?_
    show Prog.Uses _ (ite _ _ _)
    split_ifs
    · exact orDie_silent (jcall_silent (.dup2 a 0) trivial) (xcloseOrDie_silent a "close")
    · trivial

theorem checkStdin_silent : checkStdin.Uses IsSilent := by
  refine ⟨trivial, fun r => ?_⟩
  cases r with
  | true => exact nullifyStdin_silent
  | false => trivial

theorem closeAbove_silent (fd : ℤ) (why : String) : (closeAbove fd why).Uses IsSilent := by
  rw [closeAbove]
  split_ifs
  · exact xcloseOrDie_silent fd why
  · trivial

theorem connectFds_silent (usePty : Bool) (pty out err : ℤ) :
    (connectFds usePty pty out err).Uses IsSilent := by
  have hstdin : (if usePty then dup2OrDie pty 0 else checkStdin).Uses IsSilent := by
    cases usePty with
    | true => exact dup2OrDie_silent pty 0
    | false => exact checkStdin_silent
  refine orDie_silent (jcall_silent .setsid trivial) ?_
  refine orDie_silent (jcall_silent (.tiocsctty pty) trivial) ?_
  have hrest : (do
      dup2OrDie (if usePty then pty else out) 1
      dup2OrDie (if usePty then pty else err) 2
      closeAbove pty "close pty_fd"
      closeAbove out "close pipe_out"
      closeAbove err "close pipe_err" : JobProg Unit).Uses IsSilent :=
    (dup2OrDie_silent _ 1).bind fun _ => (dup2OrDie_silent _ 2).bind fun _ =>
      (closeAbove_silent _ _).bind fun _ => (closeAbove_silent _ _).bind fun _ =>
      closeAbove_silent _ _
  cases usePty with
  | true => exact hstdin.bind fun _ => hrest
  | false => exact hstdin.bind fun _ => hrest

theorem unixListen_silent (fileName : Bytes) : (unixListen fileName).Uses IsSilent := by
  have hfail (text : String) (fd : ℤ) : ((jcall (.perrorMsg text)).bind fun _ =>
      (xclose fd).bind fun _ => (.ret (-1) : JobProg ℤ)).Uses IsSilent :=
    (jcall_silent (.perrorMsg text) trivial).bind fun _ => (xclose_silent fd).bind fun _ => trivial
  refine ⟨trivial, fun r => ?_⟩
  cases r with
  | none => exact (jcall_silent (.perrorMsg _) trivial).bind fun _ => trivial
  | some fd =>
      refine ⟨trivial, fun bound => ?_⟩
      cases bound with
      | false => exact hfail _ fd
      | true =>
          refine ⟨trivial, fun listening => ?_⟩
          cases listening with
          | false => exact hfail _ fd
          | true => trivial

theorem x11Listen_silent : x11Listen.Uses IsSilent := by
  have hfail (text : String) : ((jcall (.perrorMsg text)).bind fun _ =>
      (.ret (-1) : JobProg ℤ)).Uses IsSilent :=
    (jcall_silent (.perrorMsg text) trivial).bind fun _ => trivial
  refine ⟨trivial, fun r => ?_⟩
  cases r with
  | failed => exact hfail _
  | _ =>
      refine ⟨trivial, fun r => ?_⟩
      cases r with
      | failed => exact hfail _
      | _ => exact unixListen_silent x11Path

theorem xauthGenFake_silent (x11DataLen : ℕ) : (xauthGenFake x11DataLen).Uses IsSilent := by
  refine ⟨trivial, fun r => ?_⟩
  cases r with
  | none => exact (jcall_silent (.perrorMsg _) trivial).bind fun _ => trivial
  | some fd =>
      refine ⟨trivial, fun data => ?_⟩
      show Prog.Uses _ (ite _ _ _)
      split_ifs
      · exact (jcall_silent (.perrorMsg _) trivial).bind fun _ =>
          (xclose_silent fd).bind fun _ => trivial
      · exact (xclose_silent fd).bind fun _ => trivial

abbrev Executes {α : Type} (s : Settings) (v : World φ) (e : Ends) (p : JobProg α)
    (post : α → World φ → Prop) (w : World φ) : Prop :=
  Guards Answers (fun _ _ _ _ => True) (MayExecute s v e) p post w

theorem silent_executes {α : Type} {p : JobProg α} {post : α → World φ → Prop}
    (h : Keeps p post w) (hp : p.Uses IsSilent) : Executes s v e p post w :=
  h.guards hp silent_mayExecute

/-- `xauth` finds the standard descriptors of the program. -/
theorem xauthExec_executes {w₀ : World φ} {fd : ℤ} (hw₀ : Connected s v e w₀)
    (hlisten : Listening w₀ w fd) (hforks : w'.forks = w.forks ++ [.child])
    (hfiles : w'.files = w.files) (x11Key : Bytes) (env : List Bytes) :
    Executes s v e (xauthExec x11Key env) (fun _ _ => False) w' := by
  have hstandard : Standard s v e w' ∧ ∀ n, 3 ≤ n → ∀ file, w'.files.inherited n = some file →
      ∃ id, file = .socket id := by
    rcases hlisten.2 with ⟨-, hsame⟩ | ⟨n, id, -, hn, -, hinsert⟩
    · rw [hsame] at hfiles
      refine ⟨?_, ?_⟩
      · have hstandard := hw₀.standard
        simp only [Standard] at hstandard ⊢
        rw [hfiles]
        exact hstandard
      · intro i hi file hfile
        rw [hfiles, hw₀.onExec i hi] at hfile
        cases hfile
    · rw [hinsert] at hfiles
      have hlow (i : ℕ) (hi : i < 3) : w'.files.inherited i = w₀.files.inherited i := by
        rw [hfiles, Files.inherited_insert (by omega)]
      refine ⟨?_, ?_⟩
      · have hstandard := hw₀.standard
        simp only [Standard] at hstandard ⊢
        rw [hlow 0 (by omega), hlow 1 (by omega), hlow 2 (by omega)]
        split_ifs at hstandard ⊢
        · intro i hi
          rw [hlow i hi]
          exact hstandard i hi
        · exact hstandard
      · intro i hi file hfile
        by_cases hin : i = n
        · subst hin
          rw [hfiles, Files.inherited_of_some Files.insert_self] at hfile
          exact ⟨id, (Option.some.inj hfile).symm⟩
        · rw [hfiles, Files.inherited_insert hin, hw₀.onExec i hi] at hfile
          cases hfile
  have hforks' : w'.forks = v.forks ++ [.child, .child] := by
    rw [hforks, hlisten.1, hw₀.forks, List.append_assoc]
    rfl
  have hexec (path : Bytes) (argv : List Bytes) : MayExecute s v e
      (.inr (.inr (.execve path argv env))) w' := by
    refine ⟨hstandard.1, ?_⟩
    rw [if_pos hforks']
    exact hstandard.2
  refine ⟨hexec _ _, ?_⟩
  rintro _ w₁ rfl
  refine ⟨trivial, hexec _ _, ?_⟩
  rintro _ w₂ rfl
  refine ⟨trivial, trivial, ?_⟩
  rintro _ w₃ rfl
  refine ⟨trivial, trivial, ?_⟩
  rintro _ w₄ rfl
  refine ⟨trivial, trivial, ?_⟩
  intro never
  exact never.elim

/-- What the program of the job is executed with. -/
structure Final (s : Settings) (v : World φ) (e : Ends) (w : World φ) : Prop where
  standard : Standard s v e w
  onExec : w.files.Sealed 3
  forks : w.forks ≠ v.forks ++ [.child, .child]

theorem Connected.final {r : List ForkResult} (h : Connected s v e w)
    (hfiles : w'.files = w.files) (hforks : w'.forks = w.forks ++ r) (hr : r ≠ [.child]) :
    Final s v e w' := by
  refine ⟨?_, ?_, ?_⟩
  · have hstandard := h.standard
    simp only [Standard] at hstandard ⊢
    rw [hfiles]
    exact hstandard
  · rw [hfiles]
    exact h.onExec
  · rw [hforks, h.forks, List.append_assoc]
    intro heq
    have htail := List.append_cancel_left heq
    exact hr (List.cons.inj htail).2

/-- Only the parent, or the process whose `fork` has failed, goes on. -/
theorem xauthAddEntry_executes {w₀ : World φ} {fd : ℤ} (hw₀ : Connected s v e w₀)
    (hlisten : Listening w₀ w fd) (x11Key : Bytes) (env : List Bytes) :
    Executes s v e (xauthAddEntry x11Key env) (fun _ w' => w'.files = w.files ∧
      ∃ r, r ≠ .child ∧ w'.forks = w.forks ++ [r]) w := by
  refine ⟨trivial, ?_⟩
  rintro r w₁ rfl
  refine ⟨trivial, ?_⟩
  cases r with
  | failed =>
      refine ⟨rfl, .failed, ?_, rfl⟩
      intro h
      cases h
  | child =>
      have hexec : Executes s v e (xauthExec x11Key env) (fun _ _ => False) (w.forked .child) :=
        @xauthExec_executes _ w (w.forked .child) v s e w₀ fd hw₀ hlisten rfl rfl x11Key env
      apply hexec.mono
      intro _ _ h
      exact h.elim
  | parent pid =>
      refine ⟨trivial, ?_⟩
      rintro _ w₂ rfl
      refine ⟨trivial, rfl, .parent pid, ?_, rfl⟩
      intro h
      cases h

/-- The socket leaves no trace. -/
theorem closeListening_keeps {w₁ w₂ : World φ} {fd : ℤ} (hlisten : Listening w w₁ fd)
    (hfd : fd ≥ 0) (hfiles : w₂.files = w₁.files) : Keeps (xclose fd) (fun _ w' =>
      w'.files = w.files ∧ w'.forks = w₂.forks) w₂ := by
  rw [xclose, if_neg (by omega)]
  intro r w₃ hcloses
  refine ⟨trivial, ?_⟩
  rcases hlisten.2 with ⟨hneg, -⟩ | ⟨n, id, rfl, -, hfree, hinsert⟩
  · omega
  · exact Listening.closed hfree (hfiles.trans hinsert) hcloses

theorem forwardX11_executes (hw : Connected s v e w) (x : X11) (ctlFd : ℤ) (env : List Bytes) :
    Executes s v e (forwardX11 x ctlFd env) (fun _ w' => Final s v e w') w := by
  apply (silent_executes (x11Listen_keeps hw.lowOpen) x11Listen_silent).bind
  intro fd w₁ hlisten
  show Guards _ _ _ (ite _ _ _) _ _
  by_cases hfd : fd ≥ 0
  · rw [if_pos hfd]
    apply (silent_executes (xauthGenFake_keeps x.dataLen) (xauthGenFake_silent x.dataLen)).bind
    rintro fake w₂ ⟨hfiles₂, hforks₂⟩
    have hforks : w₂.forks = w.forks := hforks₂.trans hlisten.1
    rcases fake with _ | ⟨data, key⟩
    · apply (silent_executes (closeListening_keeps hlisten hfd hfiles₂) (xclose_silent fd)).bind
      rintro _ w₃ ⟨hfiles₃, hforks₃⟩
      refine @Connected.final _ w _ v s e [] hw hfiles₃ ?_ (by simp)
      rw [hforks₃, hforks, List.append_nil]
    · have hlisten₂ : Listening w w₂ fd := by
        refine ⟨hforks, ?_⟩
        rw [hfiles₂]
        exact hlisten.2
      apply (xauthAddEntry_executes hw hlisten₂ key env).bind
      rintro added w₃ ⟨hfiles₃, r, hr, hforks₃⟩
      have hclose (w₄ : World φ) (h₄ : w₄ = w₃) : Executes s v e ((xclose fd).bind fun _ =>
          .ret ()) (fun _ w' => Final s v e w') w₄ := by
        apply (silent_executes (closeListening_keeps hlisten hfd ?_) (xclose_silent fd)).bind
        · rintro _ w₅ ⟨hfiles₅, hforks₅⟩
          refine @Connected.final _ w _ v s e [r] hw hfiles₅ ?_ ?_
          · rw [hforks₅, h₄, hforks₃, hforks]
          · intro heq
            exact hr (List.cons.inj heq).1
        · rw [h₄, hfiles₃, hfiles₂]
      cases added with
      | false => exact hclose w₃ rfl
      | true =>
          refine ⟨trivial, ?_⟩
          intro sent w₄ hanswers
          exact ⟨trivial, hclose w₄ hanswers⟩
  · rw [if_neg hfd]
    rcases hlisten.2 with ⟨-, hsame⟩ | ⟨n, id, rfl, -⟩
    · exact @Connected.final _ w _ v s e [] hw hsame (by rw [hlisten.1, List.append_nil]) (by simp)
    · omega

theorem orDie_executes {α : Type} {o : JobProg Bool} {why : String} {f : JobProg α}
    {post : α → World φ → Prop} (ho : Keeps o (fun _ w' => w' = w) w) (hsilent : o.Uses IsSilent)
    (hf : Executes s v e f post w) :
    Executes s v e (o.bind fun ok => if ok then f else .die why) post w := by
  apply (silent_executes ho hsilent).bind
  rintro ok w' rfl
  cases ok with
  | true => exact hf
  | false => trivial

theorem handleChild_executes (hw : ChildReady s v e w) (x : X11) (argv env : List Bytes)
    (ctlFd : ℤ) : Executes s v e (handleChild s x argv env e.slave e.pipeOut.2 e.pipeErr.2 ctlFd)
      (fun _ _ => True) w := by
  have hexec (w : World φ) (hw : Final s v e w) : Executes s v e (do
      jcall (.umask s.changeUmask)
      sigprocmaskOrDie sigchld false
      jcall (.execve (argv.headD []) argv env)
      .die s!"execve: {text (argv.headD [])}" : JobProg ℤ) (fun _ _ => True) w := by
    refine ⟨trivial, ?_⟩
    rintro _ w₁ rfl
    refine ⟨trivial, ?_⟩
    refine ⟨trivial, ?_⟩
    rintro unblocked w₂ rfl
    refine ⟨trivial, ?_⟩
    cases unblocked with
    | false => trivial
    | true =>
        refine ⟨⟨hw.standard, ?_⟩, ?_⟩
        · rw [if_neg hw.forks]
          exact hw.onExec
        · intro _ w₃ _
          exact ⟨trivial, trivial⟩
  apply (silent_executes (connectFds_keeps hw) (connectFds_silent _ _ _ _)).bind
  intro _ w₁ h₁
  have hdfl (signo : ℕ) : Executes s v e (dflOrDie signo) (fun _ w' => w' = w₁) w₁ :=
    orDie_executes (call_same (.dflSignalHandler signo) trivial)
      (jcall_silent (.dflSignalHandler signo) trivial) rfl
  apply (hdfl sighup).bind
  rintro _ _ rfl
  apply (hdfl sigpipe).bind
  rintro _ _ rfl
  apply (hdfl sigterm).bind
  rintro _ _ rfl
  apply orDie_executes (call_same (.nice s.changeNice) trivial)
    (jcall_silent (.nice s.changeNice) trivial)
  apply orDie_executes (call_same (.setAffinityNproc s.changeNproc) trivial)
    (jcall_silent (.setAffinityNproc s.changeNproc) trivial)
  by_cases hctl : ctlFd ≥ 0
  · rw [if_pos hctl]
    apply (forwardX11_executes h₁ x ctlFd env).bind
    rintro _ w₂ h₂
    exact hexec w₂ h₂
  · rw [if_neg hctl]
    exact hexec _ (@Connected.final _ _ _ v s e [] h₁ rfl (by rw [List.append_nil]) (by simp))

/-! The parent and the child from the fork on. -/

theorem ofUnshare_silent (p : Unshare.UnshareProg Unit) : (ofUnshare p).Uses IsSilent :=
  Prog.Uses.inr (Prog.Uses.inl (uses_true p) (fun _ _ => trivial)) fun _ h => h

theorem unshareNetworkIf_silent (b : Bool) (s : Settings) :
    (unshareNetworkIf b s).Uses IsSilent := by
  cases b with
  | true => exact ofUnshare_silent _
  | false => trivial

theorem checkOrDie_silent {o : JobProg Bool} (why : String) (ho : o.Uses IsSilent) :
    (checkOrDie o why).Uses IsSilent := orDie_silent ho (uses_ret _ ())

theorem closeEnds_silent (pty out err ctl : ℤ) : (closeEnds s x pty out err ctl).Uses IsSilent :=
  .each fun fd _ => xcloseOrDie_silent fd "close"

/-- A check whose call changes no descriptor and may be made anywhere. -/
theorem check_guards {α : Type} {pre : JobOp → World φ → Prop} {o : JobProg Bool} {why : String}
    {f : Unit → JobProg α} {post : α → World φ → Prop}
    (hpre : ∀ (o : JobOp) (w : World φ), IsSilent o → pre o w) (hsilent : o.Uses IsSilent)
    (ho : Keeps o (fun _ w' => w' = w) w)
    (hf : Guards Answers (fun _ _ _ _ => True) pre (f ()) post w) :
    Guards Answers (fun _ _ _ _ => True) pre ((checkOrDie o why).bind f) post w := by
  have hcheck : Keeps (checkOrDie o why) (fun _ w' => w' = w) w := by
    apply ho.bind
    rintro ok w' rfl
    cases ok with
    | true => rfl
    | false => trivial
  apply (hcheck.guards (checkOrDie_silent why hsilent) hpre).bind
  rintro _ _ rfl
  exact hf

/-- What the parent does before it relays. -/
theorem runParent_guards {w₀ : World φ} (h : AtFork s x k w₀ v e) (c : Caller) (pid : ℕ) :
    Guards Answers (fun _ _ _ _ => True) (ParentReady pid k v e) (runParent c s x e pid)
      (fun _ _ => True) (v.forked (.parent pid)) := by
  apply (Ensures.guards (closeAll_keeps "close" _) (closeEnds_silent _ _ _ _)
    silent_parentReady).bind
  rintro _ w₁ ⟨-, -, hfiles⟩
  have hkeeps : ParentKeeps k v e w₁ := parent_keeps h hfiles
  apply check_guards silent_parentReady (jcall_silent .prctlDumpable trivial)
    (call_same .prctlDumpable trivial)
  apply check_guards silent_parentReady (jcall_silent (.setgid c.gid) trivial)
    (call_same (.setgid c.gid) trivial)
  apply check_guards silent_parentReady (jcall_silent (.setuid c.uid) trivial)
    (call_same (.setuid c.uid) trivial)
  refine ⟨⟨rfl, rfl, rfl, rfl, rfl, hkeeps⟩, ?_⟩
  intro rc w₂ _
  exact ⟨trivial, trivial⟩

theorem ChildReady.same (h : ChildReady s v e w) (hw : w'.files = w.files ∧ w.made ≤ w'.made ∧
    w'.forks = w.forks) : ChildReady s v e w' := by
  obtain ⟨hfiles, hmade, hforks⟩ := hw
  have hholds {fd : ℤ} {file : File φ} (hfd : Holds w fd file) : Holds w' fd file := by
    rw [Holds, hfiles]
    exact hfd
  refine ⟨?_, ?_, ?_, h.made.trans hmade, hforks.trans h.forks, ?_, ?_⟩
  · intro n hn
    rw [hfiles, h.low n hn]
  · intro n hn
    rw [hfiles]
    exact h.lowOpen n hn
  · rw [hfiles]
    exact h.onExec
  · obtain ⟨file, hslave, hfile⟩ := h.slave
    exact ⟨file, hholds hslave, hfile⟩
  · intro husePty
    obtain ⟨⟨file, hout, hfile⟩, file', herr, hfile'⟩ := h.pipes husePty
    exact ⟨⟨file, hholds hout, hfile⟩, file', hholds herr, hfile'⟩

/-- The child has closed the ends of the parent, and only those. -/
theorem child_ready {w₀ : World φ} (h : AtFork s x k w₀ v e) (hlow : LowOpen v)
    (hforks : w.forks = v.forks ++ [.child]) (hmade : v.made ≤ w.made)
    (hfiles : ∀ n : ℕ, w.files n = if (n : ℤ) ∈
      toClose s x e.master e.pipeOut.1 e.pipeErr.1 e.ctl.1 then none else v.files n) :
    ChildReady s v e w := by
  have hparent {fd : ℤ} (hfd : fd ∈ toClose s x e.master e.pipeOut.1 e.pipeErr.1 e.ctl.1) :
      fd ∈ [e.master, e.pipeOut.1, e.pipeErr.1, e.ctl.1] := toClose_subset hfd
  have hstandard (n : ℕ) (hn : n < 3) : w.files n = v.files n := by
    rw [hfiles n, if_neg]
    intro hmem
    have hmem := hparent hmem
    have hfds : (n : ℤ) ∈ e.fds := by
      simp only [Ends.fds, List.mem_cons, List.not_mem_nil, or_false] at hmem ⊢
      tauto
    have hrange := h.end_range hfds
    omega
  have hkept {fd : ℤ} {file : File φ} (hfd : fd ∈ [e.slave, e.pipeOut.2, e.pipeErr.2, e.ctl.2])
      (hholds : Holds v fd file) : ∃ file, Holds w fd file ∧ fileOf v fd = some file := by
    obtain ⟨n, rfl, hn, hfile⟩ := hholds
    refine ⟨file, ⟨n, rfl, hn, ?_⟩, ?_⟩
    · rw [hfiles n, if_neg]
      · exact hfile
      · intro hmem
        have htheirs := parentEnd_side h (hparent hmem) ⟨n, rfl, hn, hfile⟩
        have hmine := childEnd_side h hfd ⟨n, rfl, hn, hfile⟩
        rw [hmine] at htheirs
        cases htheirs
    · rw [fileOf, Int.toNat_natCast, hfile]
      rfl
  refine ⟨hstandard, ?_, ?_, hmade, hforks, ?_, ?_⟩
  · intro n hn
    rw [hstandard n hn]
    exact hlow n hn
  · intro n hn
    have hv := h.onExec n hn
    by_cases hmem : (n : ℤ) ∈ toClose s x e.master e.pipeOut.1 e.pipeErr.1 e.ctl.1
    · exact Files.inherited_of_none (by rw [hfiles n, if_pos hmem])
    · rw [Files.inherited_congr (u := v.files) (by rw [hfiles n, if_neg hmem])]
      exact hv
  · obtain ⟨names, num, -, -, hslave⟩ := h.pty
    exact hkept (by simp) hslave
  · intro husePty
    have hpipes := h.pipes
    rw [husePty, if_neg (by decide)] at hpipes
    obtain ⟨a, b, -, -, hwrite, -, hwrite'⟩ := hpipes
    exact ⟨hkept (by simp) hwrite, hkept (by simp) hwrite'⟩

theorem setPersonality_executes {f : Unit → JobProg ℤ} {post : ℤ → World φ → Prop}
    (persona : UInt32) (hf : Executes s v e (f ()) post w) :
    Executes s v e ((setPersonality persona).bind f) post w := by
  have hkeeps : Keeps (setPersonality persona) (fun _ w' => w' = w) w := by
    rw [setPersonality]
    split_ifs
    · rfl
    · rintro first w₁ rfl
      refine ⟨trivial, ?_⟩
      cases first with
      | true => rfl
      | false =>
          rintro second w₂ rfl
          refine ⟨trivial, ?_⟩
          cases second with
          | true => rfl
          | false => trivial
  have hsilent : (setPersonality persona).Uses IsSilent := by
    rw [setPersonality]
    split_ifs
    · trivial
    · refine ⟨trivial, fun first => ?_⟩
      cases first with
      | true => trivial
      | false => exact checkOrDie_silent _ (jcall_silent (.personality persona) trivial)
  apply (silent_executes hkeeps hsilent).bind
  rintro _ _ rfl
  exact hf

/-- What the child does before it executes the program, and the program's helper. -/
theorem runChild_executes {w₀ : World φ} (h : AtFork s x k w₀ v e) (hlow : LowOpen v)
    (p : Program) (groups : List UInt32) (uid gid persona : UInt32) :
    Executes s v e (runChild s x e p groups uid gid persona) (fun _ _ => True)
      (v.forked .child) := by
  apply (silent_executes (closeAll_keeps "close" _) (closeEnds_silent _ _ _ _)).bind
  rintro _ w₁ ⟨hforks, hmade, hfiles⟩
  have hready : ChildReady s v e w₁ := child_ready h hlow hforks hmade.ge hfiles
  apply (silent_executes (unshareNetworkIf_keeps x.shareCallerNetwork s)
    (unshareNetworkIf_silent _ s)).bind
  intro _ w₂ h₂
  have hready₂ := hready.same h₂
  apply check_guards silent_mayExecute (jcall_silent .prctlDumpable trivial)
    (call_same .prctlDumpable trivial)
  refine ⟨trivial, ?_⟩
  rintro _ w₃ hsame
  refine ⟨trivial, ?_⟩
  have hready₃ : ChildReady s v e w₃ := by
    obtain rfl : w₃ = w₂ := hsame
    exact hready₂
  apply check_guards silent_mayExecute (jcall_silent (.setgid gid) trivial)
    (call_same (.setgid gid) trivial)
  apply check_guards silent_mayExecute (jcall_silent (.setuid uid) trivial)
    (call_same (.setuid uid) trivial)
  apply setPersonality_executes
  exact handleChild_executes hready₃ x p.argv _ e.ctl.2

end Processes

/-! The whole of it. -/

theorem createPipe_silent : createPipe.Uses IsSilent := by
  refine ⟨trivial, fun r => ?_⟩
  rcases r with _ | ⟨readEnd, writeEnd⟩ <;> trivial

theorem makeDescriptors_silent (c : Caller) (s : Settings) (x : X11) (devPtsMounted : Bool) :
    (makeDescriptors c s x devPtsMounted).Uses IsSilent := by
  have hpipes : (createPipes s.usePty).Uses IsSilent := by
    rw [createPipes]
    split_ifs
    · trivial
    · exact createPipe_silent.bind fun _ => createPipe_silent.bind fun _ => trivial
  have hprepare : (x11PrepareConnect x).Uses IsSilent := by
    rw [x11PrepareConnect]
    rcases x.connectMethod with _ | method
    · trivial
    · cases method with
      | inet => trivial
      | unix =>
          refine ⟨trivial, fun r => ?_⟩
          cases r with
          | none => exact (jcall_silent (.perrorMsg _) trivial).bind fun _ => trivial
          | some fd => trivial
  have hsocketpair (connect : Bool) : (createSocketpair connect).Uses IsSilent := by
    cases connect with
    | false => trivial
    | true =>
        refine ⟨trivial, fun r => ?_⟩
        rcases r with _ | ⟨parentEnd, childEnd⟩ <;> trivial
  have hopen (chrooted : Chrootedness) (verboseError : Verbosity) :
      ((openPty c s devPtsMounted chrooted verboseError).inl : JobProg (ℤ × ℤ)).Uses IsSilent :=
    Prog.Uses.inl (uses_true _) fun _ _ => trivial
  have hchoose (first second : ℤ × ℤ) : (chooseMaster first second).Uses IsSilent := by
    rw [chooseMaster]
    split_ifs
    · exact (xclose_silent _).bind fun _ => (xclose_silent _).bind fun _ => trivial
    · trivial
  have hcloexec : cloexecFds.Uses IsSilent := by
    have hone (fd : ℕ) : (cloexecOne fd).Uses IsSilent := by
      refine ⟨trivial, fun r => ?_⟩
      cases r with
      | none => trivial
      | some flags =>
          show (addCloexec fd flags).Uses IsSilent
          rw [addCloexec]
          split_ifs
          · exact orDie_silent (jcall_silent (.setfd fd _) trivial) (uses_ret _ ())
          · trivial
    refine ⟨trivial, fun r => ?_⟩
    cases r with
    | true => trivial
    | false =>
        refine ⟨trivial, fun sysconf => ?_⟩
        exact .each fun fd _ => hone fd
  refine hpipes.bind fun pipes => hprepare.bind fun prepared => (hsocketpair prepared.2).bind
    fun ctl => (ofUnshare_silent _).bind fun _ => (ofUnshare_silent _).bind fun _ =>
    (unshareNetworkIf_silent _ s).bind fun _ => (hopen _ _).bind fun first =>
    (checkOrDie_silent _ (jcall_silent (.chroot _) trivial)).bind fun _ =>
    (hopen _ _).bind fun second => (hchoose first second).bind fun pty => ?_
  show Prog.Uses _ (ite _ _ _)
  split_ifs
  · trivial
  · exact (checkOrDie_silent _ (jcall_silent .setRlimits trivial)).bind fun _ =>
      hcloexec.bind fun _ => (orDie_silent (jcall_silent (.sigprocmask sigchld true) trivial)
        (uses_ret _ ())).bind fun _ => trivial

/-- What the process that relays has the other ends of: the standard descriptors of a program that
the other process executes. -/
structure Paired (s : Settings) (pty out err : ℤ) (parent child : World φ) : Prop where
  pty : s.usePty = true → ∃ names num, IsNames names ∧
    Holds parent pty (.ptmx names.devPtmx num) ∧
    ∀ n < 3, child.files.inherited n = some (.named (names.pts ++ decimal num.toNat))
  pipes : s.usePty = false → ∃ a b, a ≠ b ∧
    Holds parent out (.pipe a false) ∧ child.files.inherited 1 = some (.pipe a true) ∧
    Holds parent err (.pipe b false) ∧ child.files.inherited 2 = some (.pipe b true)

/-- A job that forks in the world `v`, and the two processes from there on. -/
structure Split (c : Caller) (s : Settings) (x : X11) (k : ℕ) (p : Program)
    (groups : List UInt32) (uid gid persona : UInt32) (w v : World φ) (e : Ends) : Prop where
  atFork : AtFork s x k w v e
  program : ∀ {path argv envp t u}, Awaits Answers (.inr (.inr (.execve path argv envp)))
    (runChild s x e p groups uid gid persona) (v.forked .child) t u → Executable s v e u
  parent : ∀ {pid o t u}, Awaits Answers o (runParent c s x e pid) (v.forked (.parent pid)) t u →
    ParentReady pid k v e o u

section Split

variable {w v : World φ} {k : ℕ} {c : Caller} {s : Settings} {x : X11} {e : Ends} {p : Program}
variable {groups : List UInt32} {uid gid persona : UInt32}

theorem Holds.fileOf {fd : ℤ} {file : File φ} (h : Holds v fd file) : fileOf v fd = some file := by
  obtain ⟨n, rfl, -, hfile⟩ := h
  rw [Inheritance.fileOf, Int.toNat_natCast, hfile]
  rfl

theorem split_of_fork (hfork : AtFork s x k w v e) (hlow : LowOpen v) :
    Split c s x k p groups uid gid persona w v e := by
  refine ⟨hfork, ?_, ?_⟩
  · intro path argv envp t u hawaits
    exact (runChild_executes hfork hlow p groups uid gid persona).awaits hawaits
  · intro pid o t u hawaits
    exact (runParent_guards hfork c pid).awaits hawaits

theorem Split.paired {pid pid' : ℕ} {pty out err ctl : ℤ} {path : Bytes} {argv envp : List Bytes}
    {t t' : List (Step (World φ) JobRes)} {u u' : World φ}
    (h : Split c s x k p groups uid gid persona w v e)
    (hchild : Awaits Answers (.inr (.inr (.execve path argv envp)))
      (runChild s x e p groups uid gid persona) (v.forked .child) t u)
    (hparent : Awaits Answers (.inr (.inr (.handleParent pid' pty out err ctl)))
      (runParent c s x e pid) (v.forked (.parent pid)) t' u') : Paired s pty out err u' u := by
  obtain ⟨hstandard, -⟩ := h.program hchild
  obtain ⟨-, rfl, rfl, rfl, -, hkeeps⟩ := h.parent hparent
  have hends := hkeeps.ends
  rw [Standard] at hstandard
  constructor
  · intro husePty
    rw [if_pos husePty] at hstandard
    obtain ⟨names, num, hnames, hmaster, hslave⟩ := h.atFork.pty
    refine ⟨names, num, hnames, hends _ (by simp) _ hmaster, fun n hn => ?_⟩
    rw [hstandard n hn, hslave.fileOf]
  · intro husePty
    rw [husePty, if_neg Bool.false_ne_true] at hstandard
    have hpipes := h.atFork.pipes
    rw [husePty, if_neg Bool.false_ne_true] at hpipes
    obtain ⟨a, b, hne, hread, hwrite, hread', hwrite'⟩ := hpipes
    refine ⟨a, b, hne, hends _ (by simp) _ hread, ?_, hends _ (by simp) _ hread', ?_⟩
    · rw [hstandard.1, hwrite.fileOf]
    · rw [hstandard.2.1, hwrite'.fileOf]

/-- Whatever the job does beyond its setup, one of the two processes does. -/
theorem finishJob_awaits {o : JobOp} {devPtsMounted : Bool} {tr : List (Step (World φ) JobRes)}
    {u : World φ} (h : Awaits Answers o
      (finishJob c s x devPtsMounted p groups uid gid persona) w tr u) :
    IsSilent o ∨ ∃ t₁ x' e v r t₂, tr = t₁ ++ ⟨v, ⟨.inr (.inr .fork), r⟩, v.forked r⟩ :: t₂ ∧
      Exec (· = ·) Answers (makeDescriptors c s x devPtsMounted) w t₁ (.returned (x', e)) v ∧
      Awaits Answers o (afterFork c s x' e p groups uid gid persona r) (v.forked r) t₂ u := by
  rcases awaits_bind h with hhead | ⟨⟨x', e⟩, t₁, t₂, v, rfl, hrun, hrest⟩
  · exact .inl (hhead.uses (makeDescriptors_silent c s x devPtsMounted))
  · cases hrest with
    | here => exact .inl trivial
    | call hfork hrest =>
        obtain rfl := hfork
        exact .inr ⟨t₁, x', e, _, _, _, rfl, hrun, hrest⟩

end Split

/-- A display that is not recognized leaves no way to reach it. -/
theorem x11ParseDisplay_error {x y : X11} {messages : List String}
    (h : x11ParseDisplay x = (y, .error messages)) : y.connectMethod = x.connectMethod := by
  unfold x11ParseDisplay at h
  split at h
  · obtain rfl := (Prod.mk.inj h).1
    rfl
  · split at h
    · obtain rfl := (Prod.mk.inj h).1
      rfl
    · dsimp only at h
      split_ifs at h
      · obtain rfl := (Prod.mk.inj h).1
        rfl
      all_goals cases h

/-- Without a display there is no way to reach one. -/
theorem x11Setup_method {x : X11} (hlen : x.dataLen = 0) (hmethod : x.connectMethod = none)
    (hkey : ∀ key, x.key = some key → key ≠ []) (h : (x11Setup x).1.display = none) :
    (x11Setup x).1.connectMethod = none := by
  have hdrop : (if x.dataLen = 0 then x11DropDisplay x else x).connectMethod = none := by
    rw [if_pos hlen]
    exact hmethod
  unfold x11Setup at h ⊢
  split at h
  · next display key hdisplay hsome =>
      split_ifs at h ⊢ with hodd
      · exact hmethod
      · split at h
        · next y hparse =>
            obtain ⟨hd, -, hl, -⟩ := x11ParseDisplay_ok hparse
            have hpos : key.length ≠ 0 := by
              intro hzero
              exact hkey key hsome (List.eq_nil_of_length_eq_zero hzero)
            have hlength : y.dataLen ≠ 0 := by
              rw [hl]
              show key.length / 2 ≠ 0
              omega
            rw [if_neg hlength, hd, hdisplay] at h
            cases h
        · next y messages hparse => exact (x11ParseDisplay_error hparse).trans hmethod
  · exact hdrop

/-- What `parse_env` has made of the environment. -/
theorem parseX11Env_method (env : Option (List Bytes))
    (h : (parseX11Env env {}).1.display = none) :
    (parseX11Env env {}).1.connectMethod = none := by
  cases env with
  | none => rfl
  | some env =>
      refine x11Setup_method rfl rfl ?_ h
      intro key hkey hnil
      have hkey : (getenvNonempty env (str "XAUTH_KEY")).or none = some key := hkey
      rw [Option.or_none, hnil, getenvNonempty] at hkey
      split at hkey
      · cases hkey
      · cases hkey
      · next e hne _ =>
          obtain rfl := Option.some.inj hkey
          exact hne rfl

/-- Whatever descriptors a job is entered with, and whichever of its calls fail: the program that it
executes has three open descriptors, the slave of the pty or the writing ends of the two pipes and
the client's standard input; its `xauth` has the listening socket besides. The process that relays,
which has forked in the same world, has its own ends of these, and nothing else but the log and the
directory of the X11 sockets. -/
theorem descriptors_inherited (closing : Closing) (t : FdTable φ) (logFd : ℤ) (fds : Fds φ)
    (c : Caller) (s : Settings) (env : Option (List Bytes)) (devPtsMounted : Bool) (p : Program)
    (groups : List UInt32) (uid gid persona : UInt32) (hlog : Refers t logFd)
    (hclosing : closing.Reaches t)
    (hfds : sanitizeFds closing { table := t, logFd := logFd } = .ok fds) :
    ∃ k, (∀ n : ℕ, 3 ≤ n → n < k → fds.logFd = n) ∧
      (∀ tr x e v, Exec (· = ·) Answers
          (makeDescriptors c s (parseX11Env env {}).1 devPtsMounted) (World.start fds.table) tr
          (.returned (x, e)) v →
        Split c s x k p groups uid gid persona (World.start fds.table) v e ∧
        ∀ path argv envp t u pid pid' pty out err ctl t' u',
          Awaits Answers (.inr (.inr (.execve path argv envp)))
            (runChild s x e p groups uid gid persona) (v.forked .child) t u →
          Awaits Answers (.inr (.inr (.handleParent pid' pty out err ctl)))
            (runParent c s x e pid) (v.forked (.parent pid)) t' u' →
          Paired s pty out err u' u) ∧
      ∀ o tr u, Awaits Answers o
          (finishJob c s (parseX11Env env {}).1 devPtsMounted p groups uid gid persona)
          (World.start fds.table) tr u →
        IsSilent o ∨ ∃ t₁ x e v r t₂,
          tr = t₁ ++ ⟨v, ⟨.inr (.inr .fork), r⟩, v.forked r⟩ :: t₂ ∧
          Exec (· = ·) Answers (makeDescriptors c s (parseX11Env env {}).1 devPtsMounted)
            (World.start fds.table) t₁ (.returned (x, e)) v ∧
          Awaits Answers o (afterFork c s x e p groups uid gid persona r) (v.forked r) t₂ u := by
  have hstd : ∀ n < 3, (t n).isSome = true := by
    rw [sanitizeFds] at hfds
    split_ifs at hfds with hnone
    intro n hn
    have hcases : n = 0 ∨ n = 1 ∨ n = 2 := by omega
    rcases hcases with rfl | rfl | rfl <;> simp_all [Option.isSome_iff_ne_none]
  have hclosed : Refers t (-1) := Or.inl (by decide)
  obtain ⟨fds', hfds', hhygienic⟩ := @sanitizeFds_hygienic _ closing
    { table := t, logFd := logFd } hstd hlog hclosed hclosing
  obtain rfl : fds' = fds := Except.ok.inj (hfds'.symm.trans hfds)
  obtain ⟨extra, hextra, hconsecutive⟩ := hhygienic.consecutive
  have hneg : (-1 : ℤ) < 3 := by decide
  have hchroot : fds'.chrootFd = -1 := hhygienic.chrootFd.low hneg
  have hpacked : (World.start fds'.table).files.Packed (3 + extra) := by
    intro n
    show ((fds'.table n).map _).isSome = true ↔ _
    rw [Option.isSome_map]
    exact hconsecutive n
  have hsetup := makeDescriptors_keeps c s (parseX11Env env {}).1 devPtsMounted hpacked
    (by omega) (by omega) (parseX11Env_method env)
  refine ⟨3 + extra, ?_, ?_, ?_⟩
  · intro n hn hlt
    rcases hhygienic.held n hn ((hconsecutive n).mpr hlt) with hheld | hheld
    · exact hheld
    · omega
  · intro tr x e v hrun
    have hfork : AtFork s x (3 + extra) (World.start fds'.table) v e :=
      (hsetup.exec hrun).2 (x, e) rfl
    have hlow : LowOpen v := by
      intro n hn
      rw [hfork.standard n hn]
      exact (hpacked n).mpr (by omega)
    have hsplit : Split c s x (3 + extra) p groups uid gid persona (World.start fds'.table) v e :=
      split_of_fork hfork hlow
    refine ⟨hsplit, ?_⟩
    intro path argv envp t u pid pid' pty out err ctl t' u' hchild hparent
    exact hsplit.paired hchild hparent
  · intro o tr u hawaits
    exact finishJob_awaits hawaits

/-! A job with the default settings, entered with three standard descriptors, some strays and the
log at 9. -/

private def nextFree (w : World ℕ) : Option ℕ :=
  (List.range 32).find? fun n => (w.files n).isNone

private theorem nextFree_lowest {w : World ℕ} {fd : ℕ} (h : nextFree w = some fd) :
    w.files.Lowest fd := by
  obtain ⟨hnone, -, hopen⟩ := List.find?_range_eq_some.mp h
  refine ⟨Option.isNone_iff_eq_none.mp hnone, ?_⟩
  intro n hn
  have hn := hopen n hn
  simpa [Option.isSome_iff_ne_none] using hn

private def openNext (file : File ℕ) (w : World ℕ) : Option (Option ℕ × World ℕ) :=
  (nextFree w).map fun fd => (some fd, w.opened fd file)

private def openBoth (file file' : File ℕ) (w : World ℕ) :
    Option (Option (ℕ × ℕ) × World ℕ) := do
  let fd ← nextFree w
  let w' := w.opened fd file
  let fd' ← nextFree w'
  return (some (fd, fd'), { w' with files := w'.files.insert fd' file' })

private def closeOpen (fd : ℤ) (w : World ℕ) : Bool × World ℕ :=
  if 0 ≤ fd ∧ (w.files fd.toNat).isSome then
    (true, { w with files := w.files.close fd.toNat })
  else (false, w)

private def copyOpen (oldfd newfd : ℤ) (w : World ℕ) : Option (Bool × World ℕ) :=
  if 0 ≤ oldfd ∧ 0 ≤ newfd ∧ (w.files oldfd.toNat).isSome then
    some (true, { w with files := w.files.dup2 oldfd.toNat newfd.toNat })
  else none

private def ptyNumber (w : World ℕ) : Option (Entry (File ℕ)) → Option (Option UInt32 × World ℕ)
  | some ⟨.ptmx _ num, _⟩ => some (some num, w)
  | _ => none

private def kernelJob (w : World ℕ) : (o : JobCall) → Option (JobCallRes o × World ℕ)
  | .pipe => openBoth (.pipe w.made false) (.pipe w.made true) w
  | .close fd => some (closeOpen fd w)
  | .closeRangeCloexec first => some (true, { w with files := w.files.closeOnExec first })
  | .dup2 oldfd newfd => copyOpen oldfd newfd w
  | .fork => some (.child, w.forked .child)
  | .isatty _ => some (false, w)
  | .umask _ => some ((), w)
  | .chroot _ | .setRlimits | .sigprocmask _ _ | .dflSignalHandler _ => some (true, w)
  | .prctlDumpable | .setgroups _ | .setgid _ | .setuid _ | .setsid | .tiocsctty _ | .nice _
  | .setAffinityNproc _ => some (true, w)
  | _ => none

private def kernelPty (w : World ℕ) : (o : PtyOp) → Option (PtyRes o × World ℕ)
  | .inl (.setfsuid uid) => some (uid, w)
  | .inl (.setfsgid gid) => some (gid, w)
  | .inl (.chdir _) => some (true, w)
  | .inr (.open name _) => openNext (if isPtmx name then .ptmx name 5 else .named name) w
  | .inr (.tiocgptn fd) => ptyNumber w (w.files fd.toNat)
  | .inr (.tiocsptlck _ _) => some (true, w)
  | _ => none

private def kernelUnshare (w : World ℕ) : (o : UnshareCall) → Option (UnshareRes o × World ℕ)
  | .unshare _ => some (.ok, w)
  | .sethostname _ => some (true, w)
  | .socketRtnetlink => openNext .rtnetlink w
  | .ifNametoindex _ => some ((1 : ℕ), w)
  | .sendNewlink _ _ => some (true, w)
  | .close fd => some (closeOpen fd w)
  | .perrorMsg _ => none

private def kernel (w : World ℕ) : (o : JobOp) → Option (JobRes o × World ℕ)
  | .inl o => kernelPty w o
  | .inr (.inl o) => kernelUnshare w o
  | .inr (.inr o) => kernelJob w o

private theorem openNext_answers {w w' : World ℕ} {file : File ℕ} {r : Option ℕ}
    (h : openNext file w = some (r, w')) : Opens w file r w' := by
  obtain ⟨fd, hfree, heq⟩ := Option.map_eq_some_iff.mp h
  obtain ⟨rfl, rfl⟩ := Prod.mk.inj heq
  exact ⟨nextFree_lowest hfree, rfl⟩

private theorem openBoth_answers {w w' : World ℕ} {file file' : File ℕ} {r : Option (ℕ × ℕ)}
    (h : openBoth file file' w = some (r, w')) : OpensTwo w file file' r w' := by
  obtain ⟨fd, hfree, h⟩ := Option.bind_eq_some_iff.mp h
  obtain ⟨fd', hfree', h⟩ := Option.bind_eq_some_iff.mp h
  obtain ⟨rfl, rfl⟩ := Prod.mk.inj (Option.some.inj h)
  exact ⟨nextFree_lowest hfree, nextFree_lowest hfree', rfl⟩

private theorem closeOpen_answers (fd : ℤ) (w : World ℕ) :
    Closes w fd (closeOpen fd w).1 (closeOpen fd w).2 := by
  rw [Closes, closeOpen]
  split_ifs
  · exact ⟨rfl, rfl⟩
  · exact ⟨rfl, rfl⟩

private theorem kernelJob_answers {w w' : World ℕ} {o : JobCall} {r : JobCallRes o}
    (h : kernelJob w o = some (r, w')) : JobAnswers o w r w' := by
  cases o with
  | pipe => exact openBoth_answers h
  | close fd =>
      obtain ⟨rfl, rfl⟩ := Prod.mk.inj (Option.some.inj h)
      exact closeOpen_answers fd w
  | dup2 oldfd newfd =>
      have h : copyOpen oldfd newfd w = some (r, w') := h
      rw [copyOpen] at h
      split_ifs at h with hopen
      obtain ⟨rfl, rfl⟩ := Prod.mk.inj (Option.some.inj h)
      exact ⟨hopen.1, hopen.2.1, hopen.2.2, rfl⟩
  | _ =>
      first
        | (cases h; done)
        | (obtain ⟨rfl, rfl⟩ := Prod.mk.inj (Option.some.inj h); rfl)

private theorem kernelPty_answers {w w' : World ℕ} {o : PtyOp} {r : PtyRes o}
    (h : kernelPty w o = some (r, w')) : PtyAnswers o w r w' := by
  rcases o with o | o
  · cases o <;> first
      | (cases h; done)
      | (obtain ⟨rfl, rfl⟩ := Prod.mk.inj (Option.some.inj h); rfl)
  · cases o with
    | «open» name flags => exact ⟨5, openNext_answers h⟩
    | tiocgptn fd =>
        have h : ptyNumber w (w.files fd.toNat) = some (r, w') := h
        rcases hfile : w.files fd.toNat with _ | ⟨file, flag⟩
        · rw [hfile] at h
          cases h
        · rw [hfile] at h
          cases file with
          | ptmx name num =>
              obtain ⟨rfl, rfl⟩ := Prod.mk.inj (Option.some.inj h)
              refine ⟨rfl, ?_⟩
              intro num' hnum
              obtain rfl := Option.some.inj hnum
              exact ⟨name, _, hfile, rfl⟩
          | _ => cases h
    | tiocsptlck fd lock =>
        obtain ⟨rfl, rfl⟩ := Prod.mk.inj (Option.some.inj h)
        rfl
    | close fd => cases h
    | perrorMsg text => cases h

private theorem kernelUnshare_answers {w w' : World ℕ} {o : UnshareCall} {r : UnshareRes o}
    (h : kernelUnshare w o = some (r, w')) : UnshareAnswers o w r w' := by
  cases o with
  | socketRtnetlink => exact openNext_answers h
  | close fd =>
      obtain ⟨rfl, rfl⟩ := Prod.mk.inj (Option.some.inj h)
      exact closeOpen_answers fd w
  | perrorMsg text => cases h
  | _ =>
      obtain ⟨rfl, rfl⟩ := Prod.mk.inj (Option.some.inj h)
      rfl

private theorem kernel_answers (w : World ℕ) (o : JobOp) (r : JobRes o) (w' : World ℕ)
    (_ : True) (h : kernel w o = some (r, w')) : Answers o w r w' ∧ True := by
  rcases o with o | o | o
  · exact ⟨kernelPty_answers h, trivial⟩
  · exact ⟨kernelUnshare_answers h, trivial⟩
  · exact ⟨kernelJob_answers h, trivial⟩

private def entered : FdTable ℕ := fun n => if n < 10 then some (100 + n) else none

private def caller : Caller :=
  { user := str "user", uid := 500, gid := 500, num := 1, home := str "/home/user" }

private def shell : Program :=
  ⟨[str "/bin/true"], "HOME=/root", "USER=root", "PATH=/sbin:/usr/sbin:/bin:/usr/bin"⟩

private def sanitized : FdTable ℕ :=
  JobService.SanitizeFds.closeRange (entered.put 3 109) 4

private def shellSetup : JobProg (X11 × Ends) :=
  makeDescriptors caller {} (parseX11Env none {}).1 false

/-- The variables of `chrootuid` in this job. -/
private def shellEnds : Ends := ⟨8, 9, (4, 5), (6, 7), (-1, -1)⟩

private def atShellFork : World ℕ := shellSetup.reached kernel (World.start sanitized)

/-- The shell is executed with the standard descriptors of the job and no other ones, and its parent
relays from the other ends of the two pipes. -/
theorem descriptors_inherited_sample : ∃ tr t u t' u',
    Exec (· = ·) Answers shellSetup (World.start sanitized) tr (.returned ({}, shellEnds))
      atShellFork ∧
    Awaits Answers (.inr (.inr (.execve (str "/bin/true") [str "/bin/true"] (shell.env {} {}))))
      (runChild {} {} shellEnds shell [] 600 600 0xffffffff) (atShellFork.forked .child) t u ∧
    Awaits Answers (.inr (.inr (.handleParent 77 8 4 6 (-1))))
      (runParent caller {} {} shellEnds 77) (atShellFork.forked (.parent 77)) t' u' ∧
    Executable {} atShellFork shellEnds u ∧ Paired {} 8 4 6 u' u := by
  have hsetup : (shellSetup.drive kernel (World.start sanitized)).2 =
      .returned ({}, shellEnds) := by
    decide +kernel
  have hchild : ((runChild {} {} shellEnds shell [] 600 600 0xffffffff).drive kernel
      (atShellFork.forked .child)).2 = .before
      (.inr (.inr (.execve (str "/bin/true") [str "/bin/true"] (shell.env {} {})))) := by
    decide +kernel
  have hparent : ((runParent caller {} {} shellEnds 77).drive kernel
      (atShellFork.forked (.parent 77))).2 =
      .before (.inr (.inr (.handleParent 77 8 4 6 (-1)))) := by
    decide +kernel
  obtain ⟨⟨tr, hrun⟩, -⟩ := exec_of_drive id (fun _ => True) kernel_answers trivial hsetup
  obtain ⟨t, u, hprogram⟩ := awaits_of_drive id (fun _ => True) kernel_answers trivial hchild
  obtain ⟨t', u', hrelay⟩ := awaits_of_drive id (fun _ => True) kernel_answers trivial hparent
  have hlog : Refers entered 9 := Or.inr rfl
  have hfds : sanitizeFds .closeRange { table := entered, logFd := 9 } =
      .ok { table := sanitized, logFd := 3 } := rfl
  obtain ⟨k, -, hforks, -⟩ := descriptors_inherited .closeRange entered 9 _ caller {} none false
    shell [] 600 600 0xffffffff hlog trivial hfds
  obtain ⟨hsplit, hpaired⟩ := hforks tr {} shellEnds atShellFork hrun
  exact ⟨tr, t, u, t', u', hrun, hprogram, hrelay, hsplit.program hprogram,
    hpaired _ _ _ t u 77 77 8 4 6 (-1) t' u' hprogram hrelay⟩

end HasherPriv.Chroot.Inheritance
