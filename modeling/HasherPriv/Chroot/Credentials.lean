/- GID: HasherPriv/Chroot/Credentials
   layer: chroot
   source: chdiruid.c, chid.c, pty.c, makedev.c, chrootuid.c
   digest: Every temporary change of credentials is undone before the function returns. -/

import HasherPriv.Chroot.CredentialFloor
import HasherPriv.Chroot.Pty
import HasherPriv.Foundations.Contracts

set_option autoImplicit false
set_option relaxedAutoImplicit false

namespace HasherPriv.Chroot.Credentials

open Foundations.ByteString
open Foundations.Program
open Foundations.Contracts
open Config.CallerData
open Config.FileConfig
open Syscall
open Chdir
open Chdiruid
open Makedev
open Mount
open Killuid
open Chrootuid
open CredentialFloor (jobAnswer sampleFloors configured)
open Mountpoints (SampleWorld sampleStat)
open Pty

/-! The process, as far as the calls change it. -/

theorem mask_mask (m : ℕ) : m &&& 0o777 &&& 0o777 = m &&& 0o777 := by
  rw [Nat.and_assoc, Nat.and_self]

/-- A file mode creation mask has the permission bits only. -/
def Umask : Type := { m : ℕ // m &&& 0o777 = m }

def Umask.of (m : ℕ) : Umask := ⟨m &&& 0o777, mask_mask m⟩

theorem Umask.of_val (m : Umask) : Umask.of m.val = m := Subtype.ext m.property

structure Process (Dir : Type) where
  fsuid : UInt32
  fsgid : UInt32
  groups : List UInt32
  umask : Umask
  cwd : Dir
  root : Dir
  /-- What `fork` has answered so far. -/
  forks : List ForkResult

variable {Dir : Type}

/-- What the helper functions do to the process. -/
abbrev Helpers (Dir : Type) := Helper → Process Dir → Option ℤ → Process Dir → Prop

def Moved (w w' : Process Dir) : Prop := ∃ dir, w' = { w with cwd := dir }

/-- The identities stay. -/
def Quiet (w w' : Process Dir) : Prop :=
  ∃ umask cwd root, w' = { w with umask := umask, cwd := cwd, root := root }

/-- How the calls answer. `setfsuid` and `setfsgid` return the previous value and change it or not;
the last argument of `setreuid`, like that of `setuid`, is the new effective uid, which the file
system uid follows. -/
def Answers (helpers : Helpers Dir) : (o : Sys) → Process Dir → SysRes o → Process Dir → Prop
  | .setfsuid uid, w, r, w' => r = w.fsuid ∧ (w' = { w with fsuid := uid } ∨ w' = w)
  | .setfsgid gid, w, r, w' => r = w.fsgid ∧ (w' = { w with fsgid := gid } ∨ w' = w)
  | .initgroups _ _, w, r, w' => if r then ∃ groups, w' = { w with groups := groups } else w' = w
  | .setgroups groups, w, r, w' => w' = if r then { w with groups := groups } else w
  | .setuid uid, w, r, w' | .setreuid _ uid, w, r, w' =>
      w' = if r then { w with fsuid := uid } else w
  | .setgid gid, w, r, w' => w' = if r then { w with fsgid := gid } else w
  | .umask mask, w, r, w' => r = w.umask.val ∧ w' = { w with umask := .of mask }
  | .chdir name, w, r, w' =>
      if r then ∃ dir, w' = { w with cwd := dir } ∧ (name = str "/" → dir = w.root) else w' = w
  | .fchdir _, w, r, w' => if r then Moved w w' else w' = w
  | .chroot, w, r, w' => w' = if r then { w with root := w.cwd } else w
  | .fork, w, r, w' => w' = { w with forks := w.forks ++ [r] }
  | .helper h, w, r, w' => helpers h w r w'
  | _, w, _, w' => w' = w

def PtyAnswers (helpers : Helpers Dir) :
    (o : PtyOp) → Process Dir → PtyRes o → Process Dir → Prop
  | .inl o, w, r, w' => Answers helpers o w r w'
  | .inr _, w, _, w' => w' = w

theorem Moved.refl (w : Process Dir) : Moved w w := ⟨w.cwd, rfl⟩

theorem Moved.trans {w w₁ w₂ : Process Dir} (h₁ : Moved w w₁) (h₂ : Moved w₁ w₂) :
    Moved w w₂ := by
  obtain ⟨dir₁, rfl⟩ := h₁
  obtain ⟨dir₂, rfl⟩ := h₂
  exact ⟨dir₂, rfl⟩

theorem Moved.groups {w w' : Process Dir} (h : Moved w w') : w'.groups = w.groups := by
  obtain ⟨dir, rfl⟩ := h
  rfl

theorem Moved.quiet {w w' : Process Dir} (h : Moved w w') : Quiet w w' := by
  obtain ⟨dir, rfl⟩ := h
  exact ⟨w.umask, dir, w.root, rfl⟩

theorem Quiet.refl (w : Process Dir) : Quiet w w := ⟨w.umask, w.cwd, w.root, rfl⟩

theorem Quiet.trans {w w₁ w₂ : Process Dir} (h₁ : Quiet w w₁) (h₂ : Quiet w₁ w₂) :
    Quiet w w₂ := by
  obtain ⟨_, _, _, rfl⟩ := h₁
  obtain ⟨umask, cwd, root, rfl⟩ := h₂
  exact ⟨umask, cwd, root, rfl⟩

/-! One change of credentials. -/

section Changes

variable {helpers : Helpers Dir} {w v : Process Dir} {c : Caller}
variable {check : (o : Sys) → Process Dir → SysRes o → Process Dir → Prop}

theorem orDie_keeps {p : SysProg Bool} {why : String} {post : Unit → Process Dir → Prop}
    (h : Ensures (Answers helpers) check p (fun r w' => r = true → post () w') w) :
    Ensures (Answers helpers) check (orDie p why) post w := by
  apply h.bind
  intro r w' hpost
  cases r with
  | true => exact hpost rfl
  | false => trivial

section

variable (hcheck : ∀ o w r w', IsChdiruidCall o → check o w r w')

include hcheck

/-- The second call tells whether the first one took effect, and has none of its own then. -/
theorem chUid_keeps (uid : UInt32) : Ensures (Answers helpers) check (chUid uid)
    (fun save w' => save = w.fsuid ∧ w' = { w with fsuid := uid }) w := by
  rintro save w₁ ⟨rfl, h₁⟩
  refine ⟨hcheck _ _ _ _ trivial, ?_⟩
  rintro r w₂ ⟨rfl, h₂⟩
  refine ⟨hcheck _ _ _ _ trivial, ?_⟩
  show Ensures _ _ (ite _ _ _) _ _
  by_cases huid : w₁.fsuid = uid
  · rw [if_pos huid]
    refine ⟨rfl, ?_⟩
    rcases h₁ with rfl | rfl
    · rcases h₂ with rfl | rfl <;> rfl
    · rcases h₂ with rfl | rfl
      · rfl
      · rw [← huid]
  · rw [if_neg huid]
    trivial

theorem chGid_keeps (gid : UInt32) : Ensures (Answers helpers) check (chGid gid)
    (fun save w' => save = w.fsgid ∧ w' = { w with fsgid := gid }) w := by
  rintro save w₁ ⟨rfl, h₁⟩
  refine ⟨hcheck _ _ _ _ trivial, ?_⟩
  rintro r w₂ ⟨rfl, h₂⟩
  refine ⟨hcheck _ _ _ _ trivial, ?_⟩
  show Ensures _ _ (ite _ _ _) _ _
  by_cases hgid : w₁.fsgid = gid
  · rw [if_pos hgid]
    refine ⟨rfl, ?_⟩
    rcases h₁ with rfl | rfl
    · rcases h₂ with rfl | rfl <;> rfl
    · rcases h₂ with rfl | rfl
      · rfl
      · rw [← hgid]
  · rw [if_neg hgid]
    trivial

end

/-- The process `v` is `w` with the caller's credentials, in any directory. -/
def AsCaller (c : Caller) (groups : List UInt32) (w v : Process Dir) : Prop :=
  ∃ dir, v = { w with fsuid := c.uid, fsgid := c.gid, groups := groups, cwd := dir }

theorem walk_moves {o : Sys} {r : SysRes o} (ho : IsWalkCall o) (h : Answers helpers o w r v) :
    Moved w v := by
  cases o with
  | lstat name =>
      obtain rfl := h
      exact .refl _
  | fstat fd =>
      obtain rfl := h
      exact .refl _
  | getcwd =>
      obtain rfl := h
      exact .refl _
  | chdir name =>
      cases r with
      | true =>
          obtain ⟨dir, hv, -⟩ := h
          exact ⟨dir, hv⟩
      | false =>
          obtain rfl := h
          exact .refl _
  | fchdir fd =>
      cases r with
      | true => exact h
      | false =>
          obtain rfl := h
          exact .refl _
  | _ => exact ho.elim

theorem AsCaller.moved {groups : List UInt32} {v' : Process Dir} (h : AsCaller c groups w v)
    (hmoved : Moved v v') : AsCaller c groups w v' := by
  obtain ⟨dir, rfl⟩ := h
  obtain ⟨dir', rfl⟩ := hmoved
  exact ⟨dir', rfl⟩

variable (hcheck : ∀ o w r w', IsChdiruidCall o → check o w r w')

include hcheck

theorem walk_keeps {α : Type} {p : SysProg α} {groups : List UInt32} (hp : p.Uses IsWalkCall)
    (hv : AsCaller c groups w v) :
    Ensures (Answers helpers) check p (fun _ v' => AsCaller c groups w v') v := by
  refine ensures_of_uses (I := AsCaller c groups w) hp hv ?_
  intro o v r v' ho hv hanswers
  exact ⟨hcheck o v r v' ho.chdiruid, hv.moved (walk_moves ho hanswers)⟩

theorem changeCreds_keeps : Ensures (Answers helpers) check (changeCreds c)
    (fun saved v => saved = (w.fsuid, w.fsgid) ∧ ∃ groups, AsCaller c groups w v) w := by
  refine Ensures.bind (Q := fun _ v => ∃ groups, v = { w with groups := groups }) ?_ ?_
  · apply orDie_keeps
    intro r v hanswers
    refine ⟨hcheck _ _ _ _ trivial, ?_⟩
    rintro rfl
    exact hanswers
  · rintro _ w₁ ⟨groups, rfl⟩
    apply (chGid_keeps hcheck c.gid).bind
    rintro savedGid w₂ ⟨rfl, rfl⟩
    apply (chUid_keeps hcheck c.uid).bind
    rintro savedUid w₃ ⟨rfl, rfl⟩
    exact ⟨rfl, groups, w.cwd, rfl⟩

theorem restoreCreds_keeps {groups : List UInt32} (hw : w.groups = [])
    (hv : AsCaller c groups w v) : Ensures (Answers helpers) check (restoreCreds (w.fsuid, w.fsgid))
      (fun _ w' => Moved w w') v := by
  obtain ⟨dir, rfl⟩ := hv
  apply (chUid_keeps hcheck w.fsuid).bind
  rintro _ w₁ ⟨-, rfl⟩
  apply (chGid_keeps hcheck w.fsgid).bind
  rintro _ w₂ ⟨-, rfl⟩
  apply orDie_keeps
  intro r w' hanswers
  refine ⟨hcheck _ _ _ _ trivial, ?_⟩
  rintro rfl
  refine ⟨dir, ?_⟩
  rw [hanswers, if_pos rfl, hw]

theorem chdiruid_keeps (s : Settings) (validator : Validator) (path : Bytes) (saved : StrtokState)
    (hw : w.groups = []) : Ensures (Answers helpers) check (chdiruid c s validator path saved)
      (fun _ w' => Moved w w') w := by
  apply (changeCreds_keeps hcheck).bind
  rintro _ v₁ ⟨rfl, groups, h₁⟩
  apply (walk_keeps hcheck (chdirElements_walks _ validator path saved) h₁).bind
  intro saved' v₂ h₂
  apply (walk_keeps hcheck (checkCwd_walks s) h₂).bind
  intro _ v₃ h₃
  apply (restoreCreds_keeps hcheck hw h₃).bind
  intro _ w' h'
  exact h'

theorem fchdiruid_keeps (s : Settings) (validator : Validator) (fd : ℤ) (hw : w.groups = []) :
    Ensures (Answers helpers) check (fchdiruid c s validator fd) (fun _ w' => Moved w w') w := by
  rw [fchdiruid]
  by_cases hfd : fd < 0
  · rw [if_pos hfd]
    trivial
  · rw [if_neg hfd]
    apply (changeCreds_keeps hcheck).bind
    rintro _ v₁ ⟨rfl, groups, h₁⟩
    apply (walk_keeps hcheck (safeFchdir_walks _ validator fd) h₁).bind
    intro _ v₂ h₂
    apply (walk_keeps hcheck (checkCwd_walks s) h₂).bind
    intro _ v₃ h₃
    exact restoreCreds_keeps hcheck hw h₃

end Changes

/-! The helper functions leave the identities. -/

def Quiets (helpers : Helpers Dir) : Prop := ∀ h w r w', helpers h w r w' → Quiet w w'

/-- Functions that are known for no more. -/
def plainHelpers : Helpers Dir := fun _ w _ w' => Quiet w w'

theorem plainHelpers_quiet : Quiets (plainHelpers : Helpers Dir) := fun _ _ _ _ h => h

/-! `setup_devices`. -/

section Devices

variable {helpers : Helpers Dir} {w v : Process Dir} {c : Caller}
variable {check : (o : Sys) → Process Dir → SysRes o → Process Dir → Prop}

/-- The calls that leave the identities. -/
def IsQuietCall : Sys → Prop
  | .setfsuid _ | .setfsgid _ | .initgroups _ _ | .setgroups _ => False
  | .setuid _ | .setreuid _ _ | .setgid _ | .fork => False
  | _ => True

theorem quiet_of_answers (hquiet : Quiets helpers) {o : Sys} {r : SysRes o} (ho : IsQuietCall o)
    (h : Answers helpers o w r v) : Quiet w v := by
  cases o with
  | setfsuid uid => exact ho.elim
  | setfsgid gid => exact ho.elim
  | initgroups user gid => exact ho.elim
  | setgroups groups => exact ho.elim
  | setuid uid => exact ho.elim
  | setreuid ruid euid => exact ho.elim
  | setgid gid => exact ho.elim
  | fork => exact ho.elim
  | umask mask =>
      obtain ⟨-, rfl⟩ := h
      exact ⟨.of mask, w.cwd, w.root, rfl⟩
  | chdir name => exact (walk_moves (o := .chdir name) trivial h).quiet
  | fchdir fd => exact (walk_moves (o := .fchdir fd) trivial h).quiet
  | chroot =>
      obtain rfl := h
      cases r with
      | true => exact ⟨w.umask, w.cwd, w.cwd, rfl⟩
      | false => exact .refl w
  | helper name => exact hquiet name w r v h
  | _ =>
      obtain rfl := h
      exact .refl _

/-- What only makes such calls leaves the identities. -/
theorem quiet_keeps {α : Type} {p : SysProg α} (hquiet : Quiets helpers)
    (hp : p.Uses IsQuietCall) (hcheck : ∀ o v r v', Quiet w v → check o v r v') :
    Ensures (Answers helpers) check p (fun _ w' => Quiet w w') w := by
  refine ensures_of_uses (I := Quiet w) hp (.refl w) ?_
  intro o v r v' ho hv hanswers
  exact ⟨hcheck o v r v' hv, hv.trans (quiet_of_answers hquiet ho hanswers)⟩

theorem deviceCall_quiet {o : Sys} (h : IsDeviceCall o) : IsQuietCall o := by
  cases o with
  | mkdir name mode => trivial
  | mknod name mode major minor => trivial
  | symlink target linkpath => trivial
  | stat name => trivial
  | _ => exact h.elim

theorem helper_quiet (h : Helper) : (helper h).Uses IsQuietCall :=
  (helper_setup h).mono fun o ho => by
    cases o with
    | helper h => trivial
    | pipe => trivial
    | socketpair => trivial
    | chroot => trivial
    | _ => exact ho.elim

theorem copyDev_quiet (src : Bytes) : (copyDev src).Uses IsQuietCall := by
  obtain ⟨k, hk, hdevice⟩ := copyDev_enters src
  rw [hk]
  exact ⟨trivial, fun r => (hdevice r).mono fun _ => deviceCall_quiet⟩

/-- The files of `setup_devices`, between the two changes of the mask. -/
def makeDevices (s : Settings) (devPtsMounted : Bool) (vec : List Bytes) : SysProg Unit := do
  setupStandardDevices
  setupConsole s.makedevConsole
  setupPts devPtsMounted
  let _ ← helper .logListen
  .each copyDev vec

theorem makeDevices_quiet (s : Settings) (devPtsMounted : Bool) (vec : List Bytes) :
    (makeDevices s devPtsMounted vec).Uses IsQuietCall := by
  have hdevice {p : SysProg Unit} (hp : p.Uses IsDeviceCall) : p.Uses IsQuietCall :=
    hp.mono fun _ => deviceCall_quiet
  exact (hdevice setupStandardDevices_uses).bind fun _ =>
    (hdevice (setupConsole_uses _)).bind fun _ => (hdevice (setupPts_uses _)).bind fun _ =>
    (helper_quiet .logListen).bind fun _ => .each fun src _ => copyDev_quiet src

theorem setupDevices_eq (c : Caller) (s : Settings) (chrootFd : ℤ) (devPtsMounted : Bool)
    (vec : List Bytes) : setupDevices c s chrootFd devPtsMounted vec = do
      fchdiruid c s .callerOk chrootFd
      let _ ← chdiruid c s .rootOk (str "dev") []
      let savedGid ← chGid 0
      let m ← call (.umask 0)
      makeDevices s devPtsMounted vec
      let _ ← call (.umask m)
      let _ ← chGid savedGid
      return () := by
  unfold setupDevices makeDevices
  simp only [bind_eq_bind, prog_bind_assoc]

/-- The gid that is saved first is the one at entry, as both directory changes are undone then. -/
theorem setupDevices_keeps (hquiet : Quiets helpers)
    (hcheck : ∀ o w r w', IsChdiruidCall o → check o w r w')
    (hroot : ∀ o v r v', v.fsuid = w.fsuid → v.fsgid = 0 → check o v r v')
    (s : Settings) (chrootFd : ℤ) (devPtsMounted : Bool) (vec : List Bytes) (hw : w.groups = []) :
    Ensures (Answers helpers) check (setupDevices c s chrootFd devPtsMounted vec)
      (fun _ w' => Quiet w w' ∧ w'.umask = w.umask) w := by
  rw [setupDevices_eq]
  apply (fchdiruid_keeps hcheck s .callerOk chrootFd hw).bind
  intro _ w₁ h₁
  apply (chdiruid_keeps hcheck s .rootOk (str "dev") [] (h₁.groups.trans hw)).bind
  intro _ w₂ h₂
  obtain ⟨dir, rfl⟩ := h₁.trans h₂
  apply (chGid_keeps hcheck 0).bind
  rintro savedGid w₃ ⟨rfl, rfl⟩
  rintro m w₄ ⟨rfl, rfl⟩
  refine ⟨hroot _ _ _ _ rfl rfl, ?_⟩
  have hmade : ∀ o v r v', Quiet { w with fsgid := 0, umask := .of 0, cwd := dir } v →
      check o v r v' := by
    rintro o v r v' ⟨_, _, _, rfl⟩
    exact hroot o _ r v' rfl rfl
  apply (quiet_keeps hquiet (makeDevices_quiet s devPtsMounted vec) hmade).bind
  rintro _ w₅ ⟨umask, cwd, root, rfl⟩
  rintro _ w₆ ⟨-, rfl⟩
  refine ⟨hroot _ _ _ _ rfl rfl, ?_⟩
  apply (chGid_keeps hcheck w.fsgid).bind
  rintro _ w₇ ⟨-, rfl⟩
  rw [Umask.of_val]
  exact ⟨⟨w.umask, cwd, root, rfl⟩, rfl⟩

end Devices

/-! `open_pty`. -/

section OpenPty

variable {helpers : Helpers Dir} {w v : Process Dir} {c : Caller}

abbrev PtyKeeps {α : Type} (helpers : Helpers Dir) (p : PtyProg α) (post : α → Process Dir → Prop)
    (w : Process Dir) : Prop :=
  Ensures (PtyAnswers helpers) (fun _ _ _ _ => True) p post w

/-- What is ensured of a function is ensured where `open_pty` calls it. -/
theorem inl_keeps {α : Type} {p : SysProg α} {post : α → Process Dir → Prop}
    (h : Ensures (Answers helpers) (fun _ _ _ _ => True) p post w) :
    PtyKeeps helpers p.inl post w := Ensures.inl h

theorem open_moves {o : PtyOp} {r : PtyRes o} (ho : IsOpenCall o) (h : PtyAnswers helpers o w r v) :
    Moved w v := by
  cases o with
  | inr o =>
      obtain rfl := h
      exact .refl _
  | inl o =>
      by_cases hwalk : IsWalkCall o
      · exact walk_moves hwalk h
      · cases o with
        | stat name =>
            obtain rfl := h
            exact .refl _
        | _ => exact absurd ho hwalk

/-- All ways to the label `out` leave the caller's credentials. -/
theorem openAsCaller_keeps {groups : List UInt32} (who : Owners) (devPtsMounted : Bool)
    (chrooted : Chrootedness) (verboseError : Verbosity) (hv : AsCaller c groups w v) :
    PtyKeeps helpers (openAsCaller who devPtsMounted chrooted verboseError)
      (fun _ v' => AsCaller c groups w v') v := by
  refine ensures_of_uses (I := AsCaller c groups w)
    (openAsCaller_uses who devPtsMounted chrooted verboseError) hv ?_
  intro o v r v' ho hv hanswers
  exact ⟨trivial, hv.moved (open_moves ho hanswers)⟩

theorem leaveDev_keeps (chrooted : Chrootedness) : PtyKeeps helpers (leaveDev chrooted)
    (fun _ v' => Moved v v' ∧ (chrooted = .openPtyChrooted → v'.cwd = v.root)) v := by
  cases chrooted with
  | openPtyUnchrooted => exact ⟨.refl v, nofun⟩
  | openPtyChrooted =>
      apply inl_keeps
      apply orDie_keeps
      intro r v' hanswers
      refine ⟨trivial, ?_⟩
      rintro rfl
      obtain ⟨dir, rfl, hdir⟩ := hanswers
      exact ⟨⟨dir, rfl⟩, fun _ => hdir rfl⟩

theorem openPty_keeps (s : Settings) (devPtsMounted : Bool) (chrooted : Chrootedness)
    (verboseError : Verbosity) :
    PtyKeeps helpers (openPty c s devPtsMounted chrooted verboseError)
      (fun _ w' => Moved w w' ∧ (chrooted = .openPtyChrooted → w'.cwd = w.root)) w := by
  apply (inl_keeps (chGid_keeps (fun _ _ _ _ _ => trivial) c.gid)).bind
  rintro savedGid w₁ ⟨rfl, rfl⟩
  apply (inl_keeps (chUid_keeps (fun _ _ _ _ _ => trivial) c.uid)).bind
  rintro savedUid w₂ ⟨rfl, rfl⟩
  have hcaller : AsCaller c w.groups w { w with fsgid := c.gid, fsuid := c.uid } := ⟨w.cwd, rfl⟩
  apply (openAsCaller_keeps (owners c s) devPtsMounted chrooted verboseError hcaller).bind
  rintro fds _ ⟨dir, rfl⟩
  apply (leaveDev_keeps chrooted).bind
  rintro _ _ ⟨⟨dir', rfl⟩, hdir⟩
  apply (inl_keeps (chUid_keeps (fun _ _ _ _ _ => trivial) w.fsuid)).bind
  rintro _ w₃ ⟨-, rfl⟩
  apply (inl_keeps (chGid_keeps (fun _ _ _ _ _ => trivial) w.fsgid)).bind
  rintro _ w₄ ⟨-, rfl⟩
  exact ⟨⟨dir', rfl⟩, hdir⟩

end OpenPty

/-! Any sequence of the four functions. -/

/-- A call of one of the functions that change credentials for a while. -/
inductive TemporaryChange
  | chdiruid (validator : Validator) (path : Bytes) (saved : StrtokState)
  | fchdiruid (validator : Validator) (fd : ℤ)
  | openPty (chrooted : Chrootedness) (verboseError : Verbosity)
  | setupDevices (chrootFd : ℤ) (vec : List Bytes)

def TemporaryChange.run (c : Caller) (s : Settings) (devPtsMounted : Bool) :
    TemporaryChange → PtyProg Unit
  | .chdiruid validator path saved => do
      let _ ← (Chdiruid.chdiruid c s validator path saved).inl
      return ()
  | .fchdiruid validator fd => (Chdiruid.fchdiruid c s validator fd).inl
  | .openPty chrooted verboseError => do
      let _ ← Pty.openPty c s devPtsMounted chrooted verboseError
      return ()
  | .setupDevices chrootFd vec => (Makedev.setupDevices c s chrootFd devPtsMounted vec).inl

/-- What some of them say of the rest of the process. -/
def TemporaryChange.Leaves : TemporaryChange → Process Dir → Process Dir → Prop
  | .setupDevices _ _, w, w' => w'.umask = w.umask
  | .openPty .openPtyChrooted _, w, w' => w'.cwd = w.root ∧ w'.root = w.root
  | _, _, _ => True

/-- The identities are those of the other process, with no supplementary groups. -/
structure SameIds (w w' : Process Dir) : Prop where
  fsuid : w'.fsuid = w.fsuid
  fsgid : w'.fsgid = w.fsgid
  groups : w'.groups = []

/-- The calls in any order. Between them everything but the identities may change. -/
inductive Reached (start : Process Dir) : Process Dir → Prop
  | start : Reached start start
  | change {c : Caller} {s : Settings} {devPtsMounted : Bool} {x : TemporaryChange}
      {w w' : Process Dir} {tr : List (Step (Process Dir) PtyRes)} (h : Reached start w)
      (hrun : Exec (· = ·) (PtyAnswers plainHelpers) (x.run c s devPtsMounted) w tr
        (.returned ()) w') : Reached start w'
  | others {w w' : Process Dir} (h : Reached start w) (hfsuid : w'.fsuid = w.fsuid)
      (hfsgid : w'.fsgid = w.fsgid) (hgroups : w'.groups = w.groups) : Reached start w'

section Sequences

variable {start w w' : Process Dir}

theorem Quiet.sameIds (h : Quiet w w') (hw : w.groups = []) : SameIds w w' := by
  obtain ⟨_, _, _, rfl⟩ := h
  exact ⟨rfl, rfl, hw⟩

theorem change_keeps (c : Caller) (s : Settings) (devPtsMounted : Bool) (x : TemporaryChange)
    (hw : w.groups = []) : PtyKeeps plainHelpers (x.run c s devPtsMounted)
      (fun _ w' => SameIds w w' ∧ x.Leaves w w') w := by
  cases x with
  | chdiruid validator path saved =>
      apply (inl_keeps (chdiruid_keeps (fun _ _ _ _ _ => trivial) s validator path saved hw)).bind
      intro _ w' h
      exact ⟨h.quiet.sameIds hw, trivial⟩
  | fchdiruid validator fd =>
      apply (inl_keeps (fchdiruid_keeps (fun _ _ _ _ _ => trivial) s validator fd hw)).mono
      intro _ w' h
      exact ⟨h.quiet.sameIds hw, trivial⟩
  | openPty chrooted verboseError =>
      apply (openPty_keeps s devPtsMounted chrooted verboseError).bind
      rintro fds w' ⟨⟨dir, rfl⟩, hdir⟩
      refine ⟨⟨rfl, rfl, hw⟩, ?_⟩
      cases chrooted with
      | openPtyUnchrooted => trivial
      | openPtyChrooted => exact ⟨hdir rfl, rfl⟩
  | setupDevices chrootFd vec =>
      apply (inl_keeps (setupDevices_keeps plainHelpers_quiet (fun _ _ _ _ _ => trivial)
        (fun _ _ _ _ _ _ => trivial) s chrootFd devPtsMounted vec hw)).mono
      rintro _ w' ⟨hquiet, humask⟩
      exact ⟨hquiet.sameIds hw, humask⟩

theorem change_exec {c : Caller} {s : Settings} {devPtsMounted : Bool} {x : TemporaryChange}
    {tr : List (Step (Process Dir) PtyRes)} (hw : w.groups = [])
    (hrun : Exec (· = ·) (PtyAnswers plainHelpers) (x.run c s devPtsMounted) w tr
      (.returned ()) w') : SameIds w w' ∧ x.Leaves w w' :=
  ((change_keeps c s devPtsMounted x hw).exec hrun).2 () rfl

theorem reached_sameIds (hstart : start.groups = []) (h : Reached start w) : SameIds start w := by
  induction h with
  | start => exact ⟨rfl, rfl, hstart⟩
  | change h hrun ih =>
      obtain ⟨hsame, -⟩ := change_exec ih.groups hrun
      exact ⟨hsame.fsuid.trans ih.fsuid, hsame.fsgid.trans ih.fsgid, hsame.groups⟩
  | others h hfsuid hfsgid hgroups ih =>
      exact ⟨hfsuid.trans ih.fsuid, hfsgid.trans ih.fsgid, hgroups.trans ih.groups⟩

end Sequences

/-! `chrootuid`, up to its fork. -/

/-- The functions of the session: `open_pty` is the one above. -/
def sessionHelpers (c : Caller) (s : Settings) : Helpers Dir
  | .openPty, w, r, w' => (r = none ∧ w' = w) ∨
      ∃ devPtsMounted chrooted verboseError fds tr, r = some fds.1 ∧
        Exec (· = ·) (PtyAnswers plainHelpers) (openPty c s devPtsMounted chrooted verboseError)
          w tr (.returned fds) w'
  | _, w, _, w' => Quiet w w'

theorem sessionHelpers_quiet (c : Caller) (s : Settings) :
    Quiets (sessionHelpers c s : Helpers Dir) := by
  intro h w r w' hanswers
  cases h with
  | openPty =>
      rcases hanswers with ⟨-, rfl⟩ | ⟨devPtsMounted, chrooted, verboseError, fds, tr, -, hrun⟩
      · exact .refl _
      · have hkeeps := (openPty_keeps s devPtsMounted chrooted verboseError).exec hrun
        exact (hkeeps.2 fds rfl).1.quiet
  | _ => exact hanswers

/-- Only the child that is waited for has been made, and this process is not the child. -/
def BeforeFork (w : Process Dir) : Prop := w.forks.length ≤ 1 ∧ ForkResult.child ∉ w.forks

/-- Up to the fork all calls but those of a change of directory as the caller are made as root. -/
def MadeAsRoot (o : Sys) (w : Process Dir) (_ : SysRes o) (_ : Process Dir) : Prop :=
  BeforeFork w → ¬ IsChdiruidCall o → w.fsuid = 0 ∧ w.fsgid = 0

structure Rooted (w : Process Dir) : Prop where
  fsuid : w.fsuid = 0
  fsgid : w.fsgid = 0
  groups : w.groups = []
  forked : w.forks ≠ []

section Chrootuid

variable {helpers : Helpers Dir} {w v : Process Dir} {c : Caller} {α β : Type}

theorem Quiet.rooted (h : Quiet w v) (hw : Rooted w) : Rooted v := by
  obtain ⟨_, _, _, rfl⟩ := h
  exact ⟨hw.fsuid, hw.fsgid, hw.groups, hw.forked⟩

theorem chdiruidCall_asRoot (o : Sys) (w : Process Dir) (r : SysRes o) (w' : Process Dir)
    (h : IsChdiruidCall o) : MadeAsRoot o w r w' := fun _ hnot => absurd h hnot

theorem Rooted.made (hw : Rooted w) (o : Sys) (r : SysRes o) (w' : Process Dir) :
    MadeAsRoot o w r w' := fun _ _ => ⟨hw.fsuid, hw.fsgid⟩

abbrev Stays (helpers : Helpers Dir) (p : SysProg α) : Prop :=
  ∀ w, Rooted w → Ensures (Answers helpers) MadeAsRoot p (fun _ w' => Rooted w') w

theorem Stays.bind {p : SysProg α} {f : α → SysProg β} (hp : Stays helpers p)
    (hf : ∀ a, Stays helpers (f a)) : Stays helpers (p.bind f) :=
  fun w hw => (hp w hw).bind fun a w' hw' => hf a w' hw'

theorem stays_ret (a : α) : Stays helpers (.ret a) := fun _ hw => hw

theorem stays_of_quiet {p : SysProg α} (hquiet : Quiets helpers) (hp : p.Uses IsQuietCall) :
    Stays helpers p := by
  intro w hw
  have hmade : ∀ o v r v', Quiet w v → MadeAsRoot o v r v' :=
    fun o v r v' hv => (hv.rooted hw).made o r v'
  apply (quiet_keeps hquiet hp hmade).mono
  intro _ w' hw'
  exact hw'.rooted hw

theorem chdiruid_stays (s : Settings) (validator : Validator) (path : Bytes)
    (saved : StrtokState) : Stays helpers (chdiruid c s validator path saved) := by
  intro w hw
  apply (chdiruid_keeps chdiruidCall_asRoot s validator path saved hw.groups).mono
  intro _ w' h
  exact h.quiet.rooted hw

theorem fchdiruid_stays (s : Settings) (validator : Validator) (fd : ℤ) :
    Stays helpers (fchdiruid c s validator fd) := by
  intro w hw
  apply (fchdiruid_keeps chdiruidCall_asRoot s validator fd hw.groups).mono
  intro _ w' h
  exact h.quiet.rooted hw

theorem setupDevices_stays (hquiet : Quiets helpers) (s : Settings) (chrootFd : ℤ)
    (devPtsMounted : Bool) (vec : List Bytes) :
    Stays helpers (setupDevices c s chrootFd devPtsMounted vec) := by
  intro w hw
  have hroot : ∀ (o : Sys) (v : Process Dir) (r : SysRes o) v', v.fsuid = w.fsuid → v.fsgid = 0 →
      MadeAsRoot o v r v' := by
    intro o v r v' hfsuid hfsgid _ _
    exact ⟨hfsuid.trans hw.fsuid, hfsgid⟩
  apply (setupDevices_keeps hquiet chdiruidCall_asRoot hroot s chrootFd devPtsMounted vec
    hw.groups).mono
  rintro _ w' ⟨h, -⟩
  exact h.rooted hw

theorem obtainGroups_keeps (user : Bytes) (gid : UInt32) (hfsuid : w.fsuid = 0)
    (hfsgid : w.fsgid = 0) (hforked : w.forks ≠ []) :
    Ensures (Answers helpers) MadeAsRoot (obtainGroups user gid) (fun _ w' => Rooted w') w := by
  have hdrop (list groups : List UInt32) : Ensures (Answers helpers) MadeAsRoot
      ((orDie (call (.setgroups [])) "setgroups").bind fun _ => .ret list)
      (fun _ w' => Rooted w') { w with groups := groups } := by
    refine Ensures.bind (Q := fun _ w' => Rooted w') ?_ fun _ w' hw' => hw'
    apply orDie_keeps
    intro r w' hanswers
    refine ⟨chdiruidCall_asRoot _ _ _ _ trivial, ?_⟩
    rintro rfl
    obtain rfl := hanswers
    exact ⟨hfsuid, hfsgid, rfl, hforked⟩
  refine Ensures.bind (Q := fun _ v => ∃ groups, v = { w with groups := groups }) ?_ ?_
  · apply orDie_keeps
    intro r v hanswers
    refine ⟨chdiruidCall_asRoot _ _ _ _ trivial, ?_⟩
    rintro rfl
    exact hanswers
  · rintro _ _ ⟨groups, rfl⟩ answer w₁ hsame
    refine ⟨fun _ _ => ⟨hfsuid, hfsgid⟩, ?_⟩
    obtain rfl := hsame
    rcases answer with _ | _ | ⟨g, list⟩
    · trivial
    · exact hdrop [] groups
    · intro answer w₂ hsame
      refine ⟨fun _ _ => ⟨hfsuid, hfsgid⟩, ?_⟩
      obtain rfl := hsame
      cases answer with
      | none => trivial
      | some list => exact hdrop list groups

variable (hquiet : Quiets helpers)

include hquiet

theorem call_stays (o : Sys) (ho : IsQuietCall o) : Stays helpers (call o) :=
  stays_of_quiet hquiet (uses_op ho)

theorem helper_stays (h : Helper) : Stays helpers (helper h) :=
  stays_of_quiet hquiet (helper_quiet h)

/-! `setup_mountpoints`. -/

theorem setupFstab_stays (s : Settings) : Stays helpers (setupFstab c s) := by
  have hchdir (path : Bytes) : (safeChdir (owners c s) .rootOk path []).Uses IsQuietCall := by
    refine (safeChdir_uses (owners c s) .rootOk path []).mono fun o ho => ?_
    cases o with
    | lstat name => trivial
    | chdir name => trivial
    | _ => exact ho.elim
  have hload : (loadConfig (owners c s) (str "fstab") fun fd => call (.getmntents fd)).Uses
      IsQuietCall := by
    refine loadConfig_uses _ _ (fun o ho => ?_) fun fd => uses_op trivial
    cases o with
    | openFile name => trivial
    | fstat fd => trivial
    | fdopen fd => trivial
    | fclose fd => trivial
    | _ => exact ho.elim
  apply stays_of_quiet hquiet
  exact (hchdir _).bind fun _ => (hchdir _).bind fun _ => hload.bind fun _ =>
    (hchdir _).bind fun _ => trivial

theorem xmount_stays (s : Settings) (chrootFd : ℤ) (e : MntEnt) :
    Stays helpers (xmount c s chrootFd e) := by
  have hopts (opts : List Bytes) : (parseOpts opts (msMgcVal ||| msNosuid) none).Uses
      IsQuietCall := by
    refine (parseOpts_uses opts _ _).mono ?_
    rintro o ⟨name, rfl⟩
    trivial
  apply (call_stays hquiet (.enter (.xmount e.dir)) trivial).bind
  intro _
  show Stays helpers (ite _ _ _)
  by_cases hdir : e.dir.head? ≠ some slash
  · rw [if_pos hdir]
    intro w hw
    trivial
  · rw [if_neg hdir]
    apply (stays_of_quiet hquiet (hopts _)).bind
    intro r
    apply (fchdiruid_stays s .callerOk chrootFd).bind
    intro _
    apply (chdiruid_stays s _ (e.dir.drop 1) []).bind
    intro _
    apply (call_stays hquiet (.mount e.fsname (str ".") (some e.type) r.1
      (some (r.2.getD []))) trivial).bind
    intro answer w hw
    cases answer with
    | ok => exact hw
    | expected => trivial
    | failed => trivial

theorem mountPoint_stays (s : Settings) (chrootFd : ℤ) (varFstab : List MntEnt) (mpoint : Bytes) :
    Stays helpers (mountPoint c s chrootFd varFstab mpoint) := by
  intro w hw
  rw [mountPoint]
  cases lookupMountEntry varFstab mpoint with
  | error why => trivial
  | ok e => exact xmount_stays hquiet s chrootFd e w hw

theorem mountAll_stays (s : Settings) (chrootFd : ℤ) (r : Requested) :
    Stays helpers (mountAll c s chrootFd r) := by
  have hmounts : Stays helpers (do
      let varFstab ← setupFstab c s
      mountPoint c s chrootFd varFstab (str "/dev")
      setupDevices c s chrootFd r.devPtsMounted r.devVec
      mountPoint c s chrootFd varFstab (str "/dev/shm")
      .each (mountPoint c s chrootFd varFstab) r.mpointVec) := by
    apply (setupFstab_stays hquiet s).bind
    intro varFstab
    apply (mountPoint_stays hquiet s chrootFd varFstab (str "/dev")).bind
    intro _
    apply (setupDevices_stays hquiet s chrootFd r.devPtsMounted r.devVec).bind
    intro _
    apply (mountPoint_stays hquiet s chrootFd varFstab (str "/dev/shm")).bind
    intro _ w hw
    apply Ensures.each _ hw
    intro mpoint _ w hw
    exact mountPoint_stays hquiet s chrootFd varFstab mpoint w hw
  apply (call_stays hquiet (.mount (str "/") (str "/") none (msSlave ||| msRec) none) trivial).bind
  intro answer
  cases answer with
  | ok => exact hmounts
  | expected => exact hmounts
  | failed =>
      intro w hw
      trivial

theorem setupMountpoints_stays (s : Settings) (chrootFd : ℤ) :
    Stays helpers (setupMountpoints c s chrootFd) := by
  intro w hw
  rw [setupMountpoints]
  cases sortItems s (s.requestedMountpoints.slots.take s.requestedMountpoints.len) {} with
  | error why => trivial
  | ok r => exact (mountAll_stays hquiet s chrootFd r).bind (fun _ => stays_ret _) w hw

theorem reopenChroot_stays (s : Settings) (chrootFd : ℤ) :
    Stays helpers (reopenChroot c s chrootFd) := by
  apply (fchdiruid_stays s .callerOk chrootFd).bind
  intro _
  apply (helper_stays hquiet .unshareMount).bind
  intro _
  apply (call_stays hquiet .openDot trivial).bind
  intro fd w hw
  cases fd with
  | none => trivial
  | some fd => exact hw

theorem enterChroot_stays (x : X11) (s : Settings) : Stays helpers (enterChroot x s) := by
  apply stays_of_quiet hquiet
  refine (enterChroot_uses x s).mono fun o ho => ?_
  cases o with
  | helper h => trivial
  | pipe => trivial
  | socketpair => trivial
  | chroot => trivial
  | _ => exact ho.elim

/-! The forks. -/

theorem forks_of_answers {o : Sys} {r : SysRes o} (h : Answers helpers o w r v) :
    ∃ l, v.forks = w.forks ++ l := by
  have hsame : v.forks = w.forks → ∃ l, v.forks = w.forks ++ l := by
    intro heq
    exact ⟨[], by rw [heq, List.append_nil]⟩
  by_cases ho : IsQuietCall o
  · obtain ⟨_, _, _, rfl⟩ := quiet_of_answers hquiet ho h
    exact hsame rfl
  · cases o with
    | setfsuid uid =>
        rcases h with ⟨-, rfl | rfl⟩ <;> exact hsame rfl
    | setfsgid gid =>
        rcases h with ⟨-, rfl | rfl⟩ <;> exact hsame rfl
    | initgroups user gid =>
        cases r with
        | true =>
            obtain ⟨groups, rfl⟩ := h
            exact hsame rfl
        | false =>
            obtain rfl := h
            exact hsame rfl
    | setgroups groups =>
        obtain rfl := h
        cases r <;> exact hsame rfl
    | setuid uid =>
        obtain rfl := h
        cases r <;> exact hsame rfl
    | setreuid ruid euid =>
        obtain rfl := h
        cases r <;> exact hsame rfl
    | setgid gid =>
        obtain rfl := h
        cases r <;> exact hsame rfl
    | fork =>
        obtain rfl := h
        exact ⟨[r], rfl⟩
    | _ => exact absurd trivial ho

theorem not_beforeFork {o : Sys} {r : SysRes o} (hw : ¬ BeforeFork w)
    (h : Answers helpers o w r v) : ¬ BeforeFork v := by
  rintro ⟨hlength, hchild⟩
  obtain ⟨l, hl⟩ := forks_of_answers hquiet h
  rw [hl, List.length_append] at hlength
  rw [hl] at hchild
  exact hw ⟨by omega, fun hmem => hchild (List.mem_append_left l hmem)⟩

/-- After the fork nothing is said. -/
theorem forked_keeps (p : SysProg α) (hw : ¬ BeforeFork w) :
    Ensures (Answers helpers) MadeAsRoot p (fun _ w' => ¬ BeforeFork w') w := by
  refine ensures_of_uses (P := fun _ => True) (uses_true p) hw ?_
  intro o v r v' _ hv hanswers
  exact ⟨fun hbefore => absurd hbefore hv, not_beforeFork hquiet hv hanswers⟩

/-- The process that waits for its child goes on as root. -/
theorem spawnKilluid_keeps (f : Floors) (s : Settings) (hfsuid : w.fsuid = 0)
    (hfsgid : w.fsgid = 0) : Ensures (Answers helpers) MadeAsRoot (spawnKilluid f s)
      (fun _ w' => BeforeFork w' → w'.fsuid = 0 ∧ w'.fsgid = 0 ∧ w'.forks ≠ []) w := by
  intro r w₁ hanswers
  refine ⟨fun _ _ => ⟨hfsuid, hfsgid⟩, ?_⟩
  obtain rfl := hanswers
  cases r with
  | failed => trivial
  | child =>
      have hchild : ¬ BeforeFork { w with forks := w.forks ++ [.child] } := by
        rintro ⟨-, hnot⟩
        exact hnot (List.mem_append_right _ List.mem_cons_self)
      apply (forked_keeps hquiet _ hchild).mono
      intro _ w₂ hnot hbefore
      exact absurd hbefore hnot
  | parent pid =>
      intro status w₂ hwait
      refine ⟨fun _ _ => ⟨hfsuid, hfsgid⟩, ?_⟩
      obtain rfl := hwait
      have hforked : w.forks ++ [.parent pid] ≠ [] :=
        List.append_ne_nil_of_right_ne_nil _ (List.cons_ne_nil _ _)
      rcases status with _ | ⟨rc⟩ | ⟨signo⟩ | _
      · trivial
      · show Ensures _ _ (ite _ _ _) _ _
        by_cases hrc : rc = 0
        · rw [if_pos hrc]
          exact fun _ => ⟨hfsuid, hfsgid, hforked⟩
        · rw [if_neg hrc]
          trivial
      · trivial
      · trivial

/-- The second fork: nothing is said of either process. -/
theorem secondFork_keeps {k : ForkResult → SysProg α} (hw : Rooted w) :
    Ensures (Answers helpers) MadeAsRoot ((call .fork).bind k) (fun _ _ => True) w := by
  intro r v hanswers
  refine ⟨hw.made _ _ _, ?_⟩
  obtain rfl := hanswers
  have hforked : ¬ BeforeFork { w with forks := w.forks ++ [r] } := by
    rintro ⟨hlength, -⟩
    have hpositive := List.length_pos_of_ne_nil hw.forked
    rw [List.length_append, List.length_singleton] at hlength
    omega
  exact (forked_keeps hquiet (k r) hforked).mono fun _ _ _ => trivial

theorem chrootuid_keeps (f : Floors) (s : Settings) (x : X11) (chrootFd : ℤ) (p : Program)
    (uid gid persona : UInt32) (userName : Bytes) (hfsuid : w.fsuid = 0) (hfsgid : w.fsgid = 0) :
    Ensures (Answers helpers) MadeAsRoot (chrootuid f c s x chrootFd p uid gid persona userName)
      (fun _ _ => True) w := by
  apply (spawnKilluid_keeps hquiet f s hfsuid hfsgid).bind
  intro _ w₁ hwaited
  by_cases hbefore : BeforeFork w₁
  · obtain ⟨hfsuid₁, hfsgid₁, hforked⟩ := hwaited hbefore
    apply (obtainGroups_keeps userName gid hfsuid₁ hfsgid₁ hforked).bind
    intro groups w₂ h₂
    apply (helper_stays hquiet .setupNs w₂ h₂).bind
    intro _ w₃ h₃
    apply (reopenChroot_stays hquiet s chrootFd w₃ h₃).bind
    intro chrootFd w₄ h₄
    apply (setupMountpoints_stays hquiet s chrootFd w₄ h₄).bind
    intro _ w₅ h₅
    apply (fchdiruid_stays s .callerOk chrootFd w₅ h₅).bind
    intro _ w₆ h₆
    apply (enterChroot_stays hquiet x s w₆ h₆).bind
    intro _ w₇ h₇
    exact secondFork_keeps hquiet h₇
  · exact (forked_keeps hquiet _ hbefore).mono fun _ _ _ => trivial

end Chrootuid

/-- Temporary changes of credentials are undone. For every sequence of calls of `chdiruid`,
`fchdiruid`, `open_pty` and `setup_devices` with no supplementary groups at its start: a call that
returns leaves the identities as it found them, and no groups; `setup_devices` leaves the mask and
`open_pty` in the chroot the root directory. In a run of `chrootuid` that starts as root every call
up to the fork is made as root but for those of the changes themselves. -/
theorem temporary_changes_undone :
    (∀ start w : Process Dir, start.groups = [] → Reached start w →
      SameIds start w ∧
      ∀ c s devPtsMounted (x : TemporaryChange) tr w',
        Exec (· = ·) (PtyAnswers plainHelpers) (x.run c s devPtsMounted) w tr (.returned ()) w' →
          SameIds w w' ∧ x.Leaves w w') ∧
    ∀ (f : Floors) (c : Caller) (s : Settings) (x : X11) (chrootFd : ℤ) (p : Program)
      (uid gid persona : UInt32) (userName : Bytes) (w w' : Process Dir) tr out,
      w.fsuid = 0 → w.fsgid = 0 →
      Exec (· = ·) (Answers (sessionHelpers c s))
        (chrootuid f c s x chrootFd p uid gid persona userName) w tr out w' →
      ∀ e ∈ tr, BeforeFork e.before → ¬ IsChdiruidCall e.event.1 →
        e.before.fsuid = 0 ∧ e.before.fsgid = 0 := by
  constructor
  · intro start w hstart hreached
    have hsame := reached_sameIds hstart hreached
    refine ⟨hsame, ?_⟩
    intro c s devPtsMounted x tr w' hrun
    exact change_exec hsame.groups hrun
  · intro f c s x chrootFd p uid gid persona userName w w' tr out hfsuid hfsgid hrun e he
    have hkeeps := chrootuid_keeps (c := c) (sessionHelpers_quiet c s) f s x chrootFd p uid gid
      persona userName hfsuid hfsgid
    exact (hkeeps.exec hrun).1 e he

/-! `open_pty` in a chroot, `setup_devices` with a device of the host, and a job past its fork. -/

private def sampleStart : Process Unit where
  fsuid := 0
  fsgid := 0
  groups := []
  umask := .of 0o22
  cwd := ()
  root := ()
  forks := []

private def sampleCaller : Caller := ⟨str "u", str "/home/u", 500, 501, 0⟩

private abbrev Machine : Type := (SampleWorld × Bool) × Process Unit

/-- What the calls answer; all of them succeed. -/
private def sampleResult (m : Machine) : (o : Sys) → Option (SysRes o × SampleWorld × Bool)
  | .setfsuid _ => some (m.2.fsuid, m.1)
  | .setfsgid _ => some (m.2.fsgid, m.1)
  | .umask _ => some (m.2.umask.val, m.1)
  | .fork => some (.parent 77, m.1)
  | .stat _ => some (some { sampleStat 0 with mode := 0o020666 }, m.1)
  | .helper .openPty => if m.2.fsuid = 0 ∧ m.2.fsgid = 0 then some (some 3, m.1) else none
  | o => jobAnswer .child m.1 o

private def sampleAfter (w : Process Unit) : Sys → Process Unit
  | .setfsuid uid | .setuid uid | .setreuid _ uid => { w with fsuid := uid }
  | .setfsgid gid | .setgid gid => { w with fsgid := gid }
  | .initgroups _ gid => { w with groups := [gid] }
  | .setgroups groups => { w with groups := groups }
  | .umask mask => { w with umask := .of mask }
  | .fork => { w with forks := w.forks ++ [.parent 77] }
  | _ => w

private def processAnswer (m : Machine) (o : Sys) : Option (SysRes o × Machine) :=
  (sampleResult m o).map fun r => (r.1, r.2, sampleAfter m.2 o)

private theorem processAnswer_answers {helpers : Helpers Unit}
    (hhelper : ∀ h w r, (h = .openPty → r = some 3 ∧ w.fsuid = 0 ∧ w.fsgid = 0) → helpers h w r w)
    {m m' : Machine} {o : Sys} {r : SysRes o} (h : processAnswer m o = some (r, m')) :
    Answers helpers o m.2 r m'.2 := by
  obtain ⟨⟨_, _⟩, hresult, heq⟩ := Option.map_eq_some_iff.mp h
  obtain ⟨rfl, rfl⟩ := Prod.mk.inj heq
  cases o with
  | setfsuid uid =>
      cases hresult
      exact ⟨rfl, Or.inl rfl⟩
  | setfsgid gid =>
      cases hresult
      exact ⟨rfl, Or.inl rfl⟩
  | initgroups user gid =>
      cases hresult
      exact ⟨[gid], rfl⟩
  | umask mask =>
      cases hresult
      exact ⟨rfl, rfl⟩
  | chdir name =>
      cases hresult
      exact ⟨(), rfl, fun _ => rfl⟩
  | fchdir fd =>
      cases hresult
      exact ⟨(), rfl⟩
  | helper name =>
      apply hhelper
      rintro rfl
      change (if _ then _ else _) = _ at hresult
      split_ifs at hresult with hroot
      cases hresult
      exact ⟨rfl, hroot⟩
  | setgroups groups =>
      cases hresult
      rfl
  | setuid uid =>
      cases hresult
      rfl
  | setreuid ruid euid =>
      cases hresult
      rfl
  | setgid gid =>
      cases hresult
      rfl
  | fork =>
      cases hresult
      rfl
  | chroot =>
      cases hresult
      rfl
  | _ => rfl

private def ptyAnswer (m : Machine) : (o : PtyOp) → Option (PtyRes o × Machine)
  | .inl o => processAnswer m o
  | .inr (.open name _) => some (some (if name = str "/dev/ptmx" then 3 else 4), m)
  | .inr (.tiocgptn _) => some (some 7, m)
  | .inr (.tiocsptlck _ _) | .inr (.close _) => some (true, m)
  | .inr (.perrorMsg _) => some ((), m)

private theorem ptyAnswer_answers {m m' : Machine} {o : PtyOp} {r : PtyRes o}
    (h : ptyAnswer m o = some (r, m')) : PtyAnswers plainHelpers o m.2 r m'.2 := by
  cases o with
  | inl o => exact processAnswer_answers (fun _ w _ _ => .refl w) h
  | inr o =>
      cases o with
      | _ =>
          cases h
          rfl

/-- A run of the machine is a run of the process. -/
private theorem exec_of_ptyAnswer {α : Type} {p : PtyProg α} {m : Machine} {a : α}
    (h : (p.drive ptyAnswer m).2 = .returned a) :
    ∃ tr, Exec (· = ·) (PtyAnswers plainHelpers) p m.2 tr (.returned a)
      (p.reached ptyAnswer m).2 :=
  (exec_of_drive Prod.snd (fun _ => True) (fun _ _ _ _ _ h => ⟨ptyAnswer_answers h, trivial⟩)
    trivial h).1

/-- The pty of the job, opened in any process that runs as root. -/
private theorem sample_openPty (w : Process Unit) (hfsuid : w.fsuid = 0) (hfsgid : w.fsgid = 0) :
    ∃ tr, Exec (· = ·) (PtyAnswers plainHelpers)
      (openPty sampleCaller configured false .openPtyUnchrooted .openPtySilent) w tr
        (.returned (3, 4)) w := by
  obtain ⟨fsuid, fsgid, groups, umask, cwd, root, forks⟩ := w
  obtain rfl : fsuid = 0 := hfsuid
  obtain rfl : fsgid = 0 := hfsgid
  exact exec_of_ptyAnswer (m := (({}, false), ⟨0, 0, groups, umask, cwd, root, forks⟩)) rfl

private theorem sample_sessionHelpers (h : Helper) (w : Process Unit) (r : Option ℤ)
    (hopen : h = .openPty → r = some 3 ∧ w.fsuid = 0 ∧ w.fsgid = 0) :
    sessionHelpers sampleCaller configured h w r w := by
  cases h with
  | openPty =>
      obtain ⟨rfl, hfsuid, hfsgid⟩ := hopen rfl
      obtain ⟨tr, hrun⟩ := sample_openPty w hfsuid hfsgid
      exact Or.inr ⟨false, .openPtyUnchrooted, .openPtySilent, (3, 4), tr, rfl, hrun⟩
  | _ => exact .refl w

private def sampleChroot : TemporaryChange := .openPty .openPtyChrooted .openPtySilent

private def sampleDevices : TemporaryChange := .setupDevices 9 [str "/dev/kvm"]

private def sampleJob : SysProg ℤ :=
  chrootuid sampleFloors sampleCaller configured {} 9 ⟨[str "/bin/true"], "", "", ""⟩ 600 600
    0xffffffff (str "rooter")

theorem temporary_changes_undone_sample :
    (∀ x ∈ [sampleChroot, sampleDevices], ∃ tr w',
      Exec (· = ·) (PtyAnswers plainHelpers) (x.run sampleCaller configured true) sampleStart tr
        (.returned ()) w' ∧ SameIds sampleStart w' ∧ x.Leaves sampleStart w') ∧
    ∃ tr w', Exec (· = ·) (Answers (sessionHelpers sampleCaller configured)) sampleJob sampleStart
      tr (.returned 0) w' ∧ w'.forks = [.parent 77, .parent 77] ∧
      ∀ e ∈ tr, BeforeFork e.before → ¬ IsChdiruidCall e.event.1 →
        e.before.fsuid = 0 ∧ e.before.fsgid = 0 := by
  constructor
  · have hruns : ∀ x ∈ [sampleChroot, sampleDevices],
        ((x.run sampleCaller configured true).drive ptyAnswer (({ dev := 0 }, false), sampleStart)).2 =
          .returned () := by decide
    intro x hx
    obtain ⟨tr, hrun⟩ := exec_of_ptyAnswer (hruns x hx)
    exact ⟨tr, _, hrun, (temporary_changes_undone.1 sampleStart sampleStart rfl .start).2
      sampleCaller configured true x tr _ hrun⟩
  · have hstop : (sampleJob.drive processAnswer (({}, false), sampleStart)).2 = .returned 0 := by
      decide
    obtain ⟨⟨tr, hrun⟩, -⟩ := exec_of_drive Prod.snd (fun _ => True) (fun _ _ _ _ _ h =>
      ⟨processAnswer_answers sample_sessionHelpers h, trivial⟩)
      trivial hstop
    refine ⟨tr, _, hrun, ?_, ?_⟩
    · decide
    · exact temporary_changes_undone.2 _ _ _ _ _ _ _ _ _ _ _ _ tr _ rfl rfl hrun

end HasherPriv.Chroot.Credentials
