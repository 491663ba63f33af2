/- GID: HasherPriv/Chroot/CredentialFloor
   layer: chroot
   source: caller_config.c, killuid.c, spawn_killuid.c, chrootuid.c
   digest: The users that the chrootuid jobs can become and whose processes are killed. -/

import HasherPriv.Chroot.Chrootuid
import HasherPriv.Chroot.Mountpoints
import HasherPriv.Config.CallerConfig

set_option autoImplicit false
set_option relaxedAutoImplicit false

namespace HasherPriv.Chroot.CredentialFloor

open Foundations.ByteString
open Foundations.Program
open Config.CallerData
open Config.CallerConfig
open Syscall
open Chdiruid
open Mount
open Notable
open Mountpoints (SampleWorld sampleCaller sampleStat sampleAnswer)
open Killuid
open Chrootuid

/-! What `configure_caller` has checked. -/

structure CheckedUser (f : Floors) (c : Caller) (uid gid : UInt32) : Prop where
  validUid : f.validUid uid
  validGid : f.validGid gid
  uidNotCaller : uid ≠ c.uid
  gidNotCaller : gid ≠ c.gid

structure Checked (f : Floors) (c : Caller) (s : Settings) : Prop where
  user1 : CheckedUser f c s.changeUid1 s.changeGid1
  user2 : CheckedUser f c s.changeUid2 s.changeGid2
  uids : s.changeUid1 ≠ s.changeUid2
  gids : s.changeGid1 ≠ s.changeGid2

theorem checkUser_returned {f : Floors} {c : Caller} {userName : Option Bytes} {name : String}
    {tr : List (Event SysRes)} {uid gid : UInt32}
    (h : Runs (checkUser f c userName name) tr (.returned (uid, gid))) :
    CheckedUser f c uid gid := by
  rcases userName with _ | _ | ⟨b, user⟩
  · exact (returns_die h).elim
  · exact (returns_die h).elim
  · obtain ⟨pw, rest, -, h⟩ := returns_op_bind.mp h
    rcases pw with _ | pw
    · exact (returns_die h).elim
    · change Runs (ite _ _ _) _ _ at h
      split_ifs at h with _ _ huid hgid _ hcuid hcgid
      all_goals first
        | exact (returns_die h).elim
        | skip
      obtain ⟨-, hpair⟩ := returns_ret.mp h
      obtain ⟨rfl, rfl⟩ := Prod.mk.inj hpair
      refine ⟨?_, ?_, Ne.symm hcuid, Ne.symm hcgid⟩
      · simpa using huid
      · simpa using hgid

theorem checkUsers_returned {f : Floors} {c : Caller} {s t : Settings}
    {tr : List (Event SysRes)} (h : Runs (checkUsers f c s) tr (.returned t)) :
    Checked f c t := by
  obtain ⟨⟨uid1, gid1⟩, t₁, t₂, -, h₁, h⟩ := returns_bind.mp h
  obtain ⟨⟨uid2, gid2⟩, t₃, t₄, -, h₂, h⟩ := returns_bind.mp h
  change Runs (ite _ _ _) _ _ at h
  split_ifs at h with _ huids hgids
  all_goals first
    | exact (returns_die h).elim
    | skip
  obtain ⟨-, rfl⟩ := returns_ret.mp h
  exact ⟨checkUser_returned h₁, checkUser_returned h₂, huids, hgids⟩

theorem configureCaller_returned {f : Floors} {c : Caller} {s t : Settings}
    {tr : List (Event SysRes)} (h : Runs (configureCaller f c s) tr (.returned t)) :
    Checked f c t := by
  obtain ⟨_, _, _, -, -, h⟩ := returns_bind.mp h
  obtain ⟨_, _, _, -, -, h⟩ := returns_bind.mp h
  obtain ⟨_, _, _, -, -, h⟩ := returns_bind.mp h
  obtain ⟨_, _, _, -, -, h⟩ := returns_bind.mp h
  obtain ⟨_, _, _, -, -, h⟩ := returns_bind.mp h
  obtain ⟨_, _, _, -, -, h⟩ := returns_bind.mp h
  obtain ⟨_, _, _, -, -, h⟩ := returns_bind.mp h
  exact checkUsers_returned h

/-- The environment of a job has no say in who its users are. -/
theorem parseEnv_users {env : Option (List Bytes)} {s t : Settings}
    (h : parseEnv env s = .ok t) :
    t.changeUid1 = s.changeUid1 ∧ t.changeUid2 = s.changeUid2 ∧
      t.changeGid1 = s.changeGid1 ∧ t.changeGid2 = s.changeGid2 := by
  rcases env with _ | env
  · obtain rfl := Except.ok.inj h
    exact ⟨rfl, rfl, rfl, rfl⟩
  · obtain ⟨timeElapsed, -, h⟩ := bind_eq_ok h
    obtain ⟨timeIdle, -, h⟩ := bind_eq_ok h
    obtain ⟨bytesWritten, -, h⟩ := bind_eq_ok h
    obtain ⟨makedevConsole, -, h⟩ := bind_eq_ok h
    obtain ⟨usePty, -, h⟩ := bind_eq_ok h
    obtain ⟨shareIpc, -, h⟩ := bind_eq_ok h
    obtain ⟨shareNetwork, -, h⟩ := bind_eq_ok h
    obtain ⟨shareUts, -, h⟩ := bind_eq_ok h
    obtain rfl := Except.ok.inj h
    dsimp only
    split <;> exact ⟨rfl, rfl, rfl, rfl⟩

theorem Checked.parseEnv {f : Floors} {c : Caller} {env : Option (List Bytes)} {s t : Settings}
    (hs : Checked f c s) (h : parseEnv env s = .ok t) : Checked f c t := by
  obtain ⟨huid1, huid2, hgid1, hgid2⟩ := parseEnv_users h
  obtain ⟨h₁, h₂, h₃, h₄⟩ := hs
  rw [← huid1, ← hgid1] at h₁
  rw [← huid2, ← hgid2] at h₂
  rw [← huid1, ← huid2] at h₃
  rw [← hgid1, ← hgid2] at h₄
  exact ⟨h₁, h₂, h₃, h₄⟩

/-! What the processes can rely on. -/

def ChangesUid : Sys → Prop
  | .setuid _ | .setreuid _ _ => True
  | _ => False

/-- The server runs as root: until it changes its uid `getuid` answers 0. -/
def RunsAsRoot (tr : List (Event SysRes)) : Prop :=
  ∀ before uid after, tr = before ++ ⟨.getuid, uid⟩ :: after →
    (∀ e ∈ before, ¬ ChangesUid e.1) → uid = 0

/-- `fork` and `waitpid`: a child starts where its parent forked, and is reported to have
exited with status 0 only if it has called `exit (0)`. -/
def WaitsFor {α : Type} (p : SysProg α) (tr : List (Event SysRes)) : Prop :=
  ∀ before pid meanwhile after,
    tr = before ++ ⟨.fork, .parent pid⟩ :: meanwhile ++ ⟨.waitpid pid, some (.exited 0)⟩ :: after →
    ∃ child, Arrives (.exit 0) p (before ++ ⟨.fork, .child⟩ :: child) ∧
      RunsAsRoot (before ++ ⟨.fork, .child⟩ :: child)

/-! `do_killuid`. -/

/-- The uids that `do_killuid` goes on with. -/
structure Killable (f : Floors) (s : Settings) (u : UInt32) : Prop where
  valid1 : f.validUid s.changeUid1
  valid2 : f.validUid s.changeUid2
  differs1 : s.changeUid1 ≠ u
  differs2 : s.changeUid2 ≠ u

private theorem killable_of_checks {f : Floors} {s : Settings} {u : UInt32}
    (h₁ : ¬ (¬ f.validUid s.changeUid1 = true ∨ s.changeUid1 = u))
    (h₂ : ¬ (¬ f.validUid s.changeUid2 = true ∨ s.changeUid2 = u)) : Killable f s u := by
  rw [not_or, not_not] at h₁ h₂
  exact ⟨h₁.1, h₂.1, h₁.2, h₂.2⟩

/-- Whatever `do_killuid` gets to behind its first call, it has checked the uids. -/
theorem killable_of_arrives {f : Floors} {s : Settings} {o : Sys} (ho : o ≠ .getuid)
    {tr : List (Event SysRes)} (h : Arrives o (doKilluid f s) tr) :
    ∃ u rest, tr = ⟨.getuid, u⟩ :: rest ∧ Killable f s u := by
  rcases arrives_call.mp h with ⟨-, hgetuid⟩ | ⟨u, rest, rfl, hrest⟩
  · exact (ho hgetuid).elim
  · change Arrives o (ite _ _ _) rest at hrest
    split_ifs at hrest with h₁ h₂
    · cases hrest
    · cases hrest
    · exact ⟨u, rest, rfl, killable_of_checks h₁ h₂⟩

theorem killable_of_returned {f : Floors} {s : Settings} {tr : List (Event SysRes)} {a : Unit}
    (h : Runs (doKilluid f s) tr (.returned a)) :
    ∃ u rest, tr = ⟨.getuid, u⟩ :: rest ∧ Killable f s u := by
  obtain ⟨u, rest, rfl, hrest⟩ := returns_op_bind.mp h
  change Runs (ite _ _ _) rest _ at hrest
  split_ifs at hrest with h₁ h₂
  · exact (returns_die hrest).elim
  · exact (returns_die hrest).elim
  · exact ⟨u, rest, rfl, killable_of_checks h₁ h₂⟩

/-- The calls of `do_killuid`. -/
def KilluidCall : Sys → Prop
  | .getuid | .prctlDumpable | .setreuid _ _ | .kill _ _ | .helper _ => True
  | _ => False

private theorem helper_uses {P : Sys → Prop} {h : Helper} (hp : P (.helper h)) :
    (helper h).Uses P := by
  refine ⟨hp, fun rc => ?_⟩
  cases rc <;> trivial

theorem doKilluid_uses (f : Floors) (s : Settings) : (doKilluid f s).Uses KilluidCall := by
  have hcall (o : Sys) (h : KilluidCall o) : (call o).Uses KilluidCall := ⟨h, fun _ => trivial⟩
  refine ⟨trivial, fun u => ?_⟩
  change Prog.Uses _ (ite _ _ _)
  split_ifs
  · trivial
  · trivial
  · refine (helper_uses trivial).bind fun _ => ?_
    refine (orDie_uses (hcall .prctlDumpable trivial) _).bind fun _ => ?_
    refine (orDie_uses (hcall (.setreuid _ _) trivial) _).bind fun _ => ?_
    refine (orDie_uses (hcall (.kill _ _) trivial) _).bind fun _ => ?_
    refine (helper_uses trivial).bind fun _ => ?_
    refine (orDie_uses (hcall (.setreuid _ _) trivial) _).bind fun _ => ?_
    exact (helper_uses trivial).bind fun _ => trivial

/-! `spawn_killuid`. -/

/-- It returns only to a parent whose child has exited with status 0. -/
theorem spawnKilluid_returned {f : Floors} {s : Settings} {tr : List (Event SysRes)} {a : Unit}
    (h : Runs (spawnKilluid f s) tr (.returned a)) :
    ∃ pid, tr = [⟨.fork, .parent pid⟩, ⟨.waitpid pid, some (.exited 0)⟩] := by
  obtain ⟨r, rest, rfl, hfork⟩ := returns_op_bind.mp h
  cases r with
  | failed => exact (returns_die hfork).elim
  | child =>
      obtain ⟨_, _, _, -, -, hexit⟩ := returns_bind.mp hfork
      obtain ⟨never, -⟩ := returns_op_bind.mp hexit
      exact nomatch never
  | parent pid =>
      obtain ⟨status, rest, rfl, hwait⟩ := returns_op_bind.mp hfork
      rcases status with _ | ⟨rc⟩ | ⟨signo⟩ | _
      · exact (returns_die hwait).elim
      · change Runs (ite _ _ _) rest _ at hwait
        split_ifs at hwait with hrc
        · subst hrc
          obtain ⟨rfl, -⟩ := returns_ret.mp hwait
          exact ⟨pid, rfl⟩
        · exact (returns_die hwait).elim
      · exact (returns_die hwait).elim
      · exact (returns_die hwait).elim

/-- Its child exits with status 0 only after `do_killuid` has returned. -/
theorem spawnKilluid_exits {f : Floors} {s : Settings} {child : List (Event SysRes)}
    (h : Arrives (.exit 0) (spawnKilluid f s) (⟨.fork, .child⟩ :: child)) :
    ∃ u rest, child = ⟨.getuid, u⟩ :: rest ∧ Killable f s u := by
  rcases arrives_call.mp h with ⟨hnil, -⟩ | ⟨r, rest, hcons, hchild⟩
  · cases hnil
  · cases hcons
    change Arrives _ (Prog.bind (doKilluid f s) _) _ at hchild
    rcases arrives_bind hchild with hkill | ⟨_, t₁, t₂, rfl, h₁, -⟩
    · have hexit : KilluidCall (.exit 0) := hkill.uses (doKilluid_uses f s)
      cases hexit
    · obtain ⟨u, rest, rfl, hk⟩ := killable_of_returned h₁
      exact ⟨u, rest ++ t₂, rfl, hk⟩

/-! `chrootuid`. -/

private theorem plain_of_quiet {α : Type} {p : SysProg α} (h : p.Uses Quiet) : p.Uses Plain :=
  h.mono fun _ hq => Quiet.plain hq

private theorem obtainGroups_quiet (user : Bytes) (gid : UInt32) :
    (obtainGroups user gid).Uses Quiet := by
  refine (orDie_uses (call_quiet (.initgroups user gid) rfl) _).bind fun _ =>
    ⟨rfl, fun groups => ?_⟩
  have hdrop (groups : List UInt32) :
      ((orDie (call (.setgroups [])) "setgroups").bind fun _ =>
        (Prog.ret groups : SysProg (List UInt32))).Uses Quiet :=
    (orDie_uses (call_quiet (.setgroups []) rfl) _).bind fun _ => uses_ret _ groups
  rcases groups with _ | _ | ⟨g, groups⟩
  · trivial
  · exact hdrop []
  · refine ⟨rfl, fun groups => ?_⟩
    rcases groups with _ | groups
    · trivial
    · exact hdrop groups

private theorem reopenChroot_quiet (c : Caller) (s : Settings) (chrootFd : ℤ) :
    (reopenChroot c s chrootFd).Uses Quiet := by
  refine (fchdiruid_quiet _ _ _ _).bind fun _ => (helper_quiet .unshareMount).bind fun _ =>
    ⟨rfl, fun fd => ?_⟩
  rcases fd with _ | fd <;> trivial

private theorem enterChroot_quiet (x : X11) (s : Settings) : (enterChroot x s).Uses Quiet := by
  refine (enterChroot_uses x s).mono fun o ho => ?_
  cases o <;> first | rfl | exact ho.elim

/-- The only uid that the child of the second fork sets is the one of the job. -/
private theorem becomeChild_uses (x : X11) (s : Settings) (p : Program) (groups : List UInt32)
    (uid gid persona : UInt32) :
    (becomeChild x s p groups uid gid persona).Uses fun o => ∀ u, o = .setuid u → u = uid := by
  have hcall (o : Sys) (h : ∀ u, o = .setuid u → u = uid) :
      (call o).Uses fun o => ∀ u, o = .setuid u → u = uid := ⟨h, fun _ => trivial⟩
  have hsetup : ∀ o, IsSetupCall o → ∀ u, o = .setuid u → u = uid := by
    rintro o ho u rfl
    exact ho.elim
  have hpersonality : (setPersonality persona).Uses fun o => ∀ u, o = .setuid u → u = uid := by
    rw [setPersonality]
    split_ifs
    · trivial
    · refine ⟨by simp, fun r => ?_⟩
      cases r
      · exact orDie_uses (hcall (.personality persona) (by simp)) _
      · trivial
  refine ((helper_setup .closeEnds).mono hsetup).bind fun _ =>
    ((unshareNetworkIf_uses _).mono hsetup).bind fun _ =>
    (orDie_uses (hcall .prctlDumpable (by simp)) _).bind fun _ =>
    (hcall (.setgroups groups) (by simp)).bind fun _ =>
    (orDie_uses (hcall (.setgid gid) (by simp)) _).bind fun _ =>
    (orDie_uses (hcall (.setuid uid) fun u hu => (Sys.setuid.inj hu).symm) _).bind fun _ =>
    hpersonality.bind fun _ => ⟨by simp, fun never => never.elim⟩

/-- The parent of the second fork does not fork again. -/
private theorem becomeParent_uses (c : Caller) : (becomeParent c).Uses fun o => o ≠ .fork := by
  have hcall (o : Sys) (h : o ≠ .fork) : (call o).Uses fun o => o ≠ .fork :=
    ⟨h, fun _ => trivial⟩
  exact (helper_uses nofun).bind fun _ =>
    (orDie_uses (hcall .prctlDumpable nofun) _).bind fun _ =>
    (orDie_uses (hcall (.setgid c.gid) nofun) _).bind fun _ =>
    (orDie_uses (hcall (.setuid c.uid) nofun) _).bind fun _ => helper_uses nofun

/-- In this run a child of a fork has set its uid. -/
def SetsUid (u : UInt32) (tr : List (Event SysRes)) : Prop :=
  ∃ before after, tr = before ++ ⟨.setuid u, true⟩ :: after ∧ ⟨.fork, .child⟩ ∈ before

private theorem SetsUid.mem {u : UInt32} {tr : List (Event SysRes)} (h : SetsUid u tr) :
    ⟨.setuid u, true⟩ ∈ tr ∧ ⟨.fork, .child⟩ ∈ tr := by
  obtain ⟨before, after, rfl, hfork⟩ := h
  exact ⟨by simp, List.mem_append_left _ hfork⟩

private theorem SetsUid.drop {u : UInt32} {t₁ t₂ : List (Event SysRes)}
    (h : SetsUid u (t₁ ++ t₂)) (hset : ⟨.setuid u, true⟩ ∉ t₁) (hfork : ⟨.fork, .child⟩ ∉ t₁) :
    SetsUid u t₂ := by
  obtain ⟨before, after, heq, hmem⟩ := h
  rcases List.append_eq_append_iff.mp heq with ⟨rest, rfl, hrest⟩ | ⟨rest, rfl, hrest⟩
  · rcases List.mem_append.mp hmem with h | h
    · exact (hfork h).elim
    · exact ⟨rest, after, hrest, h⟩
  · cases rest with
    | nil => exact (hfork (by simpa using hmem)).elim
    | cons e rest =>
        obtain rfl := (List.cons.inj hrest).1
        exact (hset (by simp)).elim

/-- What is plain comes before the child that sets its uid. -/
private theorem SetsUid.after_plain {α β : Type} {u : UInt32} {p : SysProg α}
    {f : α → SysProg β} {tr : List (Event SysRes)} {out : Outcome β} (hp : p.Uses Plain)
    (h : Runs (p.bind f) tr out) (hu : SetsUid u tr) :
    ∃ a t, Runs (f a) t out ∧ SetsUid u t := by
  have hset : ¬ Plain (.setuid u) := fun hplain => by
    obtain ⟨f, hf⟩ := hplain _ rfl
    cases hf
  have hfork : ¬ Plain .fork := fun hplain => by
    obtain ⟨f, hf⟩ := hplain _ rfl
    cases hf
  rcases runs_bind h with ⟨a, t₁, t₂, rfl, h₁, h₂⟩ | ⟨_, hd, -⟩ | ⟨hc, -⟩
  · exact ⟨a, t₂, h₂, hu.drop (fun he => hset (h₁.uses hp _ he)) fun he => hfork (h₁.uses hp _ he)⟩
  · exact (hset (hd.uses hp _ hu.mem.1)).elim
  · exact (hset (hc.uses hp _ hu.mem.1)).elim

private theorem spawnKilluid_sets (f : Floors) (s : Settings) :
    (spawnKilluid f s).Uses fun o => ∀ u, o ≠ .setuid u := by
  refine ⟨nofun, fun r => ?_⟩
  cases r with
  | failed => trivial
  | child =>
      change Prog.Uses _ (Prog.bind (doKilluid f s) _)
      refine Prog.Uses.bind ((doKilluid_uses f s).mono fun o ho u hu => ?_) fun _ =>
        ⟨nofun, fun never => nomatch never⟩
      subst hu
      cases ho
  | parent pid =>
      refine ⟨nofun, fun status => ?_⟩
      rcases status with _ | ⟨rc⟩ | ⟨signo⟩ | _
      · trivial
      · change Prog.Uses _ (ite _ _ _)
        split_ifs <;> trivial
      · trivial
      · trivial

/-- A child that sets its uid sets the one of the job, and the first thing its parent did was
to wait for a `do_killuid` that went well. -/
theorem setsUid_chrootuid {f : Floors} {c : Caller} {s : Settings} {x : X11} {chrootFd : ℤ}
    {p : Program} {uid gid persona : UInt32} {userName : Bytes} {tr : List (Event SysRes)}
    {out : Outcome ℤ} {u : UInt32}
    (h : Runs (chrootuid f c s x chrootFd p uid gid persona userName) tr out)
    (hu : SetsUid u tr) :
    u = uid ∧ ∃ pid rest,
      tr = ⟨.fork, .parent pid⟩ :: ⟨.waitpid pid, some (.exited 0)⟩ :: rest := by
  rcases runs_bind h with ⟨_, t₁, t₂, rfl, h₁, h₂⟩ | ⟨_, hd, -⟩ | ⟨hc, -⟩
  · obtain ⟨pid, rfl⟩ := spawnKilluid_returned h₁
    refine ⟨?_, pid, t₂, rfl⟩
    have hu₂ : SetsUid u t₂ := hu.drop (by simp) (by simp)
    obtain ⟨groups, t₃, h₃, hu₃⟩ :=
      hu₂.after_plain (plain_of_quiet (obtainGroups_quiet userName gid)) h₂
    obtain ⟨_, t₄, h₄, hu₄⟩ := hu₃.after_plain (plain_of_quiet (helper_quiet .setupNs)) h₃
    obtain ⟨fd, t₅, h₅, hu₅⟩ :=
      hu₄.after_plain (plain_of_quiet (reopenChroot_quiet c s chrootFd)) h₄
    obtain ⟨_, t₆, h₆, hu₆⟩ := hu₅.after_plain (setupMountpoints_plain c s fd) h₅
    obtain ⟨_, t₇, h₇, hu₇⟩ := hu₆.after_plain (plain_of_quiet (fchdiruid_quiet _ _ _ _)) h₆
    obtain ⟨_, t₈, h₈, hu₈⟩ := hu₇.after_plain (plain_of_quiet (enterChroot_quiet x s)) h₇
    rcases runs_call.mp h₈ with ⟨rfl, -⟩ | ⟨r, rest, rfl, hfork⟩
    · exact absurd hu₈.mem.1 (by simp)
    · cases r with
      | failed =>
          have hnil : rest = [] := by cases hfork <;> rfl
          subst hnil
          exact absurd hu₈.mem.1 (by simp)
      | parent pid =>
          have hchild : (⟨.fork, .child⟩ : Event SysRes) ∈ rest := by simpa using hu₈.mem.2
          exact (hfork.uses (becomeParent_uses c) _ hchild rfl).elim
      | child =>
          have hset : (⟨.setuid u, true⟩ : Event SysRes) ∈ rest := by simpa using hu₈.mem.1
          exact hfork.uses (becomeChild_uses x s p groups uid gid persona) _ hset u rfl
  · exact (hd.uses (spawnKilluid_sets f s) _ hu.mem.1 u rfl).elim
  · exact (hc.uses (spawnKilluid_sets f s) _ hu.mem.1 u rfl).elim

/-- The killed child of that wait has found the uids different from root's. -/
theorem killable_of_setsUid {f : Floors} {c : Caller} {s : Settings} {x : X11} {chrootFd : ℤ}
    {p : Program} {uid gid persona : UInt32} {userName : Bytes} {tr : List (Event SysRes)}
    {out : Outcome ℤ} {u : UInt32}
    (h : Runs (chrootuid f c s x chrootFd p uid gid persona userName) tr out)
    (hwait : WaitsFor (chrootuid f c s x chrootFd p uid gid persona userName) tr)
    (hu : SetsUid u tr) : Killable f s 0 := by
  obtain ⟨-, pid, rest, rfl⟩ := setsUid_chrootuid h hu
  obtain ⟨child, hexit, hroot⟩ := hwait [] pid [] rest rfl
  change Arrives _ (Prog.bind (spawnKilluid f s) _) _ at hexit
  rcases arrives_bind hexit with hexit | ⟨_, t₁, t₂, heq, h₁, -⟩
  · obtain ⟨v, rest', rfl, hk⟩ := spawnKilluid_exits hexit
    have hv : v = 0 := hroot [⟨.fork, .child⟩] v rest' rfl (by simp [ChangesUid])
    rwa [hv] at hk
  · obtain ⟨pid', rfl⟩ := spawnKilluid_returned h₁
    cases heq

/-! The theorem. -/

/-- A uid that is neither root's nor the caller's, and not below the floor. -/
structure SafeUid (f : Floors) (c : Caller) (uid : UInt32) : Prop where
  notRoot : uid ≠ 0
  notCaller : uid ≠ c.uid
  floor : 0 ≤ f.minUid → f.minUid.toInt ≤ uid.toNat

/-- In every run of the job the child that sets its uid has safe credentials. -/
def SafeChild (f : Floors) (c : Caller) (s : Settings) (job : SysProg ℤ) (uid gid : UInt32) :
    Prop :=
  ∀ tr out, Runs job tr out → WaitsFor job tr → ∀ u, SetsUid u tr →
    u = uid ∧ SafeUid f c uid ∧ s.changeUid1 ≠ s.changeUid2 ∧
      gid ≠ c.gid ∧ s.changeGid1 ≠ s.changeGid2 ∧ (0 ≤ f.minGid → f.minGid.toInt ≤ gid.toNat)

private theorem CheckedUser.safeUid {f : Floors} {c : Caller} {uid gid : UInt32}
    (h : CheckedUser f c uid gid) (hroot : uid ≠ 0) : SafeUid f c uid :=
  ⟨hroot, h.uidNotCaller, le_of_validId h.validUid⟩

/-- For every caller, every configuration that is accepted and every environment of a job: the
programs of the two `chrootuid` jobs have safe credentials, and `do_killuid` kills the processes
of safe users only. -/
theorem credential_floor {f : Floors} {c : Caller} {s₀ s t : Settings}
    {tr₀ : List (Event SysRes)} {env : Option (List Bytes)}
    (hconf : Runs (configureCaller f c s₀) tr₀ (.returned s)) (henv : parseEnv env s = .ok t) :
    (∀ x chrootFd argv persona,
      SafeChild f c t (doChrootuid1 f c t x chrootFd argv persona) t.changeUid1 t.changeGid1 ∧
      SafeChild f c t (doChrootuid2 f c t x chrootFd argv persona) t.changeUid2 t.changeGid2) ∧
    ∀ tr, Arrives (.kill (-1) sigkill) (doKilluid f t) tr → RunsAsRoot tr →
      SafeUid f c t.changeUid1 ∧ SafeUid f c t.changeUid2 ∧ t.changeUid1 ≠ t.changeUid2 := by
  have hc : Checked f c t := (configureCaller_returned hconf).parseEnv henv
  refine ⟨fun x chrootFd argv persona => ⟨?_, ?_⟩, ?_⟩
  · intro tr out h hwait u hu
    have hk := killable_of_setsUid h hwait hu
    exact ⟨(setsUid_chrootuid h hu).1, hc.user1.safeUid hk.differs1, hc.uids,
      hc.user1.gidNotCaller, hc.gids, le_of_validId hc.user1.validGid⟩
  · intro tr out h hwait u hu
    have hk := killable_of_setsUid h hwait hu
    exact ⟨(setsUid_chrootuid h hu).1, hc.user2.safeUid hk.differs2, hc.uids,
      hc.user2.gidNotCaller, hc.gids, le_of_validId hc.user2.validGid⟩
  · intro tr h hroot
    obtain ⟨u, rest, rfl, hk⟩ := killable_of_arrives (o := .kill (-1) sigkill) nofun h
    have hu : u = 0 := hroot [] u rest rfl (by simp)
    subst hu
    exact ⟨hc.user1.safeUid hk.differs1, hc.user2.safeUid hk.differs2, hc.uids⟩

/-! A configuration without floors, a job, and the child that was killed for it. -/

/-- A machine whose configuration files name two users. -/
def configAnswer : Unit → (o : Sys) → Option (SysRes o × Unit)
  | _, .lstat _ => some (some (sampleStat 0), ())
  | _, .chdir _ => some (true, ())
  | _, .access _ => some (true, ())
  | _, .openFile name => some (some (if name = str "system" then 3 else 4), ())
  | _, .fstat _ => some (some { sampleStat 0 with mode := 0o100644 }, ())
  | _, .fdopen _ | _, .fclose _ => some (true, ())
  | _, .fgetsAll fd =>
      some ((if fd = 4 then [str "user1 = rooter\n", str "user2=builder\n"] else [], false), ())
  | _, .getpwnam name =>
      let uid := if name = str "rooter" then 600 else 601
      some (some ⟨some name, uid, uid⟩, ())
  | _, _ => none

/-- A machine whose first fork is answered to the parent or to the child. -/
def jobAnswer (first : ForkResult) (w : SampleWorld × Bool) :
    (o : Sys) → Option (SysRes o × SampleWorld × Bool)
  | .fork => some (if w.2 then .child else first, w.1, true)
  | .waitpid _ => some (some (.exited 0), w)
  | .getuid => some (0, w)
  | .getgroups => some (some [], w)
  | .openDot => some (some 9, w)
  | .pipe | .socketpair | .chroot | .personality _ | .prctlDumpable | .setgid _ | .setuid _
  | .setreuid _ _ | .kill _ _ => some (true, w)
  | o => (sampleAnswer w.1 o).map fun r => (r.1, r.2, w.2)

def sampleFloors : Floors := ⟨-1, -1⟩

/-- What is made of the configuration. -/
def configured : Settings :=
  { changeUser1 := some (str "rooter"), changeUid1 := 600, changeGid1 := 600
    changeUser2 := some (str "builder"), changeUid2 := 601, changeGid2 := 601 }

def sampleJob : SysProg ℤ :=
  doChrootuid1 sampleFloors sampleCaller configured {} 9 [str "/bin/true"] 0xffffffff

private def sampleTrace : List (Event SysRes) :=
  (sampleJob.drive (jobAnswer (.parent 77)) ({}, false)).1

private def childTrace : List (Event SysRes) :=
  (sampleJob.drive (jobAnswer .child) ({}, false)).1

private theorem sample_runs : Runs sampleJob sampleTrace .running := by
  have hstop : (sampleJob.drive (jobAnswer (.parent 77)) ({}, false)).2 =
      .before (.handleChild [str "/bin/true"] (Program.env ⟨[], "HOME=/root", "USER=root",
        "PATH=/sbin:/usr/sbin:/bin:/usr/bin"⟩ {} configured)) := by decide
  exact (Prog.arrives_of_drive hstop).runs

/-- The events of the two kinds that the laws are about, and no other ones of these calls. -/
private def expected : Event SysRes → Bool
  | ⟨.fork, .parent _⟩ => false
  | ⟨.getuid, uid⟩ => uid = 0
  | _ => true

private def isFork (r : ForkResult) : Event SysRes → Bool
  | ⟨.fork, r'⟩ => r' = r
  | _ => false

private def isSetuid (uid : UInt32) : Event SysRes → Bool
  | ⟨.setuid uid', ok⟩ => uid' = uid && ok
  | _ => false

private theorem eq_fork {r : ForkResult} {e : Event SysRes} (h : isFork r e = true) :
    e = ⟨.fork, r⟩ := by
  obtain ⟨o, r'⟩ := e
  cases o <;> first | cases h | (obtain rfl : r' = r := by simpa [isFork] using h); rfl

private theorem eq_setuid {uid : UInt32} {e : Event SysRes} (h : isSetuid uid e = true) :
    e = ⟨.setuid uid, true⟩ := by
  obtain ⟨o, ok⟩ := e
  cases o <;> first | cases h | skip
  obtain ⟨rfl, rfl⟩ : _ = uid ∧ ok = true := by simpa [isSetuid] using h
  rfl

private theorem cons_of_head {r : ForkResult} {tr : List (Event SysRes)}
    (h : tr.head?.any (isFork r) = true) : tr = ⟨.fork, r⟩ :: tr.tail := by
  cases tr with
  | nil => cases h
  | cons e tr => rw [eq_fork h, List.tail_cons]

private theorem child_runsAsRoot : RunsAsRoot childTrace := by
  have hall : childTrace.all expected = true := by decide
  intro before uid after heq _
  have huid := List.all_eq_true.mp hall ⟨.getuid, uid⟩ (by rw [heq]; simp)
  simpa [expected] using huid

private theorem sample_waitsFor : WaitsFor sampleJob sampleTrace := by
  have hfirst : sampleTrace = ⟨.fork, .parent 77⟩ :: sampleTrace.tail := cons_of_head (by decide)
  have hrest : sampleTrace.tail.all expected = true := by decide +kernel
  have hstop : (sampleJob.drive (jobAnswer .child) ({}, false)).2 = .before (.exit 0) := by decide
  have hexit : Arrives (.exit 0) sampleJob childTrace := Prog.arrives_of_drive hstop
  have hchild : childTrace = ⟨.fork, .child⟩ :: childTrace.tail := cons_of_head (by decide)
  intro before pid meanwhile after heq
  have hbefore : before = [] := by
    rcases before with _ | ⟨e, before⟩
    · rfl
    · rw [hfirst] at heq
      have htail := (List.cons.inj heq).2
      have hfork := List.all_eq_true.mp hrest ⟨.fork, .parent pid⟩ (by rw [htail]; simp)
      cases hfork
  subst hbefore
  have hroot := child_runsAsRoot
  rw [hchild] at hexit hroot
  exact ⟨childTrace.tail, hexit, hroot⟩

private theorem sample_setsUid : SetsUid 600 sampleTrace := by
  have hlast : sampleTrace.getLast?.any (isSetuid 600) = true := by decide
  have hfork : sampleTrace.dropLast.any (isFork .child) = true := by decide
  obtain ⟨e, he, hset⟩ := (Option.any_eq_true _ _).mp hlast
  obtain ⟨before, heq⟩ := List.getLast?_eq_some_iff.mp he
  obtain ⟨e', hmem, he'⟩ := List.any_eq_true.mp hfork
  rw [heq, List.dropLast_concat] at hmem
  rw [eq_setuid hset] at heq
  rw [eq_fork he'] at hmem
  exact ⟨before, [], heq, hmem⟩

/-- With the floors switched off it is the killed child that keeps root out. -/
theorem credential_floor_sample : SafeUid sampleFloors sampleCaller 600 := by
  have hconf : ((configureCaller sampleFloors sampleCaller {}).drive configAnswer ()).2 =
      .returned configured := by decide
  have hfloor := credential_floor (Prog.runs_of_drive hconf) (rfl : parseEnv none configured = _)
  have hsafe := (hfloor.1 {} 9 [str "/bin/true"] 0xffffffff).1
  exact (hsafe sampleTrace .running sample_runs sample_waitsFor 600 sample_setsUid).2.1

end HasherPriv.Chroot.CredentialFloor
