/- GID: HasherPriv/Chroot/Isolation
   layer: chroot
   source: chrootuid.c, unshare.c, mount.c
   digest: The namespaces in which the program of a job runs, and those of its parent. -/

import HasherPriv.Chroot.CredentialFloor
import HasherPriv.Chroot.Unshare

set_option autoImplicit false
set_option relaxedAutoImplicit false

namespace HasherPriv.Chroot.Isolation

open Foundations.ByteString
open Foundations.Program
open Foundations.Contracts
open Config.CallerData
open Config.FileConfig
open Namespaces (Ns)
open Syscall
open Chdir
open Chdiruid
open Makedev
open Mount
open Killuid
open Chrootuid
open Unshare (World Settled Untouched Bounded Frame Unsettled Settles)

/-! The calls of `chrootuid` that leave the namespaces. -/

def IsPlain : Sys → Prop
  | .helper .setupNs | .helper .unshareMount | .helper .unshareIpc | .helper .unshareUts => False
  | .helper .unshareNetwork | .helper .handleParent | .handleChild _ _ => False
  | .mount _ _ _ _ _ => False
  | _ => True

/-- The calls of `setup_mountpoints` behind its first one. -/
def IsMounting (o : Sys) : Prop :=
  IsPlain o ∨ ∃ fsname type flags data, o = .mount fsname (str ".") type flags data

/-- The calls that come before the last one of either process. -/
def IsSilent : Sys → Prop
  | .helper .handleParent | .handleChild _ _ => False
  | _ => True

theorem IsPlain.silent {o : Sys} (h : IsPlain o) : IsSilent o := by
  cases o with
  | helper name =>
      cases name with
      | handleParent => exact h.elim
      | _ => trivial
  | handleChild argv env => exact h.elim
  | _ => trivial

section Plain

variable {c : Caller} {s : Settings}

theorem call_plain (o : Sys) (h : IsPlain o) : (call o).Uses IsPlain := uses_op h

theorem helper_plain (h : Helper) (hplain : IsPlain (.helper h)) : (helper h).Uses IsPlain := by
  refine ⟨hplain, fun rc => ?_⟩
  cases rc <;> trivial

theorem chdiruidCall_plain (o : Sys) (h : IsChdiruidCall o) : IsPlain o := by
  cases o with
  | helper name => exact h.elim
  | handleChild argv env => exact h.elim
  | mount fsname target type flags data => exact h.elim
  | _ => trivial

theorem chdirCall_plain (o : Sys) (h : IsChdirCall o) : IsPlain o := by
  cases o with
  | helper name => exact h.elim
  | handleChild argv env => exact h.elim
  | mount fsname target type flags data => exact h.elim
  | _ => trivial

theorem configCall_plain (o : Sys) (h : IsConfigCall o) : IsPlain o := by
  cases o with
  | helper name => exact h.elim
  | handleChild argv env => exact h.elim
  | mount fsname target type flags data => exact h.elim
  | _ => trivial

theorem deviceCall_plain (o : Sys) (h : IsDeviceCall o) : IsPlain o := by
  cases o with
  | helper name => exact h.elim
  | handleChild argv env => exact h.elim
  | mount fsname target type flags data => exact h.elim
  | _ => trivial

theorem fchdiruid_plain (validator : Validator) (fd : ℤ) :
    (fchdiruid c s validator fd).Uses IsPlain :=
  (fchdiruid_uses c s validator fd).mono chdiruidCall_plain

theorem chdiruid_plain (validator : Validator) (path : Bytes) (saved : StrtokState) :
    (chdiruid c s validator path saved).Uses IsPlain :=
  (chdiruid_uses c s validator path saved).mono chdiruidCall_plain

theorem chGid_plain (gid : UInt32) : (chGid gid).Uses IsPlain :=
  (chGid_uses gid).mono chdiruidCall_plain

theorem setupFstab_plain : (setupFstab c s).Uses IsPlain := by
  have hchdir (path : Bytes) : (safeChdir (owners c s) .rootOk path []).Uses IsPlain :=
    (safeChdir_uses (owners c s) .rootOk path []).mono chdirCall_plain
  have hload : (loadConfig (owners c s) (str "fstab") fun fd => call (.getmntents fd)).Uses
      IsPlain := loadConfig_uses _ _ configCall_plain fun fd => call_plain (.getmntents fd) trivial
  exact (hchdir _).bind fun _ => (hchdir _).bind fun _ => hload.bind fun _ =>
    (hchdir _).bind fun _ => trivial

theorem copyDev_plain (src : Bytes) : (copyDev src).Uses IsPlain := by
  obtain ⟨k, hk, hdevice⟩ := copyDev_enters src
  rw [hk]
  exact ⟨trivial, fun r => (hdevice r).mono deviceCall_plain⟩

theorem setupDevices_plain (chrootFd : ℤ) (devPtsMounted : Bool) (vec : List Bytes) :
    (setupDevices c s chrootFd devPtsMounted vec).Uses IsPlain := by
  have hdevice {p : SysProg Unit} (hp : p.Uses IsDeviceCall) : p.Uses IsPlain :=
    hp.mono deviceCall_plain
  have hdevs : (Prog.each copyDev vec).Uses IsPlain := .each fun src _ => copyDev_plain src
  exact (fchdiruid_plain _ _).bind fun _ => (chdiruid_plain _ _ _).bind fun _ =>
    (chGid_plain 0).bind fun savedGid => (call_plain (.umask 0) trivial).bind fun m =>
    (hdevice setupStandardDevices_uses).bind fun _ => (hdevice (setupConsole_uses _)).bind fun _ =>
    (hdevice (setupPts_uses _)).bind fun _ => (helper_plain .logListen trivial).bind fun _ =>
    hdevs.bind fun _ => (call_plain (.umask m) trivial).bind fun _ =>
    (chGid_plain savedGid).bind fun _ => trivial

theorem xmount_mounting (chrootFd : ℤ) (e : MntEnt) :
    (xmount c s chrootFd e).Uses IsMounting := by
  have hplain {α : Type} {p : SysProg α} (hp : p.Uses IsPlain) : p.Uses IsMounting :=
    hp.mono fun _ => Or.inl
  have hopts (opts : List Bytes) :
      (parseOpts opts (msMgcVal ||| msNosuid) none).Uses IsMounting := by
    refine (parseOpts_uses opts _ _).mono ?_
    rintro o ⟨name, rfl⟩
    exact .inl trivial
  refine (hplain (call_plain (.enter (.xmount e.dir)) trivial)).bind fun _ => ?_
  show Prog.Uses _ (ite _ _ _)
  split_ifs
  · trivial
  · refine (hopts _).bind fun r => (hplain (fchdiruid_plain _ _)).bind fun _ =>
      (hplain (chdiruid_plain _ _ _)).bind fun _ => ⟨.inr ⟨_, _, _, _, rfl⟩, fun answer => ?_⟩
    cases answer <;> trivial

theorem mountPoint_mounting (chrootFd : ℤ) (varFstab : List MntEnt) (mpoint : Bytes) :
    (mountPoint c s chrootFd varFstab mpoint).Uses IsMounting := by
  rw [mountPoint]
  cases lookupMountEntry varFstab mpoint with
  | error why => trivial
  | ok e => exact xmount_mounting chrootFd e

/-- `setup_mountpoints` cuts its mounts off from all others before it makes them. -/
theorem setupMountpoints_cases (chrootFd : ℤ) :
    (∃ why, setupMountpoints c s chrootFd = .die why) ∨
      ∃ rest : SysProg Bool, rest.Uses IsMounting ∧ setupMountpoints c s chrootFd =
        .call (.mount (str "/") (str "/") none (msSlave ||| msRec) none) fun answer =>
          if answer = .failed then .die "mount MS_SLAVE" else rest := by
  rw [setupMountpoints]
  cases sortItems s (s.requestedMountpoints.slots.take s.requestedMountpoints.len) {} with
  | error why => exact .inl ⟨why, rfl⟩
  | ok r =>
      have hplain {α : Type} {p : SysProg α} (hp : p.Uses IsPlain) : p.Uses IsMounting :=
        hp.mono fun _ => Or.inl
      refine .inr ⟨(do
          let varFstab ← setupFstab c s
          mountPoint c s chrootFd varFstab (str "/dev")
          setupDevices c s chrootFd r.devPtsMounted r.devVec
          mountPoint c s chrootFd varFstab (str "/dev/shm")
          Prog.each (mountPoint c s chrootFd varFstab) r.mpointVec
          return r.devPtsMounted), ?_, ?_⟩
      · exact (hplain setupFstab_plain).bind fun varFstab => (mountPoint_mounting _ _ _).bind
          fun _ => (hplain (setupDevices_plain _ _ _)).bind fun _ =>
          (mountPoint_mounting _ _ _).bind fun _ =>
          (Prog.Uses.each fun mpoint _ => mountPoint_mounting _ _ mpoint).bind fun _ => trivial
      · show Prog.call _ _ = Prog.call _ _
        congr 1
        funext answer
        cases answer <;> simp [prog_bind_assoc]

theorem obtainGroups_plain (user : Bytes) (gid : UInt32) :
    (obtainGroups user gid).Uses IsPlain := by
  have hdrop (groups : List UInt32) : ((orDie (call (.setgroups [])) "setgroups").bind fun _ =>
      (Prog.ret groups : SysProg (List UInt32))).Uses IsPlain :=
    (orDie_uses (call_plain (.setgroups []) trivial) _).bind fun _ => trivial
  refine (orDie_uses (call_plain (.initgroups user gid) trivial) _).bind fun _ =>
    ⟨trivial, fun answer => ?_⟩
  rcases answer with _ | _ | ⟨g, groups⟩
  · trivial
  · exact hdrop []
  · refine ⟨trivial, fun answer => ?_⟩
    cases answer with
    | none => trivial
    | some groups => exact hdrop groups

theorem doKilluid_plain (f : Floors) : (doKilluid f s).Uses IsPlain := by
  refine ⟨trivial, fun u => ?_⟩
  show Prog.Uses _ (ite _ _ _)
  split_ifs
  · trivial
  · trivial
  · exact (helper_plain .raiseRlimitNproc trivial).bind fun _ =>
      (orDie_uses (call_plain .prctlDumpable trivial) _).bind fun _ =>
      (orDie_uses (call_plain (.setreuid _ _) trivial) _).bind fun _ =>
      (orDie_uses (call_plain (.kill _ _) trivial) _).bind fun _ =>
      (helper_plain (.purgeIpc _ _) trivial).bind fun _ =>
      (orDie_uses (call_plain (.setreuid _ _) trivial) _).bind fun _ =>
      (helper_plain (.purgeIpc _ _) trivial).bind fun _ => trivial

theorem spawnKilluid_plain (f : Floors) : (spawnKilluid f s).Uses IsPlain := by
  refine ⟨trivial, fun r => ?_⟩
  cases r with
  | failed => trivial
  | child => exact (doKilluid_plain f).bind fun _ => ⟨trivial, fun never => never.elim⟩
  | parent pid =>
      refine ⟨trivial, fun status => ?_⟩
      rcases status with _ | ⟨rc⟩ | ⟨signo⟩ | _
      · trivial
      · show Prog.Uses _ (ite _ _ _)
        split_ifs <;> trivial
      · trivial
      · trivial

end Plain

/-! The calls in the world of the namespaces. -/

/-- The value of a helper function that runs a program. -/
def RunOf (p : Unshare.UnshareProg Unit) (w : World) (r : Option ℤ) (w' : World) : Prop :=
  (∃ tr, Exec (· = ·) Unshare.Answers p w tr (.returned ()) w' ∧ r = some 0) ∨
    ∃ tr why, Exec (· = ·) Unshare.Answers p w tr (.died why) w' ∧ r = none

/-- `setup_ns` leaves the process in namespaces that are there. -/
def HelperAnswers (s : Settings) : Helper → World → Option ℤ → World → Prop
  | .setupNs, w, _, w' => ∃ joined : Ns → ℕ, (∀ ns, joined ns < w.made) ∧
      w' = { w with current := joined, joined := joined }
  | .unshareMount, w, r, w' => RunOf Unshare.unshareMount w r w'
  | .unshareIpc, w, r, w' => RunOf (Unshare.unshareIpc s.shareIpc) w r w'
  | .unshareUts, w, r, w' => RunOf (Unshare.unshareUts s.shareUts) w r w'
  | .unshareNetwork, w, r, w' => RunOf (Unshare.unshareNetwork s.shareNetwork) w r w'
  | _, w, _, w' => w' = w

/-- A change of the propagation of every mount of the namespace. -/
def makesSlave (m : MountCall) : Bool := m.target = str "/" ∧ m.flags = msSlave ||| msRec

/-- The new mount is in the namespace of the process, and in these others. -/
def mounted (w : World) (m : MountCall) (shown : List ℕ) : World :=
  { w with
    content := fun n =>
      if n = w.current .mnt ∨ n ∈ shown then
        { w.content n with mounts := (w.content n).mounts ++ [m] }
      else w.content n }

/-- What is mounted in a namespace may be seen in its peers, until its mounts are slaves. -/
def MountAnswers (m : MountCall) (w : World) : Answer → World → Prop
  | .ok, w' =>
      if makesSlave m then w' = w.modify .mnt fun k => { k with peers := [] }
      else ∃ shown, (∀ n ∈ shown, n ∈ (w.content (w.current .mnt)).peers) ∧ w' = mounted w m shown
  | .expected, w' => w' = if makesSlave m then { w with slaveRefused := true } else w
  | .failed, w' => w' = w

def Answers (s : Settings) : (o : Sys) → World → SysRes o → World → Prop
  | .helper h, w, r, w' => HelperAnswers s h w r w'
  | .mount fsname target type flags data, w, r, w' =>
      MountAnswers ⟨fsname, target, type, flags, data⟩ w r w'
  | _, w, _, w' => w' = w

/-- Where the program of a job is executed. -/
structure ProgramSettled (start : ℕ) (s : Settings) (w : World) : Prop where
  mnt : Settled start (some false) w .mnt
  ipc : Settled start s.shareIpc w .ipc
  uts : Settled start s.shareUts w .uts
  net : Settled start s.shareNetwork w .net

/-- The process that waits can reach a display over the network of the client. -/
structure ParentSettled (start : ℕ) (s : Settings) (x : X11) (w : World) : Prop where
  mnt : Settled start (some false) w .mnt
  ipc : Settled start s.shareIpc w .ipc
  uts : Settled start s.shareUts w .uts
  net : if x.shareCallerNetwork then w.current .net = w.joined .net
    else Settled start s.shareNetwork w .net

/-- Where the last call of either process is made, which has forked in the world `v`: in the same
namespaces, but for the network of a program that does not share that of its parent. -/
def Placed (start : ℕ) (s : Settings) (x : X11) (v : World) : Sys → World → Prop
  | .handleChild _ _, w => ProgramSettled start s w ∧
      ∀ ns, (ns = .net → x.shareCallerNetwork = false) → w.current ns = v.current ns
  | .helper .handleParent, w => ParentSettled start s x w ∧ w.current = v.current
  | _, _ => True

section Run

variable {start : ℕ} {w₀ w v : World} {c : Caller} {s : Settings} {x : X11} {α β : Type}

/-- No call of the program touches what was there at the start. -/
abbrev Isolates (start : ℕ) (w₀ : World) (s : Settings) (p : SysProg α)
    (post : α → World → Prop) (w : World) : Prop :=
  Ensures (Answers s) (fun _ _ _ w' => Untouched start w₀ w') p post w

theorem plain_same {o : Sys} {r : SysRes o} (ho : IsPlain o) (h : Answers s o w r v) : v = w := by
  cases o with
  | helper name =>
      cases name with
      | setupNs => exact ho.elim
      | unshareMount => exact ho.elim
      | unshareIpc => exact ho.elim
      | unshareUts => exact ho.elim
      | unshareNetwork => exact ho.elim
      | _ => exact h
  | mount fsname target type flags data => exact ho.elim
  | _ => exact h

/-- The parts that leave the namespaces. -/
theorem plain_isolates {p : SysProg α} (hp : p.Uses IsPlain) (hw : Untouched start w₀ w) :
    Isolates start w₀ s p (fun _ w' => w' = w) w := by
  apply ensures_of_uses (I := fun w' => w' = w) hp rfl
  intro o v r v' ho hv hanswers
  obtain rfl := plain_same ho hanswers
  obtain rfl := hv
  exact ⟨hw, rfl⟩

theorem plain_bind {p : SysProg α} {f : α → SysProg β} {post : β → World → Prop}
    (hp : p.Uses IsPlain) (hw : Untouched start w₀ w)
    (hf : ∀ a, Isolates start w₀ s (f a) post w) : Isolates start w₀ s (p.bind f) post w := by
  apply (plain_isolates hp hw).bind
  rintro a _ rfl
  exact hf a

/-- A process that has left its namespaces of some kinds. -/
structure Stage (start : ℕ) (w₀ w : World) : Prop where
  untouched : Untouched start w₀ w
  made : start ≤ w.made
  bounded : Bounded w

theorem Stage.settles {shareFlag : Option Bool} {ns : Ns} {w' : World} (h : Stage start w₀ w)
    (hsettles : Settles start shareFlag ns w w') : Stage start w₀ w' :=
  ⟨h.untouched.frame h.made hsettles.1, h.made.trans hsettles.1.made, hsettles.1.bounded⟩

/-- A helper function that runs a program does what the program does. -/
theorem settle_isolates (h : Helper) {p : Unshare.UnshareProg Unit} {shareFlag : Option Bool}
    {ns : Ns} (hw : Stage start w₀ w)
    (hhelper : ∀ w r w', HelperAnswers s h w r w' = RunOf p w r w')
    (hp : Unshare.Spares start w₀ p (Settles start shareFlag ns w) w) :
    Isolates start w₀ s (helper h) (fun _ w' => Settles start shareFlag ns w w') w := by
  intro r w' hanswers
  have hrun : HelperAnswers s h w r w' := hanswers
  rw [hhelper] at hrun
  rcases hrun with ⟨tr, hrun, rfl⟩ | ⟨tr, why, hrun, rfl⟩
  · have huntouched : Untouched start w₀ w' := Ensures.stops hp hw.untouched hrun
    exact ⟨huntouched, (hp.exec hrun).2 () rfl⟩
  · have huntouched : Untouched start w₀ w' := Ensures.stops hp hw.untouched hrun
    exact ⟨huntouched, trivial⟩

theorem unshareMount_isolates (hw : Stage start w₀ w) (hun : Unsettled w .mnt) :
    Isolates start w₀ s (helper .unshareMount)
      (fun _ w' => Settles start (some false) .mnt w w') w :=
  settle_isolates .unshareMount hw (fun _ _ _ => rfl)
    (Unshare.unshareMount_settles hw.untouched hw.made hw.bounded hun)

theorem unshareIpc_isolates (hw : Stage start w₀ w) (hun : Unsettled w .ipc) :
    Isolates start w₀ s (helper .unshareIpc)
      (fun _ w' => Settles start s.shareIpc .ipc w w') w :=
  settle_isolates .unshareIpc hw (fun _ _ _ => rfl)
    (Unshare.unshareIpc_settles hw.untouched hw.made hw.bounded hun)

theorem unshareUts_isolates (hw : Stage start w₀ w) (hun : Unsettled w .uts) :
    Isolates start w₀ s (helper .unshareUts)
      (fun _ w' => Settles start s.shareUts .uts w w') w :=
  settle_isolates .unshareUts hw (fun _ _ _ => rfl)
    (Unshare.unshareUts_settles hw.untouched hw.made hw.bounded hun)

/-- `unshare_network`, in the one of the two processes that is meant. -/
theorem unshareNetworkIf_isolates (b : Bool) (hw : Stage start w₀ w) (hun : Unsettled w .net) :
    Isolates start w₀ s (unshareNetworkIf b)
      (fun _ w' => Stage start w₀ w' ∧ Frame .net w w' ∧
        if b then Settled start s.shareNetwork w' .net else Unsettled w' .net) w := by
  cases b with
  | true =>
      apply (settle_isolates .unshareNetwork hw (fun _ _ _ => rfl)
        (Unshare.unshareNetwork_settles hw.untouched hw.made hw.bounded hun)).bind
      intro _ w' hsettles
      exact ⟨hw.settles hsettles, hsettles⟩
  | false => exact ⟨hw, .refl hw.bounded, hun⟩

/-! `setup_mountpoints`. -/

/-- Mounting leaves the process where it is. -/
structure Mounting (w w' : World) : Prop where
  made : w'.made = w.made
  current : w'.current = w.current
  joined : w'.joined = w.joined
  refused : w'.refused = w.refused

/-- The mounts of the process do not show up elsewhere. -/
structure CutOff (start : ℕ) (w₀ w w' : World) : Prop extends Mounting w w' where
  untouched : Untouched start w₀ w'
  peers : w'.slaveRefused = false → (w'.content (w'.current .mnt)).peers = []

theorem CutOff.mounted {w' : World} {m : MountCall} {shown : List ℕ} (h : CutOff start w₀ w w')
    (hnew : start ≤ w.current .mnt)
    (hshown : ∀ n ∈ shown, n ∈ (w'.content (w'.current .mnt)).peers) :
    CutOff start w₀ w (mounted w' m shown) := by
  refine ⟨⟨h.made, h.current, h.joined, h.refused⟩, ?_, ?_⟩
  · intro n hn
    obtain ⟨hhostname, hloopback, hsame⟩ := h.untouched n hn
    have hcurrent : n ≠ w'.current .mnt := by
      rw [h.current]
      omega
    show (ite _ _ _ : Unshare.Content).hostname = _ ∧ (ite _ _ _ : Unshare.Content).loopbackUp = _ ∧
      (w'.slaveRefused = false → ite _ _ _ = _)
    split_ifs with hmem
    · refine ⟨hhostname, hloopback, fun hslave => ?_⟩
      have hpeer := hshown n (hmem.resolve_left hcurrent)
      rw [h.peers hslave] at hpeer
      cases hpeer
    · exact ⟨hhostname, hloopback, hsame⟩
  · intro hslave
    show (ite _ _ _ : Unshare.Content).peers = []
    rw [if_pos (.inl rfl)]
    exact h.peers hslave

theorem mounting_isolates {p : SysProg α} {w' : World} (hp : p.Uses IsMounting)
    (hw : CutOff start w₀ w w') (hnew : start ≤ w.current .mnt) :
    Isolates start w₀ s p (fun _ v => CutOff start w₀ w v) w' := by
  refine ensures_of_uses hp hw ?_
  intro o v r v' ho hv hanswers
  have hcut : CutOff start w₀ w v' := by
    rcases ho with hplain | ⟨fsname, type, flags, data, rfl⟩
    · obtain rfl := plain_same hplain hanswers
      exact hv
    · have htarget : str "." ≠ str "/" := by decide
      have hslave : makesSlave ⟨fsname, str ".", type, flags, data⟩ = false :=
        decide_eq_false fun h => htarget h.1
      have hmount : MountAnswers ⟨fsname, str ".", type, flags, data⟩ v r v' := hanswers
      cases r with
      | ok =>
          rw [MountAnswers, hslave] at hmount
          obtain ⟨shown, hshown, rfl⟩ := hmount
          exact hv.mounted hnew hshown
      | expected =>
          rw [MountAnswers, hslave] at hmount
          obtain rfl := hmount
          exact hv
      | failed =>
          obtain rfl := hmount
          exact hv
  exact ⟨hcut.untouched, hcut⟩

/-- The first call of `setup_mountpoints`. -/
theorem slave_cutOff {answer : Answer} {w' : World} (hw : Stage start w₀ w)
    (hnew : start ≤ w.current .mnt) (hanswer : answer ≠ .failed)
    (h : MountAnswers ⟨str "/", str "/", none, msSlave ||| msRec, none⟩ w answer w') :
    CutOff start w₀ w w' := by
  have hslave : makesSlave ⟨str "/", str "/", none, msSlave ||| msRec, none⟩ = true := by decide
  cases answer with
  | ok =>
      rw [MountAnswers, hslave, if_pos rfl] at h
      obtain rfl := h
      refine ⟨⟨rfl, rfl, rfl, rfl⟩, ?_, ?_⟩
      · intro n hn
        rw [Unshare.modify_content _ n (by omega)]
        exact hw.untouched n hn
      · intro _
        exact congrArg Unshare.Content.peers (Unshare.modify_current w .mnt
          fun k => { k with peers := [] })
  | expected =>
      rw [MountAnswers, hslave, if_pos rfl] at h
      obtain rfl := h
      refine ⟨⟨rfl, rfl, rfl, rfl⟩, ?_, nofun⟩
      intro n hn
      obtain ⟨hhostname, hloopback, -⟩ := hw.untouched n hn
      exact ⟨hhostname, hloopback, nofun⟩
  | failed => exact (hanswer rfl).elim

theorem setupMountpoints_isolates (chrootFd : ℤ) (hw : Stage start w₀ w)
    (hnew : start ≤ w.current .mnt) :
    Isolates start w₀ s (setupMountpoints c s chrootFd)
      (fun _ w' => Stage start w₀ w' ∧ Mounting w w') w := by
  rcases @setupMountpoints_cases c s chrootFd with ⟨why, hdie⟩ | ⟨rest, hrest, hcall⟩
  · rw [hdie]
    trivial
  · rw [hcall]
    intro answer w' hanswers
    by_cases hfailed : answer = .failed
    · subst hfailed
      obtain rfl : w' = w := hanswers
      exact ⟨hw.untouched, trivial⟩
    · have hcut : CutOff start w₀ w w' := slave_cutOff hw hnew hfailed hanswers
      refine ⟨hcut.untouched, ?_⟩
      show Ensures _ _ (ite _ _ _) _ _
      rw [if_neg hfailed]
      apply (mounting_isolates hrest hcut hnew).mono
      intro _ v hv
      refine ⟨⟨hv.untouched, ?_, ?_⟩, hv.toMounting⟩
      · rw [hv.made]
        exact hw.made
      · intro ns
        rw [hv.current, hv.made]
        exact hw.bounded ns

theorem Mounting.settled {shareFlag : Option Bool} {w' : World} (h : Mounting w w')
    (hmnt : Settled start shareFlag w .mnt) : Settled start shareFlag w' .mnt := by
  unfold Settled at hmnt ⊢
  rw [h.refused, h.current, h.joined]
  exact hmnt

theorem Mounting.unsettled {ns : Ns} {w' : World} (h : Mounting w w') (hun : Unsettled w ns) :
    Unsettled w' ns := by
  constructor
  · rw [h.current, h.joined]
    exact hun.current
  · rw [h.refused]
    exact hun.refused

/-! `chrootuid`. -/

/-- The state of a process when only its network is still that of the client. -/
structure Local (start : ℕ) (s : Settings) (w₀ w : World) : Prop extends Stage start w₀ w where
  mnt : Settled start (some false) w .mnt
  ipc : Settled start s.shareIpc w .ipc
  uts : Settled start s.shareUts w .uts

theorem Local.frame {w' : World} (h : Local start s w₀ w) (hstage : Stage start w₀ w')
    (hframe : Frame .net w w') : Local start s w₀ w' :=
  ⟨hstage, h.mnt.frame h.bounded (by decide) hframe, h.ipc.frame h.bounded (by decide) hframe,
    h.uts.frame h.bounded (by decide) hframe⟩

/-- The network of a process before the second fork. -/
def BeforeFork (start : ℕ) (s : Settings) (x : X11) (w : World) : Prop :=
  if x.shareCallerNetwork then Unsettled w .net else Settled start s.shareNetwork w .net

/-- What is between `sanitize_fds` and the fork besides the functions for the namespaces. -/
theorem createPipes_plain (usePty : Bool) : (createPipes usePty).Uses IsPlain := by
  rw [createPipes]
  split_ifs
  · trivial
  · exact (orDie_uses (call_plain .pipe trivial) _).bind fun _ =>
      orDie_uses (call_plain .pipe trivial) _

theorem createSocketpair_plain (x11 : ℤ) : (createSocketpair x11).Uses IsPlain := by
  rw [createSocketpair]
  split_ifs
  · exact orDie_uses (call_plain .socketpair trivial) _
  · trivial

theorem lastSetup_plain (master : ℤ) : (do
    orDie (call .chroot) "chroot"
    let master2 ← helper .openPty
    if max master master2 < 0 then .die "failed to create pty"
    else do
      let _ ← helper .setRlimits
      let _ ← helper .cloexecFds
      let _ ← helper .blockSigchld
      return () : SysProg Unit).Uses IsPlain := by
  refine (orDie_uses (call_plain .chroot trivial) _).bind fun _ =>
    (helper_plain .openPty trivial).bind fun master2 => ?_
  show Prog.Uses _ (ite _ _ _)
  split_ifs
  · trivial
  · exact (helper_plain .setRlimits trivial).bind fun _ =>
      (helper_plain .cloexecFds trivial).bind fun _ =>
      (helper_plain .blockSigchld trivial).bind fun _ => trivial

theorem enterChroot_isolates (hw : Stage start w₀ w) (hmnt : Settled start (some false) w .mnt)
    (hun : ∀ ns, ns ≠ .mnt → Unsettled w ns) :
    Isolates start w₀ s (enterChroot x s)
      (fun _ w' => Local start s w₀ w' ∧ BeforeFork start s x w') w := by
  apply plain_bind (helper_plain .endpwent trivial) hw.untouched
  intro _
  apply plain_bind (helper_plain .sanitizeFds trivial) hw.untouched
  intro _
  apply plain_bind (createPipes_plain s.usePty) hw.untouched
  intro _
  apply plain_bind (helper_plain .x11PrepareConnect trivial) hw.untouched
  intro x11
  apply plain_bind (createSocketpair_plain x11) hw.untouched
  intro _
  apply (unshareIpc_isolates hw (hun .ipc (by decide))).bind
  rintro _ w₁ hipc
  have hw₁ := hw.settles hipc
  have hmnt₁ := hmnt.frame hw.bounded (by decide) hipc.1
  apply (unshareUts_isolates hw₁ ((hun .uts (by decide)).frame (by decide) hipc.1)).bind
  rintro _ w₂ huts
  have hw₂ := hw₁.settles huts
  have hlocal : Local start s w₀ w₂ := ⟨hw₂, hmnt₁.frame hw₁.bounded (by decide) huts.1,
    hipc.2.frame hw₁.bounded (by decide) huts.1, huts.2⟩
  have hnet : Unsettled w₂ .net :=
    ((hun .net (by decide)).frame (by decide) hipc.1).frame (by decide) huts.1
  apply (unshareNetworkIf_isolates (! x.shareCallerNetwork) hw₂ hnet).bind
  rintro _ w₃ ⟨hw₃, hframe, hsettled⟩
  have hlocal₃ := hlocal.frame hw₃ hframe
  have hbefore : BeforeFork start s x w₃ := by
    rw [BeforeFork]
    cases hshare : x.shareCallerNetwork with
    | true => simpa [hshare] using hsettled
    | false => simpa [hshare] using hsettled
  apply plain_bind (helper_plain .openPty trivial) hw₃.untouched
  intro master
  apply (plain_isolates (lastSetup_plain master) hw₃.untouched).mono
  rintro _ _ rfl
  exact ⟨hlocal₃, hbefore⟩

/-- What comes before the last call of a process. -/
theorem silent_bind {p : SysProg α} {f : α → SysProg β} {Q : α → World → Prop}
    {post : β → World → Prop} (h : Isolates start w₀ s p Q w) (hp : p.Uses IsSilent)
    (hf : ∀ a w', Q a w' → Guards (Answers s) (fun _ _ _ w' => Untouched start w₀ w')
      (Placed start s x v) (f a) post w') :
    Guards (Answers s) (fun _ _ _ w' => Untouched start w₀ w') (Placed start s x v) (p.bind f)
      post w := by
  refine (h.guards hp ?_).bind hf
  intro o w ho
  cases o with
  | helper name =>
      cases name with
      | handleParent => exact ho.elim
      | _ => trivial
  | handleChild argv env => exact ho.elim
  | _ => trivial

theorem plain_guards {p : SysProg α} {f : α → SysProg β} {post : β → World → Prop}
    (hp : p.Uses IsPlain) (hw : Untouched start w₀ w)
    (hf : ∀ a, Guards (Answers s) (fun _ _ _ w' => Untouched start w₀ w') (Placed start s x v)
      (f a) post w) :
    Guards (Answers s) (fun _ _ _ w' => Untouched start w₀ w') (Placed start s x v) (p.bind f)
      post w := by
  apply silent_bind (plain_isolates hp hw) (hp.mono fun _ => IsPlain.silent)
  rintro a _ rfl
  exact hf a

theorem becomeParent_isolates (hw : Local start s w₀ w) (hnet : BeforeFork start s x w) :
    Guards (Answers s) (fun _ _ _ w' => Untouched start w₀ w') (Placed start s x w)
      (becomeParent c) (fun _ _ => True) w := by
  apply plain_guards (helper_plain .closeEnds trivial) hw.untouched
  intro _
  apply plain_guards (orDie_uses (call_plain .prctlDumpable trivial) _) hw.untouched
  intro _
  apply plain_guards (orDie_uses (call_plain (.setgid c.gid) trivial) _) hw.untouched
  intro _
  apply plain_guards (orDie_uses (call_plain (.setuid c.uid) trivial) _) hw.untouched
  intro _
  have hplaced : ParentSettled start s x w := by
    refine ⟨hw.mnt, hw.ipc, hw.uts, ?_⟩
    rw [BeforeFork] at hnet
    split_ifs at hnet ⊢
    · exact hnet.current
    · exact hnet
  refine ⟨⟨hplaced, rfl⟩, ?_⟩
  intro r w' hanswers
  obtain rfl := hanswers
  refine ⟨hw.untouched, ?_⟩
  cases r <;> trivial

theorem setPersonality_plain (persona : UInt32) : (setPersonality persona).Uses IsPlain := by
  rw [setPersonality]
  split_ifs
  · trivial
  · refine ⟨trivial, fun r => ?_⟩
    cases r with
    | true => trivial
    | false => exact orDie_uses (call_plain (.personality persona) trivial) _

theorem unshareNetworkIf_silent (b : Bool) : (unshareNetworkIf b).Uses IsSilent := by
  rw [unshareNetworkIf]
  split_ifs
  · refine ⟨trivial, fun rc => ?_⟩
    cases rc <;> trivial
  · trivial

theorem becomeChild_isolates (hw : Local start s w₀ w) (hnet : BeforeFork start s x w)
    (p : Program) (groups : List UInt32) (uid gid persona : UInt32) :
    Guards (Answers s) (fun _ _ _ w' => Untouched start w₀ w') (Placed start s x w)
      (becomeChild x s p groups uid gid persona) (fun _ _ => True) w := by
  apply plain_guards (helper_plain .closeEnds trivial) hw.untouched
  intro _
  have hnetwork : Isolates start w₀ s (unshareNetworkIf x.shareCallerNetwork)
      (fun _ w' => Local start s w₀ w' ∧ Settled start s.shareNetwork w' .net ∧
        ∀ ns, (ns = .net → x.shareCallerNetwork = false) → w'.current ns = w.current ns) w := by
    rw [BeforeFork] at hnet
    cases hshare : x.shareCallerNetwork with
    | true =>
        rw [hshare, if_pos rfl] at hnet
        apply (unshareNetworkIf_isolates true hw.toStage hnet).mono
        rintro _ w' ⟨hw', hframe, hsettled⟩
        refine ⟨hw.frame hw' hframe, hsettled, fun ns hns => hframe.current ns fun heq => ?_⟩
        cases hns heq
    | false =>
        rw [hshare, if_neg (by decide)] at hnet
        exact ⟨hw, hnet, fun _ _ => rfl⟩
  apply silent_bind hnetwork (unshareNetworkIf_silent _)
  rintro _ w' ⟨hw', hnet', hsame⟩
  apply plain_guards (orDie_uses (call_plain .prctlDumpable trivial) _) hw'.untouched
  intro _
  apply plain_guards (call_plain (.setgroups groups) trivial) hw'.untouched
  intro _
  apply plain_guards (orDie_uses (call_plain (.setgid gid) trivial) _) hw'.untouched
  intro _
  apply plain_guards (orDie_uses (call_plain (.setuid uid) trivial) _) hw'.untouched
  intro _
  apply plain_guards (setPersonality_plain persona) hw'.untouched
  intro _
  exact ⟨⟨⟨hw'.mnt, hw'.ipc, hw'.uts, hnet'⟩, hsame⟩, fun never => never.elim⟩

/-- A process that has left no namespace yet. -/
structure Started (w : World) : Prop where
  bounded : Bounded w
  refused : ∀ ns, w.refused ns = false
  linkRefused : w.linkRefused = false
  slaveRefused : w.slaveRefused = false

/-- `chrootuid` up to its own fork. -/
def beforeFork (f : Floors) (c : Caller) (s : Settings) (x : X11) (chrootFd : ℤ) (gid : UInt32)
    (userName : Bytes) : SysProg (List UInt32) := do
  spawnKilluid f s
  let groups ← obtainGroups userName gid
  let _ ← helper .setupNs
  let chrootFd ← reopenChroot c s chrootFd
  let _ ← setupMountpoints c s chrootFd
  fchdiruid c s .callerOk chrootFd
  enterChroot x s
  return groups

/-- What the fork of `chrootuid` answers decides how a process goes on. -/
def afterFork (c : Caller) (s : Settings) (x : X11) (p : Program) (groups : List UInt32)
    (uid gid persona : UInt32) : ForkResult → SysProg ℤ
  | .failed => .die "fork"
  | .parent _ => becomeParent c
  | .child => becomeChild x s p groups uid gid persona

theorem chrootuid_eq (f : Floors) (chrootFd : ℤ) (p : Program) (uid gid persona : UInt32)
    (userName : Bytes) : chrootuid f c s x chrootFd p uid gid persona userName =
      (beforeFork f c s x chrootFd gid userName).bind fun groups =>
        .call .fork (afterFork c s x p groups uid gid persona) := by
  simp only [chrootuid, beforeFork, bind_eq_bind, pure_eq_ret, prog_bind_assoc]
  rfl

theorem beforeFork_isolates (f : Floors) (chrootFd : ℤ) (gid : UInt32) (userName : Bytes)
    (hw : Started w) :
    Isolates w.made w s (beforeFork f c s x chrootFd gid userName)
      (fun _ v => Local w.made s w v ∧ BeforeFork w.made s x v) w := by
  have hsame : Untouched w.made w w := .refl _ _
  apply plain_bind (spawnKilluid_plain f) hsame
  intro _
  apply plain_bind (obtainGroups_plain userName gid) hsame
  intro groups
  rintro r w₁ ⟨joined, hjoined, rfl⟩
  refine ⟨hsame, ?_⟩
  cases r with
  | none => trivial
  | some rc =>
      have hw₁ : Stage w.made w { w with current := joined, joined := joined } :=
        ⟨hsame, Nat.le_refl _, hjoined⟩
      have hun : ∀ ns, Unsettled { w with current := joined, joined := joined } ns :=
        fun ns => ⟨rfl, hw.refused ns⟩
      show Isolates _ _ _ ((reopenChroot c s chrootFd).bind _) _ _
      rw [reopenChroot, bind_eq_bind, prog_bind_assoc]
      apply plain_bind (fchdiruid_plain .callerOk chrootFd) hw₁.untouched
      intro _
      rw [bind_eq_bind, prog_bind_assoc]
      apply (unshareMount_isolates hw₁ (hun .mnt)).bind
      intro _ w₂ hmnt
      have hw₂ := hw₁.settles hmnt
      have hnew : w.made ≤ w₂.current .mnt := by
        have hsettled := hmnt.2
        rw [Settled] at hsettled
        split_ifs at hsettled
        · exact (hsettled.1 rfl).elim
        · exact hsettled.1
      rintro fd _ rfl
      refine ⟨hw₂.untouched, ?_⟩
      cases fd with
      | none => trivial
      | some fd =>
          apply (setupMountpoints_isolates (fd : ℤ) hw₂ hnew).bind
          rintro _ w₃ ⟨hw₃, hmounting⟩
          apply plain_bind (fchdiruid_plain .callerOk (fd : ℤ)) hw₃.untouched
          intro _
          have hrest : ∀ ns, ns ≠ .mnt → Unsettled w₃ ns := fun ns hns =>
            hmounting.unsettled ((hun ns).frame hns hmnt.1)
          apply (enterChroot_isolates hw₃ (hmounting.settled hmnt.2) hrest).bind
          intro _ w₄ hw₄
          exact hw₄

theorem beforeFork_silent (f : Floors) (chrootFd : ℤ) (gid : UInt32) (userName : Bytes) :
    (beforeFork f c s x chrootFd gid userName).Uses IsSilent := by
  have hplain {α : Type} {p : SysProg α} (hp : p.Uses IsPlain) : p.Uses IsSilent :=
    hp.mono fun _ => IsPlain.silent
  have hhelper (h : Helper) (hsilent : IsSilent (.helper h)) : (helper h).Uses IsSilent := by
    refine ⟨hsilent, fun rc => ?_⟩
    cases rc <;> trivial
  have hreopen : (reopenChroot c s chrootFd).Uses IsSilent := by
    refine (hplain (fchdiruid_plain _ _)).bind fun _ =>
      (hhelper .unshareMount trivial).bind fun _ => ⟨trivial, fun fd => ?_⟩
    cases fd <;> trivial
  have hmounts (chrootFd : ℤ) : (setupMountpoints c s chrootFd).Uses IsSilent := by
    rcases @setupMountpoints_cases c s chrootFd with ⟨why, hdie⟩ | ⟨rest, hrest, hcall⟩
    · rw [hdie]
      trivial
    · rw [hcall]
      refine ⟨trivial, fun answer => ?_⟩
      show Prog.Uses _ (ite _ _ _)
      split_ifs
      · trivial
      · refine hrest.mono fun o ho => ?_
        rcases ho with hplain' | ⟨fsname, type, flags, data, rfl⟩
        · exact hplain'.silent
        · trivial
  have henter : (enterChroot x s).Uses IsSilent :=
    (hhelper .endpwent trivial).bind fun _ => (hhelper .sanitizeFds trivial).bind fun _ =>
      (hplain (createPipes_plain _)).bind fun _ =>
      (hhelper .x11PrepareConnect trivial).bind fun x11 =>
      (hplain (createSocketpair_plain x11)).bind fun _ =>
      (hhelper .unshareIpc trivial).bind fun _ => (hhelper .unshareUts trivial).bind fun _ =>
      (unshareNetworkIf_silent _).bind fun _ => (hhelper .openPty trivial).bind fun master =>
      hplain (lastSetup_plain master)
  exact (hplain (spawnKilluid_plain f)).bind fun _ => (hplain (obtainGroups_plain _ _)).bind
    fun _ => (hhelper .setupNs trivial).bind fun _ => hreopen.bind fun chrootFd =>
    (hmounts chrootFd).bind fun _ => (hplain (fchdiruid_plain _ _)).bind fun _ =>
    henter.bind fun _ => trivial

theorem chrootuid_isolates (f : Floors) (chrootFd : ℤ) (p : Program) (uid gid persona : UInt32)
    (userName : Bytes) (hw : Started w) :
    Isolates w.made w s (chrootuid f c s x chrootFd p uid gid persona userName)
      (fun _ _ => True) w := by
  rw [chrootuid_eq]
  apply (beforeFork_isolates f chrootFd gid userName hw).bind
  rintro groups v ⟨hlocal, hnet⟩ r v' hanswers
  have hsame : v' = v := hanswers
  rw [hsame]
  refine ⟨hlocal.untouched, ?_⟩
  cases r with
  | failed => trivial
  | parent pid => exact (becomeParent_isolates hlocal hnet).ensures
  | child => exact (becomeChild_isolates hlocal hnet p groups uid gid persona).ensures

end Run

open CredentialFloor (jobAnswer sampleFloors configured)
open Mountpoints (SampleWorld sampleCaller)

private def atHome : Unshare.Content := ⟨str "home", true, [], []⟩

private def sampleStart : World where
  made := 4
  current
    | .mnt => 0
    | .ipc => 1
    | .uts => 2
    | .net => 3
  joined _ := 0
  refused _ := false
  linkRefused := false
  slaveRefused := false
  content _ := atHome

private def nextWorld : Sys → World → World
  | .helper .setupNs, w => { w with joined := w.current }
  | .helper .unshareMount, w => w.enterNew .mnt
  | .helper .unshareIpc, w => w.enterNew .ipc
  | .helper .unshareUts, w =>
      (w.enterNew .uts).modify .uts fun k => { k with hostname := Unshare.localhost }
  | .helper .unshareNetwork, w =>
      (w.enterNew .net).modify .net fun k => { k with loopbackUp := true }
  | .mount fsname target type flags data, w =>
      let m := ⟨fsname, target, type, flags, data⟩
      if makesSlave m then w.modify .mnt fun k => { k with peers := [] } else mounted w m []
  | _, w => w

/-- The machine stops before either process makes its last call. -/
private def hostAnswer (m : (SampleWorld × Bool) × World) (o : Sys) :
    Option (SysRes o × (SampleWorld × Bool) × World) :=
  if o = .helper .handleParent then none
  else (jobAnswer (.parent 77) m.1 o).map fun r => (r.1, r.2, nextWorld o m.2)

private theorem unshare_ok (ns : Ns) (w : World) :
    Unshare.Answers (.unshare ns.nstype) w Answer.ok (w.enterNew ns) := ⟨ns, rfl, rfl⟩

private theorem hostHelper_answers {h : Helper} {w : World} (hw : Bounded w) :
    HelperAnswers configured h w (some 0) (nextWorld (.helper h) w) ∧
      Bounded (nextWorld (.helper h) w) := by
  cases h with
  | setupNs => exact ⟨⟨w.current, hw, rfl⟩, hw⟩
  | unshareMount =>
      refine ⟨.inl ⟨_, .call rfl (unshare_ok .mnt w) (.ret () _), rfl⟩, ?_⟩
      exact (Unshare.enterNew_frame hw).bounded
  | unshareIpc =>
      refine ⟨.inl ⟨_, .call rfl (unshare_ok .ipc w) (.ret () _), rfl⟩, ?_⟩
      exact (Unshare.enterNew_frame hw).bounded
  | unshareUts =>
      refine ⟨.inl ⟨_, .call rfl (unshare_ok .uts w) (.call (r := true) rfl rfl (.ret () _)), rfl⟩,
        ?_⟩
      exact (Unshare.modify_new_frame hw _).bounded
  | unshareNetwork =>
      refine ⟨.inl ⟨_, .call rfl (unshare_ok .net w) (.call (r := some 5) rfl rfl
        (.call (r := (1 : ℕ)) rfl ⟨rfl, fun _ => .inr rfl⟩ (.call (r := true) rfl
        (.inr ⟨rfl, rfl, rfl⟩) (.call (r := true) rfl rfl (.ret () _))))), rfl⟩, ?_⟩
      exact (Unshare.modify_new_frame hw _).bounded
  | _ => exact ⟨rfl, hw⟩

private theorem hostMount_answers {m : MountCall} {w : World} (hw : Bounded w) :
    MountAnswers m w .ok
        (if makesSlave m then w.modify .mnt fun k => { k with peers := [] } else mounted w m []) ∧
      Bounded (if makesSlave m then w.modify .mnt fun k => { k with peers := [] }
        else mounted w m []) := by
  rw [MountAnswers]
  split_ifs
  · exact ⟨rfl, hw⟩
  · exact ⟨⟨[], nofun, rfl⟩, hw⟩

private theorem hostAnswer_answers (m : (SampleWorld × Bool) × World) (o : Sys) (r : SysRes o)
    (m' : (SampleWorld × Bool) × World) (hm : Bounded m.2) (h : hostAnswer m o = some (r, m')) :
    Answers configured o m.2 r m'.2 ∧ Bounded m'.2 := by
  rw [hostAnswer] at h
  split_ifs at h
  obtain ⟨⟨r', w⟩, hjob, heq⟩ := Option.map_eq_some_iff.mp h
  obtain ⟨rfl, rfl⟩ := Prod.mk.inj heq
  cases o with
  | helper name =>
      obtain ⟨rfl, -⟩ := Prod.mk.inj (Option.some.inj hjob)
      exact hostHelper_answers hm
  | mount fsname target type flags data =>
      obtain ⟨rfl, -⟩ := Prod.mk.inj (Option.some.inj hjob)
      exact hostMount_answers hm
  | _ => exact ⟨rfl, hm⟩

private theorem sampleStart_started : Started sampleStart := by
  refine ⟨?_, fun _ => rfl, rfl, rfl⟩
  intro ns
  cases ns <;> decide

private def sampleProgram : Program :=
  ⟨[str "/bin/true"], "HOME=/root", "USER=root", "PATH=/sbin:/usr/sbin:/bin:/usr/bin"⟩

private def sampleX11 : X11 := ⟨true, true⟩

private def sampleSetup : SysProg (List UInt32) :=
  beforeFork sampleFloors sampleCaller configured sampleX11 9 600 (str "rooter")

private def sampleChild (groups : List UInt32) : SysProg ℤ :=
  becomeChild sampleX11 configured sampleProgram groups 600 600 0xffffffff

end HasherPriv.Chroot.Isolation
