/- GID: HasherPriv/Chroot/Notable
   layer: chroot
   source: mount.c, makedev.c, chdir.c, chdiruid.c, chid.c, file_config.c
   digest: The calls of the mount programs that matter for the order of things. -/

import HasherPriv.Chroot.Mount

set_option autoImplicit false
set_option relaxedAutoImplicit false

namespace HasherPriv.Chroot.Notable

open Foundations.ByteString
open Foundations.Program
open Config.CallerData
open Config.ListOptions
open Config.FileConfig
open Syscall
open Chdir
open Chdiruid
open Makedev
open Mount

/-! The calls whose place in a run matters: entries of marked functions, and whatever
concerns credentials and other processes. -/

def notable (o : Sys) : Option Sys :=
  match o with
  | .enter _ | .getuid | .setuid _ | .setgid _ | .setreuid _ _ | .kill _ _ | .fork | .waitpid _
  | .exit _ => some o
  | _ => none

abbrev Quiet (o : Sys) : Prop := notable o = none

theorem call_quiet (o : Sys) (h : Quiet o) : (call o).Uses Quiet := uses_op h

private theorem chdiruidCall_quiet (o : Sys) (h : IsChdiruidCall o) : Quiet o := by
  cases o <;> first | rfl | exact h.elim

private theorem chdirCall_quiet (o : Sys) (h : IsChdirCall o) : Quiet o := by
  cases o <;> first | rfl | exact h.elim

theorem safeChdir_quiet (who : Owners) (v : Validator) (path : Bytes) (saved : StrtokState) :
    (safeChdir who v path saved).Uses Quiet :=
  (safeChdir_uses who v path saved).mono chdirCall_quiet

theorem chGid_quiet (gid : UInt32) : (chGid gid).Uses Quiet :=
  (chGid_uses gid).mono chdiruidCall_quiet

theorem chdiruid_quiet (c : Caller) (s : Settings) (v : Validator) (path : Bytes)
    (saved : StrtokState) : (chdiruid c s v path saved).Uses Quiet :=
  (chdiruid_uses c s v path saved).mono chdiruidCall_quiet

theorem fchdiruid_quiet (c : Caller) (s : Settings) (v : Validator) (fd : ℤ) :
    (fchdiruid c s v fd).Uses Quiet :=
  (fchdiruid_uses c s v fd).mono chdiruidCall_quiet

private theorem configCall_quiet (o : Sys) (h : IsConfigCall o) : Quiet o := by
  cases o <;> first | rfl | exact h.elim

theorem loadConfig_quiet {α : Type} (who : Owners) (fname : Bytes) {read : ℕ → SysProg α}
    (hread : ∀ fd, (read fd).Uses Quiet) : (loadConfig who fname read).Uses Quiet :=
  loadConfig_uses who fname configCall_quiet hread

theorem helper_quiet (h : Helper) : (helper h).Uses Quiet := by
  refine ⟨rfl, fun rc => ?_⟩
  cases rc <;> trivial

theorem setupFstab_quiet (c : Caller) (s : Settings) : (setupFstab c s).Uses Quiet :=
  (safeChdir_quiet _ _ _ _).bind fun _ => (safeChdir_quiet _ _ _ _).bind fun _ =>
    (loadConfig_quiet _ _ fun fd => call_quiet (.getmntents fd) rfl).bind fun varFstab =>
      (safeChdir_quiet _ _ _ _).bind fun _ => uses_ret _ varFstab

private theorem deviceCall_quiet (o : Sys) (h : IsDeviceCall o) : Quiet o := by
  cases o <;> first | rfl | exact h.elim

theorem copyDev_emits (src : Bytes) :
    (copyDev src).Emits notable [.enter (.copyDev src)] := by
  obtain ⟨k, hk, hdevice⟩ := copyDev_enters src
  rw [hk]
  exact ⟨[], rfl, fun r => ((hdevice r).mono deviceCall_quiet).emits⟩

theorem setupDevices_emits (c : Caller) (s : Settings) (chrootFd : ℤ) (devPtsMounted : Bool)
    (vec : List Bytes) :
    (setupDevices c s chrootFd devPtsMounted vec).Emits notable
      (vec.map fun src => .enter (.copyDev src)) := by
  have hdevs : (Prog.each copyDev vec).Emits notable
      (vec.map fun src => .enter (.copyDev src)) := by
    rw [List.map_eq_flatMap]
    exact Prog.Emits.each copyDev_emits
  have hafter (m : ℕ) (savedGid : UInt32) :
      ((call (.umask m)).bind fun _ => (chGid savedGid).bind fun _ =>
        (Prog.ret () : SysProg Unit)).Uses Quiet :=
    (call_quiet (.umask m) rfl).bind fun _ => (chGid_quiet savedGid).bind fun _ => trivial
  refine (fchdiruid_quiet _ _ _ _).bind_emits fun _ => ?_
  refine (chdiruid_quiet _ _ _ _ _).bind_emits fun _ => ?_
  refine (chGid_quiet 0).bind_emits fun savedGid => ?_
  refine (call_quiet (.umask 0) rfl).bind_emits fun m => ?_
  refine (setupStandardDevices_uses.mono deviceCall_quiet).bind_emits fun _ => ?_
  refine ((setupConsole_uses _).mono deviceCall_quiet).bind_emits fun _ => ?_
  refine ((setupPts_uses _).mono deviceCall_quiet).bind_emits fun _ => ?_
  refine (helper_quiet .logListen).bind_emits fun _ => ?_
  simpa using hdevs.bind fun _ => (hafter m savedGid).emits

private theorem parseOpts_quiet (opts : List Bytes) (flags : UInt64) (options : Option Bytes) :
    (parseOpts opts flags options).Uses Quiet := by
  refine (parseOpts_uses opts flags options).mono ?_
  rintro o ⟨name, rfl⟩
  rfl

theorem xmount_emits (c : Caller) (s : Settings) (chrootFd : ℤ) (e : MntEnt) :
    (xmount c s chrootFd e).Emits notable [.enter (.xmount e.dir)] := by
  refine ⟨[], rfl, fun _ => Prog.Uses.emits ?_⟩
  change Prog.Uses _ (ite _ _ _)
  split
  · trivial
  · refine (parseOpts_quiet _ _ _).bind fun r => ?_
    refine (fchdiruid_quiet _ _ _ _).bind fun _ => ?_
    refine (chdiruid_quiet _ _ _ _ _).bind fun _ => ⟨rfl, fun answer => ?_⟩
    cases answer <;> trivial

theorem dir_of_lookupMountEntry {varFstab : List MntEnt} {mpoint : Bytes} {e : MntEnt}
    (h : lookupMountEntry varFstab mpoint = .ok e) : e.dir = mpoint := by
  rw [lookupMountEntry] at h
  split at h
  · rename_i e' hfind
    obtain rfl := Except.ok.inj h
    simpa using List.find?_some hfind
  · cases h

theorem mountPoint_emits (c : Caller) (s : Settings) (chrootFd : ℤ) (varFstab : List MntEnt)
    (mpoint : Bytes) :
    (mountPoint c s chrootFd varFstab mpoint).Emits notable [.enter (.xmount mpoint)] := by
  rw [mountPoint]
  split
  · trivial
  · rename_i e he
    rw [← dir_of_lookupMountEntry he]
    exact xmount_emits c s chrootFd e

/-- The notable calls of `setup_mountpoints`, once the items are sorted out. -/
def Requested.calls (r : Requested) : List Sys :=
  .enter (.xmount (str "/dev")) :: (r.devVec.map fun src => .enter (.copyDev src)) ++
    .enter (.xmount (str "/dev/shm")) :: r.mpointVec.map fun m => .enter (.xmount m)

theorem mountAll_emits (c : Caller) (s : Settings) (chrootFd : ℤ) (r : Requested) :
    (mountAll c s chrootFd r).Emits notable (Requested.calls r) := by
  refine ⟨_, rfl, fun answer => ?_⟩
  have hmounts (varFstab : List MntEnt) :
      (Prog.each (mountPoint c s chrootFd varFstab) r.mpointVec).Emits notable
        (r.mpointVec.map fun m => .enter (.xmount m)) := by
    rw [List.map_eq_flatMap]
    exact Prog.Emits.each (mountPoint_emits c s chrootFd varFstab)
  have hrest : ((setupFstab c s).bind fun varFstab =>
      (mountPoint c s chrootFd varFstab (str "/dev")).bind fun _ =>
      (setupDevices c s chrootFd r.devPtsMounted r.devVec).bind fun _ =>
      (mountPoint c s chrootFd varFstab (str "/dev/shm")).bind fun _ =>
      Prog.each (mountPoint c s chrootFd varFstab) r.mpointVec).Emits notable
        (Requested.calls r) := by
    refine (setupFstab_quiet c s).bind_emits fun varFstab => ?_
    refine (mountPoint_emits c s chrootFd varFstab _).bind fun _ => ?_
    refine (setupDevices_emits c s chrootFd _ _).bind fun _ => ?_
    exact (mountPoint_emits c s chrootFd varFstab _).bind fun _ => hmounts varFstab
  cases answer with
  | failed => trivial
  | ok => exact hrest
  | expected => exact hrest

theorem setupMountpoints_emits (c : Caller) (s : Settings) (chrootFd : ℤ) {r : Requested}
    (h : sortItems s (s.requestedMountpoints.slots.take s.requestedMountpoints.len) {} = .ok r) :
    (setupMountpoints c s chrootFd).Emits notable (Requested.calls r) := by
  rw [setupMountpoints, h, ← List.append_nil (Requested.calls r)]
  exact (mountAll_emits c s chrootFd r).bind fun _ => rfl

/-- The call concerns neither credentials nor other processes. -/
def Plain (o : Sys) : Prop := ∀ m, notable o = some m → ∃ f, m = .enter f

theorem Quiet.plain {o : Sys} (h : Quiet o) : Plain o := by
  intro m hm
  rw [h] at hm
  cases hm

theorem setupMountpoints_plain (c : Caller) (s : Settings) (chrootFd : ℤ) :
    (setupMountpoints c s chrootFd).Uses Plain := by
  rcases h : sortItems s (s.requestedMountpoints.slots.take s.requestedMountpoints.len) {}
    with why | r
  · rw [setupMountpoints, h]
    trivial
  · refine (setupMountpoints_emits c s chrootFd h).uses.mono fun o hcalls m hm => ?_
    have hmem := hcalls m hm
    simp only [Requested.calls, List.cons_append, List.mem_cons, List.mem_append,
      List.mem_map] at hmem
    rcases hmem with rfl | ⟨_, -, rfl⟩ | rfl | ⟨_, -, rfl⟩ <;> exact ⟨_, rfl⟩

end HasherPriv.Chroot.Notable
