/- GID: HasherPriv/Config/ServerConfig
   layer: configuration
   source: server_config.c, opt_parse.c
   digest: The configuration of the daemon, which is what its last assignments say. -/

import HasherPriv.Config.Layering

set_option autoImplicit false
set_option relaxedAutoImplicit false

namespace HasherPriv.Config.ServerConfig

open Foundations.ByteString
open Foundations.LastWrite
open Foundations.Numerals
open Foundations.Program
open CallerData (Floors)
open CallerConfig
open FileConfig
open Layering
open Chroot.Syscall
open Chroot.Chdir

/-! The code. -/

def intMin : ℤ := -2 ^ 31
def intMax : ℤ := 2 ^ 31 - 1

/-- `LLONG_MAX`. -/
def llongMax : ℤ := 2 ^ 63 - 1

def optStr2int (name value fname : Bytes) : Except String Int32 :=
  let n := strtol 10 value
  if value = [] ∨ n.rest ≠ [] ∨ n.value < intMin ∨ intMax < n.value ∨
      (n.value = llongMax ∧ n.erange) then optBadValue name value fname
  else .ok (Int32.ofInt n.value)

/-- The variables of `server_config.c`. -/
structure Server where
  loglevel : Option Bytes := none
  pidfile : Option Bytes := none
  gid : UInt32 := 0
  floors : Floors := {}
  sessionTimeout : ℕ := 0
  accessGroup : Option Bytes := none
  deriving DecidableEq

/-- `set_server_access_gid`. -/
def setServerAccessGid (s : Server) : SysProg Server :=
  match s.accessGroup with
  | none | some [] => .die "undefined option: access_group"
  | some group => do
      let name := text group
      match ← call (.getgrnam group) with
      | none => .die s!"access_group: {name} lookup failure"
      | some gid => return { s with gid := gid }

/-- `set_server_name_value`. -/
def setServerNameValue (fname name value : Bytes) (s : Server) : Except String Server :=
  if strcaseEq (str "session_timeout") name then do
    return { s with sessionTimeout := ← optStr2ul name value fname }
  else if strcaseEq (str "loglevel") name then .ok { s with loglevel := some value }
  else if strcaseEq (str "pidfile") name then .ok { s with pidfile := some value }
  else if strcaseEq (str "access_group") name then .ok { s with accessGroup := some value }
  else if strcaseEq (str "min_uid") name then do
    let n ← optStr2int name value fname
    return { s with floors := { s.floors with minUid := n } }
  else if strcaseEq (str "min_gid") name then do
    let n ← optStr2int name value fname
    return { s with floors := { s.floors with minGid := n } }
  else optBadName name fname

/-- `load_server_config`. -/
def loadServerConfig (fname : Bytes) (s : Server) : SysProg Server :=
  loadConfig ⟨0, 0, 0⟩ fname (freadConfigNameValue (setServerNameValue fname) fname s)

/-- `configure_server`. -/
def configureServer (s : Server) : SysProg Server := do
  let _ ← safeChdir ⟨0, 0, 0⟩ .rootOk (str "/") []
  let _ ← safeChdir ⟨0, 0, 0⟩ .rootOk (str "etc/hasher-priv") []
  let s ← loadServerConfig (str "daemon.conf") s
  let _ ← safeChdir ⟨0, 0, 0⟩ .rootOk (str "/") []
  setServerAccessGid s

/-! The configuration that the last assignments make. -/

/-- Everything as its option says, or else as it is at the start. -/
def serverOf (last : Bytes → Option Bytes) : Server where
  loglevel := last (str "loglevel")
  pidfile := last (str "pidfile")
  floors :=
    { minUid := said (fun v => optStr2int [] v []) (last (str "min_uid")) 34
      minGid := said (fun v => optStr2int [] v []) (last (str "min_gid")) 34 }
  sessionTimeout := said (fun v => optStr2ul [] v []) (last (str "session_timeout")) 0
  accessGroup := last (str "access_group")

theorem serverOf_default : serverOf (fun _ => none) = {} := rfl

theorem optStr2int_toOption (name value fname : Bytes) :
    (optStr2int name value fname).toOption = (optStr2int [] value []).toOption := by
  unfold optStr2int optBadValue
  dsimp only
  split_ifs <;> rfl

/-- One assignment. -/
theorem setServer_last {fname : Bytes} {last : Bytes → Option Bytes} {s t : Server}
    {a : Assignment} (hs : s = serverOf last)
    (h : setServerNameValue fname a.name a.value s = .ok t) :
    t = serverOf (Function.update last a.key (some a.value)) := by
  rw [setServerNameValue] at h
  by_cases h1 : strcaseEq (str "session_timeout") a.name = true
  · rw [if_pos h1] at h
    obtain ⟨n, hn, h⟩ := bind_eq_ok h
    obtain rfl := Except.ok.inj h
    have hkey : a.key = str "session_timeout" := strcaseEq_iff.mp h1
    have hsaid : said (optStr2ul [] · []) (some a.value) 0 = n :=
      said_some (by rw [← optStr2ul_toOption a.name a.value fname, hn]; rfl)
    rw [hs, hkey]
    simp +decide [serverOf, hsaid]
  rw [if_neg h1] at h
  by_cases h2 : strcaseEq (str "loglevel") a.name = true
  · rw [if_pos h2] at h
    obtain rfl := Except.ok.inj h
    have hkey : a.key = str "loglevel" := strcaseEq_iff.mp h2
    rw [hs, hkey]
    simp +decide [serverOf]
  rw [if_neg h2] at h
  by_cases h3 : strcaseEq (str "pidfile") a.name = true
  · rw [if_pos h3] at h
    obtain rfl := Except.ok.inj h
    have hkey : a.key = str "pidfile" := strcaseEq_iff.mp h3
    rw [hs, hkey]
    simp +decide [serverOf]
  rw [if_neg h3] at h
  by_cases h4 : strcaseEq (str "access_group") a.name = true
  · rw [if_pos h4] at h
    obtain rfl := Except.ok.inj h
    have hkey : a.key = str "access_group" := strcaseEq_iff.mp h4
    rw [hs, hkey]
    simp +decide [serverOf]
  rw [if_neg h4] at h
  by_cases h5 : strcaseEq (str "min_uid") a.name = true
  · rw [if_pos h5] at h
    obtain ⟨n, hn, h⟩ := bind_eq_ok h
    obtain rfl := Except.ok.inj h
    have hkey : a.key = str "min_uid" := strcaseEq_iff.mp h5
    have hsaid : said (optStr2int [] · []) (some a.value) 34 = n :=
      said_some (by rw [← optStr2int_toOption a.name a.value fname, hn]; rfl)
    rw [hs, hkey]
    simp +decide [serverOf, hsaid]
  rw [if_neg h5] at h
  by_cases h6 : strcaseEq (str "min_gid") a.name = true
  · rw [if_pos h6] at h
    obtain ⟨n, hn, h⟩ := bind_eq_ok h
    obtain rfl := Except.ok.inj h
    have hkey : a.key = str "min_gid" := strcaseEq_iff.mp h6
    have hsaid : said (optStr2int [] · []) (some a.value) 34 = n :=
      said_some (by rw [← optStr2int_toOption a.name a.value fname, hn]; rfl)
    rw [hs, hkey]
    simp +decide [serverOf, hsaid]
  rw [if_neg h6] at h
  cases h

theorem loadServerConfig_last {fname : Bytes} {s : Server} {tr : List (Event SysRes)}
    (h : Runs (loadServerConfig fname {}) tr (.returned s)) :
    ∃ bufs, contents tr = [bufs] ∧ s = serverOf (lastIn (assignments bufs)) := by
  obtain ⟨bufs, hcontents, hfold⟩ := loadOptions_returned h
  refine ⟨bufs, hcontents, ?_⟩
  have hlast := foldlM_lastValue (R := fun last s => s = serverOf last) Assignment.key
    Assignment.value setServer_last serverOf_default.symm hfold
  simpa using hlast

/-- The group of those who may connect has a name and is known. -/
theorem setServerAccessGid_returned {s t : Server} {tr : List (Event SysRes)}
    (h : Runs (setServerAccessGid s) tr (.returned t)) :
    ∃ group gid, s.accessGroup = some group ∧ group ≠ [] ∧
      tr = [⟨.getgrnam group, some gid⟩] ∧ t = { s with gid := gid } := by
  rw [setServerAccessGid] at h
  cases hgroup : s.accessGroup with
  | none =>
      rw [hgroup] at h
      exact (returns_die h).elim
  | some group =>
      rw [hgroup] at h
      cases group with
      | nil => exact (returns_die h).elim
      | cons c group =>
          obtain ⟨answer, rest, rfl, hanswer⟩ := returns_op_bind.mp h
          clear h
          cases answer with
          | none => exact (returns_die hanswer).elim
          | some gid =>
              obtain ⟨rfl, rfl⟩ := returns_ret.mp hanswer
              exact ⟨_, gid, rfl, List.cons_ne_nil c group, rfl, rfl⟩

/-- For every content of `daemon.conf` that the daemon accepts: the file is read once, the
configuration is what its last assignments say, and the gid is that of the group that they name. -/
theorem server_last_writer_wins {s : Server} {tr : List (Event SysRes)}
    (h : Runs (configureServer {}) tr (.returned s)) :
    ∃ bufs group gid, contents tr = [bufs] ∧
      lastIn (assignments bufs) (str "access_group") = some group ∧ group ≠ [] ∧
      ⟨.getgrnam group, some gid⟩ ∈ tr ∧
      s = { serverOf (lastIn (assignments bufs)) with gid := gid } := by
  obtain ⟨_, t₁, _, rfl, h₁, h⟩ := returns_bind.mp h
  obtain ⟨_, t₂, _, rfl, h₂, h⟩ := returns_bind.mp h
  obtain ⟨s₁, t₃, _, rfl, h₃, h⟩ := returns_bind.mp h
  obtain ⟨_, t₄, t₅, rfl, h₄, h₅⟩ := returns_bind.mp h
  obtain ⟨bufs, hread, rfl⟩ := loadServerConfig_last h₃
  obtain ⟨group, gid, hgroup, hne, rfl, rfl⟩ := setServerAccessGid_returned h₅
  refine ⟨bufs, group, gid, ?_, hgroup, hne, ?_, rfl⟩
  · rw [contents_append, contents_append, contents_append, contents_append,
      contents_of_uses h₁ (safeChdir_reads _ _ _ _), contents_of_uses h₂ (safeChdir_reads _ _ _ _),
      contents_of_uses h₄ (safeChdir_reads _ _ _ _), hread]
    rfl
  · simp

/-- A machine with one group. -/
private def daemonAnswer (files : List (List Bytes)) :
    (o : Sys) → Option (SysRes o × List (List Bytes))
  | .getgrnam name => some (if name = str "hashman" then some 77 else none, files)
  | o => filesAnswer files o

example :
    ((configureServer {}).drive daemonAnswer [[str "min_uid=500\n", str "access_group=users\n",
      str "MIN_UID = 1000\n", str "Access_Group=hashman\n"]]).2 =
      .returned { gid := 77, floors := { minUid := 1000 }, accessGroup := some (str "hashman") } := by
  decide

end HasherPriv.Config.ServerConfig
