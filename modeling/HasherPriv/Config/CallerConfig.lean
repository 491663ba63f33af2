/- GID: HasherPriv/Config/CallerConfig
   layer: configuration
   source: caller_config.c, opt_parse.c
   digest: The configuration of a caller: its options, its files and the checks at the end. -/

import HasherPriv.Config.FileConfig
import HasherPriv.Chroot.Chdiruid

set_option autoImplicit false
set_option relaxedAutoImplicit false

namespace HasherPriv.Config.CallerConfig

open Foundations.ByteString
open Foundations.Numerals
open Foundations.Program
open CallerData
open ListOptions
open FileConfig
open Chroot.Syscall
open Chroot.Chdir
open Chroot.Chdiruid

/-! `opt_parse.c`. -/

def optBadName {α : Type} (name fname : Bytes) : Except String α :=
  let file := text fname
  let opt := text name
  .error s!"{file}: unrecognized option: {opt}"

def optBadValue {α : Type} (name value fname : Bytes) : Except String α :=
  let file := text fname
  let opt := text name
  let val := text value
  .error s!"{file}: invalid value for \"{opt}\" option: {val}"

def optStr2ul (name value fname : Bytes) : Except String ℕ :=
  let n := strtoul 10 value
  if value = [] ∨ n.rest ≠ [] ∨ (n.value = ulongMax ∧ n.erange) then optBadValue name value fname
  else .ok n.value

def optStr2bool (name value fname : Bytes) : Except String Bool :=
  if value = [] ∨ strcaseEq value (str "no") ∨ strcaseEq value (str "false") ∨
      strcaseEq value (str "0") then .ok false
  else if strcaseEq value (str "yes") ∨ strcaseEq value (str "true") ∨
      strcaseEq value (str "1") then .ok true
  else
    let file := text fname
    let opt := text name
    let val := text value
    .error s!"{file}: invalid value \"{val}\" for \"{opt}\" option"

/-! The values of single options. -/

def str2umask (name value filename : Bytes) : Except String ℕ :=
  let n := strtoul 8 value
  if value = [] ∨ n.rest ≠ [] ∨ 0o777 < n.value then optBadValue name value filename
  else .ok n.value

def str2nice (name value filename : Bytes) : Except String ℕ :=
  let n := strtoul 10 value
  if value = [] ∨ n.rest ≠ [] ∨ 19 < n.value then optBadValue name value filename
  else .ok n.value

def str2nproc (name value filename : Bytes) : Except String ℕ :=
  let n := strtol 10 value
  if value = [] ∨ n.rest ≠ [] ∨ n.value < 1 then optBadValue name value filename
  else .ok n.value.toNat

/-- `RLIM_INFINITY`. -/
def rlimInfinity : ℕ := ulongMax

def str2rlim (name value filename : Bytes) : Except String ℕ :=
  let n := strtoul 10 value
  if value = [] then optBadValue name value filename
  else if strcaseEq value (str "inf") then .ok rlimInfinity
  else if n.rest ≠ [] ∨ (n.value = ulongMax ∧ n.erange) then optBadValue name value filename
  else .ok n.value

/-- `set_rlim`, on the table of limits. -/
def setRlim (name value : Bytes) (hard : Bool) (optname filename : Bytes) :
    List Rlimit → Except String (List Rlimit)
  | [] => optBadName optname filename
  | p :: table =>
      if strcaseEq name p.name then do
        let n ← str2rlim optname value filename
        return (if hard then { p with hard := some n } else { p with soft := some n }) :: table
      else (setRlim name value hard optname filename table).map (p :: ·)

/-- `parse_rlim`. -/
def parseRlim (name value optname filename : Bytes) (table : List Rlimit) :
    Except String (List Rlimit) :=
  if hasCasePrefix (str "hard_") name then
    setRlim (name.drop 5) value true optname filename table
  else if hasCasePrefix (str "soft_") name then
    setRlim (name.drop 5) value false optname filename table
  else optBadName optname filename

/-- `modify_wlim`: the environment can only tighten a limit. -/
def modifyWlim (pval : ℕ) (value optname filename : Bytes) (isSystem : Bool) :
    Except String ℕ := do
  let val ← optStr2ul optname value filename
  return if isSystem ∨ pval = 0 ∨ (0 < val ∧ val < pval) then val else pval

/-- `parse_wlim`. -/
def parseWlim (name value optname filename : Bytes) (s : Settings) : Except String Settings :=
  if strcaseEq (str "time_elapsed") name then do
    return { s with timeElapsed := ← modifyWlim s.timeElapsed value optname filename true }
  else if strcaseEq (str "time_idle") name then do
    return { s with timeIdle := ← modifyWlim s.timeIdle value optname filename true }
  else if strcaseEq (str "bytes_written") name then do
    return { s with bytesWritten := ← modifyWlim s.bytesWritten value optname filename true }
  else optBadName optname filename

/-- `set_caller_name_value`. -/
def setCallerNameValue (callerHome filename name value : Bytes) (s : Settings) :
    Except String Settings :=
  if strcaseEq (str "user1") name then .ok { s with changeUser1 := some value }
  else if strcaseEq (str "user2") name then .ok { s with changeUser2 := some value }
  else if strcaseEq (str "prefix") name then do
    return { s with prefixes := ← parsePrefixList callerHome filename name value }
  else if strcaseEq (str "umask") name then do
    return { s with changeUmask := ← str2umask name value filename }
  else if strcaseEq (str "nice") name then do
    return { s with changeNice := ← str2nice name value filename }
  else if strcaseEq (str "nproc") name then do
    return { s with changeNproc := ← str2nproc name value filename }
  else if strcaseEq (str "allowed_devices") name then
    .ok { s with allowedDevices := parseStrList value s.allowedDevices }
  else if strcaseEq (str "allowed_mountpoints") name then
    .ok { s with allowedMountpoints := parseStrList value s.allowedMountpoints }
  else if strcaseEq (str "allow_ttydev") name then do
    let _ ← optStr2bool name value filename
    return s
  else if hasCasePrefix (str "rlimit_") name then do
    return { s with changeRlimit := ← parseRlim (name.drop 7) value name filename s.changeRlimit }
  else if hasCasePrefix (str "wlimit_") name then
    parseWlim (name.drop 7) value name filename s
  else optBadName name filename

/-- `load_caller_config`. -/
def loadCallerConfig (c : Caller) (fname : Bytes) (s : Settings) : SysProg Settings :=
  loadConfig (owners c s) fname
    (freadConfigNameValue (setCallerNameValue c.home fname) fname s)

/-- `check_user`: the uid and the gid of the user. -/
def checkUser (f : Floors) (c : Caller) (userName : Option Bytes) (name : String) :
    SysProg (UInt32 × UInt32) :=
  match userName with
  | none | some [] => .die s!"undefined: {name}"
  | some userName => do
      let user := text userName
      match ← call (.getpwnam userName) with
      | none => .die s!"{name}: {user} lookup failure"
      | some pw =>
          let uid := pw.uid
          let gid := pw.gid
          if pw.name = none then .die s!"{name}: {user} lookup failure"
          else if pw.name ≠ some userName then .die s!"{name}: {user}: name mismatch"
          else if ¬ f.validUid uid then .die s!"{name}: {user}: invalid uid: {uid}"
          else if ¬ f.validGid gid then .die s!"{name}: {user}: invalid gid: {gid}"
          else if c.user = userName then .die s!"{name}: {user}: name coincides with caller"
          else if c.uid = uid then .die s!"{name}: {user}: uid coincides with caller"
          else if c.gid = gid then .die s!"{name}: {user}: gid coincides with caller"
          else return (uid, gid)

/-- The file of the caller itself: by uid, else by name. -/
def loadUserConfig (c : Caller) (s : Settings) : SysProg Settings := do
  let fname := decimal c.uid.toNat
  if ← call (.access fname) then loadCallerConfig c fname s
  else loadCallerConfig c c.user s

/-- The file of the caller's number, which has to name the users anew. -/
def loadNumberedConfig (c : Caller) (s : Settings) : SysProg Settings :=
  if c.num ≠ 0 then do
    let s := { s with changeUser1 := none, changeUser2 := none }
    let fname := decimal c.uid.toNat ++ 58 :: decimal c.num.toNat
    if ← call (.access fname) then loadCallerConfig c fname s
    else loadCallerConfig c (c.user ++ 58 :: decimal c.num.toNat) s
  else .ret s

/-- The last part of `configure_caller`. -/
def checkUsers (f : Floors) (c : Caller) (s : Settings) : SysProg Settings := do
  let (uid1, gid1) ← checkUser f c s.changeUser1 "user1"
  let (uid2, gid2) ← checkUser f c s.changeUser2 "user2"
  if s.changeUser1 = s.changeUser2 then .die "user1 coincides with user2"
  else if uid1 = uid2 then .die "uid of user1 coincides with uid of user2"
  else if gid1 = gid2 then .die "gid of user1 coincides with gid of user2"
  else
    return { s with changeUid1 := uid1, changeGid1 := gid1, changeUid2 := uid2, changeGid2 := gid2 }

/-- `configure_caller`. -/
def configureCaller (f : Floors) (c : Caller) (s : Settings) : SysProg Settings := do
  let _ ← safeChdir (owners c s) .rootOk (str "/") []
  let _ ← safeChdir (owners c s) .rootOk (str "etc/hasher-priv") []
  let s ← loadCallerConfig c (str "system") s
  let _ ← safeChdir (owners c s) .rootOk (str "user.d") []
  let s ← loadUserConfig c s
  let s ← loadNumberedConfig c s
  let _ ← safeChdir (owners c s) .rootOk (str "/") []
  checkUsers f c s

/-! `parse_env`. -/

/-- `getenv`. -/
def getenv (env : List Bytes) (name : Bytes) : Option Bytes :=
  (env.find? fun e => name ++ [61] <+: e).map fun e => e.drop (name.length + 1)

/-- A limit that a variable of the environment may tighten. -/
def envWlim (env : List Bytes) (name : Bytes) (pval : ℕ) : Except String ℕ :=
  match getenv env name with
  | none | some [] => .ok pval
  | some e => modifyWlim pval e name (str "environment") false

/-- A truth value that a variable of the environment may set. -/
def envBool {α : Type} (env : List Bytes) (name : Bytes) (old : α) (set : Bool → α) :
    Except String α :=
  match getenv env name with
  | none => .ok old
  | some e => (optStr2bool name e (str "environment")).map set

/-- `parse_env`, but for the X11 variables. -/
def parseEnv (env : Option (List Bytes)) (s : Settings) : Except String Settings :=
  match env with
  | none => .ok s
  | some env => do
      let s := { s with timeElapsed := ← envWlim env (str "wlimit_time_elapsed") s.timeElapsed }
      let s := { s with timeIdle := ← envWlim env (str "wlimit_time_idle") s.timeIdle }
      let s := { s with
        bytesWritten := ← envWlim env (str "wlimit_bytes_written") s.bytesWritten }
      let s := { s with
        makedevConsole := ← envBool env (str "makedev_console") s.makedevConsole id }
      let s := { s with usePty := ← envBool env (str "use_pty") s.usePty id }
      let s := { s with
        term := match getenv env (str "TERM") with
          | none | some [] => s.term
          | some e => if s.usePty then some e else s.term }
      let s := { s with shareIpc := ← envBool env (str "share_ipc") s.shareIpc some }
      let s := { s with shareNetwork := ← envBool env (str "share_network") s.shareNetwork some }
      let s := { s with shareUts := ← envBool env (str "share_uts") s.shareUts some }
      return match getenv env (str "requested_mountpoints") with
        | none => s
        | some e => { s with requestedMountpoints := parseStrList e s.requestedMountpoints }

end HasherPriv.Config.CallerConfig
