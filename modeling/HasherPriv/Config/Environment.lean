/- GID: HasherPriv/Config/Environment
   layer: configuration
   source: caller_config.c, x11.c
   digest: What the environment of a client can change: it tightens limits and leaves the rest. -/

import HasherPriv.Config.Layering
import Mathlib.Order.WithBot

set_option autoImplicit false
set_option relaxedAutoImplicit false

namespace HasherPriv.Config.Environment

open Foundations.ByteString
open Foundations.Numerals
open Foundations.Program
open CallerData
open ListOptions
open CallerConfig
open Layering
open Chroot.Syscall

/-! The X11 variables of `x11.c`. -/

/-- `x11_connect_method`. -/
inductive ConnectMethod
  | unix
  | inet
  deriving DecidableEq

structure X11 where
  display : Option Bytes := none
  key : Option Bytes := none
  dataLen : ℕ := 0
  connectMethod : Option ConnectMethod := none
  connectName : Option Bytes := none
  connectPort : ℕ := 0
  shareCallerNetwork : Bool := false
  deriving DecidableEq

/-- `strrchr`: what stands before the last such byte, and what stands behind it. -/
def strrchr (c : UInt8) : Bytes → Option (Bytes × Bytes)
  | [] => none
  | b :: s =>
      match strrchr c s with
      | some (front, back) => some (b :: front, back)
      | none => if b = c then some ([], s) else none

def unrecognized (display : Bytes) : String :=
  let display := text display
  s!"Unrecognized DISPLAY={display}, X11 forwarding disabled"

/-- `x11_parse_display`: the variables, and the complaint if it fails. -/
def x11ParseDisplay (x : X11) : X11 × Except (List String) Unit :=
  match x.display with
  | none => (x, .error [])
  | some display =>
      match strrchr 58 display with
      | none => (x, .error [unrecognized display])
      | some (name, number) =>
          let n := strtoul 10 number
          let x := { x with connectName := some name, connectPort := n.value }
          -- the name ends where the colon was, also in the message
          if (n.rest ≠ [] ∧ n.rest.head? ≠ some 46) ∨ 100 < n.value then
            (x, .error [unrecognized name])
          else if name = [] then ({ x with connectMethod := some .unix }, .ok ())
          else if (strrchr 47 name).map Prod.snd = some (str "unix") then
            ({ x with connectMethod := some .unix }, .ok ())
          else ({ x with connectMethod := some .inet, shareCallerNetwork := true }, .ok ())

def x11DropDisplay (x : X11) : X11 := { x with display := none, key := none, dataLen := 0 }

/-- What `parse_env` does once it has read the display and the key. -/
def x11Setup (x : X11) : X11 × List String :=
  match x.display, x.key with
  | some _, some key =>
      if key.length % 2 = 1 then
        (x11DropDisplay x, ["Invalid X11 authentication data"])
      else
        match x11ParseDisplay { x with dataLen := key.length / 2 } with
        | (x, .ok ()) => (if x.dataLen = 0 then x11DropDisplay x else x, [])
        | (x, .error messages) => (x11DropDisplay x, messages)
  | _, _ => (if x.dataLen = 0 then x11DropDisplay x else x, [])

/-! `parse_env` with all its variables. -/

/-- The variables that `parse_env` sets, and the messages that it logs. -/
structure Variables where
  settings : Settings := {}
  x11 : X11 := {}
  log : List String := []
  deriving DecidableEq

/-- A variable that is set and not empty. -/
def getenvNonempty (env : List Bytes) (name : Bytes) : Option Bytes :=
  match getenv env name with
  | none | some [] => none
  | some e => some e

/-- The X11 variables of `parse_env`. -/
def parseX11Env (env : Option (List Bytes)) (x : X11) : X11 × List String :=
  match env with
  | none => (x, [])
  | some env =>
      x11Setup { x with
        display := (getenvNonempty env (str "XAUTH_DISPLAY")).or x.display
        key := (getenvNonempty env (str "XAUTH_KEY")).or x.key }

/-- `parse_env`. The X11 variables stand between the others, where nothing depends on them. -/
def parseEnvironment (env : Option (List Bytes)) (v : Variables) : Except String Variables := do
  let settings ← parseEnv env v.settings
  let (x11, messages) := parseX11Env env v.x11
  return { settings, x11, log := v.log ++ messages }

theorem parseEnvironment_ok {env : Option (List Bytes)} {v w : Variables}
    (h : parseEnvironment env v = .ok w) :
    parseEnv env v.settings = .ok w.settings ∧ w.x11 = (parseX11Env env v.x11).1 := by
  obtain ⟨settings, hsettings, h⟩ := bind_eq_ok h
  obtain rfl := Except.ok.inj h
  exact ⟨hsettings, rfl⟩

/-- A display that is recognized is kept, with a way to reach it. -/
theorem x11ParseDisplay_ok {x y : X11} (h : x11ParseDisplay x = (y, .ok ())) :
    y.display = x.display ∧ y.key = x.key ∧ y.dataLen = x.dataLen ∧ y.connectMethod ≠ none := by
  unfold x11ParseDisplay at h
  split at h
  · cases h
  · split at h
    · cases h
    · dsimp only at h
      split_ifs at h
      · cases h
      · obtain rfl := (Prod.mk.inj h).1
        exact ⟨rfl, rfl, rfl, Option.some_ne_none _⟩
      · obtain rfl := (Prod.mk.inj h).1
        exact ⟨rfl, rfl, rfl, Option.some_ne_none _⟩
      · obtain rfl := (Prod.mk.inj h).1
        exact ⟨rfl, rfl, rfl, Option.some_ne_none _⟩

/-! Limits, of which 0 is none. -/

/-- How much a limit allows. -/
def allows (n : ℕ) : WithTop ℕ := if n = 0 then ⊤ else n

theorem allows_tighten (pval val : ℕ) :
    allows (if pval = 0 ∨ (0 < val ∧ val < pval) then val else pval) =
      min (allows pval) (allows val) := by
  by_cases hpval : pval = 0
  · have htop : allows pval = ⊤ := if_pos hpval
    rw [if_pos (Or.inl hpval), htop, min_eq_right le_top]
  · by_cases hval : val = 0
    · have htop : allows val = ⊤ := if_pos hval
      rw [if_neg (by omega), htop, min_eq_left le_top]
    · unfold allows
      rw [if_neg hpval, if_neg hval]
      by_cases hlt : val < pval
      · rw [if_pos (Or.inr ⟨Nat.pos_of_ne_zero hval, hlt⟩), if_neg hval]
        exact (min_eq_right (WithTop.coe_le_coe.mpr (Nat.le_of_lt hlt))).symm
      · rw [if_neg (not_or.mpr ⟨hpval, fun h => hlt h.2⟩), if_neg hpval]
        exact (min_eq_left (WithTop.coe_le_coe.mpr (Nat.le_of_not_lt hlt))).symm

/-- The limits of `struct wlimit`. -/
inductive Wlimit
  | timeElapsed
  | timeIdle
  | bytesWritten
  deriving DecidableEq

/-- The option, and the variable of the environment. -/
def Wlimit.name : Wlimit → Bytes
  | timeElapsed => str "wlimit_time_elapsed"
  | timeIdle => str "wlimit_time_idle"
  | bytesWritten => str "wlimit_bytes_written"

def Wlimit.get : Wlimit → Settings → ℕ
  | timeElapsed => Settings.timeElapsed
  | timeIdle => Settings.timeIdle
  | bytesWritten => Settings.bytesWritten

/-- The value of the last directive, 0 if there is none. -/
def configured (c : Caller) (files : List (List Bytes)) (w : Wlimit) : ℕ :=
  said (optStr2ul [] · []) (lastAssigned c files w.name) 0

/-- The value of the variable, 0 if it is not set or empty. -/
def requested (env : Option (List Bytes)) (w : Wlimit) : ℕ :=
  said (optStr2ul [] · []) (env.bind fun env => getenv env w.name) 0

theorem envWlim_allows {env : List Bytes} {w : Wlimit} {pval n : ℕ}
    (h : envWlim env w.name pval = .ok n) :
    allows n = min (allows pval) (allows (requested (some env) w)) := by
  have hnone : ∀ e, e = none ∨ e = some [] → said (optStr2ul [] · []) e 0 = 0 := by
    rintro e (rfl | rfl) <;> rfl
  unfold requested
  rw [Option.bind_some]
  unfold envWlim at h
  split at h
  · next hvar =>
      obtain rfl := Except.ok.inj h
      rw [hnone _ (Or.inl hvar)]
      exact (min_eq_left le_top).symm
  · next hvar =>
      obtain rfl := Except.ok.inj h
      rw [hnone _ (Or.inr hvar)]
      exact (min_eq_left le_top).symm
  · next e hset hvar =>
      obtain ⟨val, hval, h⟩ := bind_eq_ok h
      obtain rfl := Except.ok.inj h
      have hsaid : said (optStr2ul [] · []) (getenv env w.name) 0 = val := by
        rw [hvar]
        apply said_some
        rw [← optStr2ul_toOption w.name e (str "environment"), hval]
        rfl
      rw [hsaid, ← allows_tighten]
      simp only [Bool.false_eq_true, false_or]

/-! The property. -/

/-- What is none of the environment's business is the same. -/
structure SameConfiguration (s t : Settings) : Prop where
  user1 : t.changeUser1 = s.changeUser1
  user2 : t.changeUser2 = s.changeUser2
  uid1 : t.changeUid1 = s.changeUid1
  uid2 : t.changeUid2 = s.changeUid2
  gid1 : t.changeGid1 = s.changeGid1
  gid2 : t.changeGid2 = s.changeGid2
  prefixes : t.prefixes = s.prefixes
  umask : t.changeUmask = s.changeUmask
  nice : t.changeNice = s.changeNice
  nproc : t.changeNproc = s.changeNproc
  rlimits : t.changeRlimit = s.changeRlimit
  devices : t.allowedDevices = s.allowedDevices
  mountpoints : t.allowedMountpoints = s.allowedMountpoints

/-- The effect of `parse_env` on the settings. -/
theorem parseEnv_effect {env : Option (List Bytes)} {s t : Settings}
    (h : parseEnv env s = .ok t) :
    SameConfiguration s t ∧
      ∀ w : Wlimit, allows (w.get t) = min (allows (w.get s)) (allows (requested env w)) := by
  rcases env with _ | env
  · obtain rfl := Except.ok.inj h
    refine ⟨⟨rfl, rfl, rfl, rfl, rfl, rfl, rfl, rfl, rfl, rfl, rfl, rfl, rfl⟩, fun w => ?_⟩
    exact (min_eq_left le_top).symm
  · obtain ⟨timeElapsed, helapsed, h⟩ := bind_eq_ok h
    obtain ⟨timeIdle, hidle, h⟩ := bind_eq_ok h
    obtain ⟨bytesWritten, hwritten, h⟩ := bind_eq_ok h
    obtain ⟨makedevConsole, -, h⟩ := bind_eq_ok h
    obtain ⟨usePty, -, h⟩ := bind_eq_ok h
    obtain ⟨shareIpc, -, h⟩ := bind_eq_ok h
    obtain ⟨shareNetwork, -, h⟩ := bind_eq_ok h
    obtain ⟨shareUts, -, h⟩ := bind_eq_ok h
    obtain rfl := Except.ok.inj h
    have hwlim : ∀ t : Settings, t.timeElapsed = timeElapsed → t.timeIdle = timeIdle →
        t.bytesWritten = bytesWritten → ∀ w : Wlimit,
        allows (w.get t) = min (allows (w.get s)) (allows (requested (some env) w)) := by
      rintro t rfl rfl rfl w
      cases w with
      | timeElapsed => exact @envWlim_allows env .timeElapsed _ _ helapsed
      | timeIdle => exact @envWlim_allows env .timeIdle _ _ hidle
      | bytesWritten => exact @envWlim_allows env .bytesWritten _ _ hwritten
    split
    · exact ⟨⟨rfl, rfl, rfl, rfl, rfl, rfl, rfl, rfl, rfl, rfl, rfl, rfl, rfl⟩, hwlim _ rfl rfl rfl⟩
    · exact ⟨⟨rfl, rfl, rfl, rfl, rfl, rfl, rfl, rfl, rfl, rfl, rfl, rfl, rfl⟩, hwlim _ rfl rfl rfl⟩

/-! The limits of the configuration. -/

theorem checkUser_reads (f : Floors) (c : Caller) (userName : Option Bytes) (name : String) :
    (checkUser f c userName name).Uses ReadsNothing := by
  rcases userName with _ | _ | ⟨b, user⟩
  · trivial
  · trivial
  · refine ⟨trivial, fun pw => ?_⟩
    rcases pw with _ | pw
    · trivial
    · change Prog.Uses _ (ite _ _ _)
      split_ifs <;> trivial

theorem checkUsers_reads (f : Floors) (c : Caller) (s : Settings) :
    (checkUsers f c s).Uses ReadsNothing := by
  refine (checkUser_reads f c s.changeUser1 "user1").bind fun user1 => ?_
  refine (checkUser_reads f c s.changeUser2 "user2").bind fun user2 => ?_
  change Prog.Uses _ (ite _ _ _)
  split_ifs <;> trivial

theorem checkUsers_wlimit {f : Floors} {c : Caller} {s t : Settings} {tr : List (Event SysRes)}
    (h : Runs (checkUsers f c s) tr (.returned t)) (w : Wlimit) : w.get t = w.get s := by
  obtain ⟨user1, t₁, t₂, -, -, h⟩ := returns_bind.mp h
  obtain ⟨user2, t₃, t₄, -, -, h⟩ := returns_bind.mp h
  change Runs (ite _ _ _) _ _ at h
  split_ifs at h
  · exact (returns_die h).elim
  · exact (returns_die h).elim
  · exact (returns_die h).elim
  · obtain ⟨-, rfl⟩ := returns_ret.mp h
    cases w <;> rfl

theorem configureCaller_wlimit {f : Floors} {c : Caller} {s : Settings}
    {tr : List (Event SysRes)} (h : Runs (configureCaller f c {}) tr (.returned s)) (w : Wlimit) :
    w.get s = configured c (contents tr) w := by
  rw [configureCaller_eq] at h
  obtain ⟨s₀, t₀, t₁, rfl, hload, h⟩ := returns_bind.mp h
  obtain ⟨saved, t₂, t₃, rfl, hchdir, hcheck⟩ := returns_bind.mp h
  rw [contents_append, contents_append, contents_of_uses hchdir (safeChdir_reads _ _ _ _),
    contents_of_uses hcheck (checkUsers_reads f c s₀), List.append_nil, List.append_nil,
    checkUsers_wlimit hcheck]
  have hlast := (loadConfigs_last hload).2
  have hget : w.get (inUse s₀) = w.get s₀ := by
    cases w <;> rfl
  rw [← hget, hlast]
  cases w <;> rfl

/-- In every run of `configure_caller` that returns, and for every environment that is accepted
then: each limit is the minimum of what the last directive and the environment say, so it is never
laxer than the configuration, and the rest of the configuration stays as it is. -/
theorem environment_only_tightens {f : Floors} {c : Caller} {s : Settings}
    {tr : List (Event SysRes)} {env : Option (List Bytes)} {x : X11} {log : List String}
    {v : Variables} (hconf : Runs (configureCaller f c {}) tr (.returned s))
    (henv : parseEnvironment env ⟨s, x, log⟩ = .ok v) :
    (∀ w : Wlimit,
      allows (w.get v.settings) =
        min (allows (configured c (contents tr) w)) (allows (requested env w)) ∧
      allows (w.get v.settings) ≤ allows (configured c (contents tr) w)) ∧
      SameConfiguration s v.settings := by
  obtain ⟨hsame, hlimits⟩ := parseEnv_effect (parseEnvironment_ok henv).1
  refine ⟨fun w => ?_, hsame⟩
  have hmin := hlimits w
  have hconfigured := configureCaller_wlimit hconf w
  rw [show w.get (Variables.settings ⟨s, x, log⟩) = configured c (contents tr) w from hconfigured]
    at hmin
  refine ⟨hmin, ?_⟩
  rw [hmin]
  exact min_le_left _ _

/-! A file that limits two things, and a client that asks for all three. -/

private def limitedCaller : Caller := ⟨str "u", str "/home/u", 500, 500, 0⟩

private def limitedFiles : List (List Bytes) :=
  [[str "user1=a\n", str "user2=b\n", str "wlimit_time_idle=9\n"],
    [str "wlimit_time_idle=7\n", str "wlimit_bytes_written=4\n"]]

private def limitedEnv : List Bytes :=
  [str "wlimit_time_idle=8", str "wlimit_bytes_written=3", str "wlimit_time_elapsed=2"]

private def limitedAnswer : List (List Bytes) → (o : Sys) → Option (SysRes o × List (List Bytes))
  | files, .getpwnam name =>
      let uid := if name = str "a" then 600 else 601
      some (some ⟨some name, uid, uid⟩, files)
  | files, o => filesAnswer files o

private def limitedRun : List (Event SysRes) :=
  ((configureCaller {} limitedCaller {}).drive limitedAnswer limitedFiles).1

private def limitedSettings : Settings :=
  { changeUser1 := some (str "a"), changeUid1 := 600, changeGid1 := 600
    changeUser2 := some (str "b"), changeUid2 := 601, changeGid2 := 601
    timeIdle := 7, bytesWritten := 4 }

private def tightened : Variables where
  settings := { limitedSettings with timeElapsed := 2, timeIdle := 7, bytesWritten := 3 }

theorem environment_only_tightens_sample :
    allows 2 = min (allows (configured limitedCaller (contents limitedRun) .timeElapsed))
        (allows (requested (some limitedEnv) .timeElapsed)) ∧
      allows 7 = min (allows (configured limitedCaller (contents limitedRun) .timeIdle))
        (allows (requested (some limitedEnv) .timeIdle)) ∧
      allows 3 = min (allows (configured limitedCaller (contents limitedRun) .bytesWritten))
        (allows (requested (some limitedEnv) .bytesWritten)) ∧
      SameConfiguration limitedSettings tightened.settings := by
  have hstop : ((configureCaller {} limitedCaller {}).drive limitedAnswer limitedFiles).2 =
      .returned limitedSettings := by decide
  have henv : parseEnvironment (some limitedEnv) ⟨limitedSettings, {}, []⟩ = .ok tightened := by
    decide
  obtain ⟨hlimits, hsame⟩ := environment_only_tightens (Prog.runs_of_drive hstop) henv
  exact ⟨(hlimits .timeElapsed).1, (hlimits .timeIdle).1, (hlimits .bytesWritten).1, hsame⟩

end HasherPriv.Config.Environment
