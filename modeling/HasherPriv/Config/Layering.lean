/- GID: HasherPriv/Config/Layering
   layer: configuration
   source: caller_config.c
   digest: Of all files of a caller the last assignment to each option is what counts. -/

import HasherPriv.Config.CallerConfig
import HasherPriv.Foundations.LastWrite

set_option autoImplicit false
set_option relaxedAutoImplicit false

namespace HasherPriv.Config.Layering

open Foundations.ByteString
open Foundations.Numerals
open Foundations.Program
open Foundations.LastWrite
open CallerData
open ListOptions
open FileConfig
open CallerConfig
open Chroot.Syscall
open Chroot.Chdir
open Chroot.Chdiruid

/-! The assignments of a file. -/

structure Assignment where
  name : Bytes
  value : Bytes
  deriving DecidableEq

/-- The option: names are compared without case. -/
def Assignment.key (a : Assignment) : Bytes := a.name.map toLower

def assignment (buf : Bytes) : Option Assignment :=
  match parseLine buf with
  | .option name value => some ⟨name, value⟩
  | _ => none

def assignments (bufs : List Bytes) : List Assignment := bufs.filterMap assignment

/-- A file whose lines are all accepted is a run over its assignments. -/
theorem eachOption_assignments {σ : Type} {func : Bytes → Bytes → σ → Except String σ}
    {fname : Bytes} {line : ℕ} {bufs : List Bytes} {s t : σ}
    (h : eachOption func fname line bufs s = .ok t) :
    (assignments bufs).foldlM (fun s a => func a.name a.value s) s = .ok t := by
  induction bufs generalizing line s with
  | nil => exact h
  | cons buf bufs ih =>
      rw [eachOption] at h
      rw [assignments, List.filterMap_cons, assignment]
      cases hline : parseLine buf with
      | blank =>
          rw [hline] at h
          exact ih h
      | syntaxError =>
          rw [hline] at h
          cases h
      | option name value =>
          rw [hline] at h
          obtain ⟨s', hs', hrest⟩ := bind_eq_ok h
          simp only [List.foldlM_cons, hs']
          exact ih hrest

/-! The configuration that the last assignments make. -/

/-- The names of the table of limits. -/
def resources : List Bytes := ({} : Settings).changeRlimit.map Rlimit.name

def limit (value : Option Bytes) : Option ℕ := value.bind fun v => (str2rlim [] v []).toOption

def limitRow (last : Bytes → Option Bytes) (r : Bytes) : Rlimit where
  name := r
  hard := limit (last (str "rlimit_hard_" ++ r))
  soft := limit (last (str "rlimit_soft_" ++ r))

/-- `change_rlimit` after these last assignments. -/
def limitsOf (last : Bytes → Option Bytes) : List Rlimit := resources.map (limitRow last)

/-- What the value that was assigned last says, if any was. -/
def said {α : Type} (parse : Bytes → Except String α) (value : Option Bytes) (default : α) : α :=
  (value.bind fun v => (parse v).toOption).getD default

/-- The entries of a list option. -/
def listOf (value : Option Bytes) : StrList :=
  match value with
  | none => {}
  | some v => (parseStrList v {}).inUse

/-- The configuration after these last assignments, over the compiled in defaults. -/
def settingsOf (home : Bytes) (last : Bytes → Option Bytes) : Settings where
  changeUser1 := last (str "user1")
  changeUser2 := last (str "user2")
  prefixes := said (parsePrefixList home [] []) (last (str "prefix")) ⟨none, []⟩
  changeUmask := said (str2umask [] · []) (last (str "umask")) 0o22
  changeNice := said (str2nice [] · []) (last (str "nice")) 8
  changeNproc := said (str2nproc [] · []) (last (str "nproc")) 0
  allowedDevices := listOf (last (str "allowed_devices"))
  allowedMountpoints := listOf (last (str "allowed_mountpoints"))
  changeRlimit := limitsOf last
  timeElapsed := said (optStr2ul [] · []) (last (str "wlimit_time_elapsed")) 0
  timeIdle := said (optStr2ul [] · []) (last (str "wlimit_time_idle")) 0
  bytesWritten := said (optStr2ul [] · []) (last (str "wlimit_bytes_written")) 0

/-- The configuration without the room that its arrays have left. -/
def inUse (s : Settings) : Settings :=
  { s with
    allowedDevices := s.allowedDevices.inUse
    allowedMountpoints := s.allowedMountpoints.inUse }

theorem inUse_default (home : Bytes) : inUse {} = settingsOf home fun _ => none := rfl

/-! A value says the same in every file. -/

theorem optStr2ul_toOption (name value fname : Bytes) :
    (optStr2ul name value fname).toOption = (optStr2ul [] value []).toOption := by
  unfold optStr2ul optBadValue
  dsimp only
  split_ifs <;> rfl

theorem str2umask_toOption (name value fname : Bytes) :
    (str2umask name value fname).toOption = (str2umask [] value []).toOption := by
  unfold str2umask optBadValue
  dsimp only
  split_ifs <;> rfl

theorem str2nice_toOption (name value fname : Bytes) :
    (str2nice name value fname).toOption = (str2nice [] value []).toOption := by
  unfold str2nice optBadValue
  dsimp only
  split_ifs <;> rfl

theorem str2nproc_toOption (name value fname : Bytes) :
    (str2nproc name value fname).toOption = (str2nproc [] value []).toOption := by
  unfold str2nproc optBadValue
  dsimp only
  split_ifs <;> rfl

theorem str2rlim_toOption (name value fname : Bytes) :
    (str2rlim name value fname).toOption = (str2rlim [] value []).toOption := by
  unfold str2rlim optBadValue
  dsimp only
  split_ifs <;> rfl

theorem parsePrefix_ok {home fname name value path : Bytes}
    (h : parsePrefix home fname name value = .ok path) :
    parsePrefix home [] [] value = .ok path := by
  unfold parsePrefix at h ⊢
  dsimp only at h ⊢
  split_ifs at h ⊢ <;> exact h

theorem parsePrefixList_ok {home fname name value : Bytes} {list : PrefixList}
    (h : parsePrefixList home fname name value = .ok list) :
    parsePrefixList home [] [] value = .ok list := by
  have hpaths : ∀ {paths list : List Bytes}, paths.mapM (parsePrefix home fname name) = .ok list →
      paths.mapM (parsePrefix home [] []) = .ok list := by
    intro paths
    induction paths with
    | nil => exact fun h => h
    | cons path paths ih =>
        intro list h
        rw [List.mapM_cons] at h ⊢
        obtain ⟨p, hp, h⟩ := bind_eq_ok h
        obtain ⟨ps, hps, h⟩ := bind_eq_ok h
        rw [parsePrefix_ok hp, ih hps]
        exact h
  obtain ⟨paths, hpaths', h⟩ := bind_eq_ok h
  rw [parsePrefixList, hpaths hpaths']
  exact h

theorem said_some {α : Type} {parse : Bytes → Except String α} {value : Bytes} {x default : α}
    (h : (parse value).toOption = some x) : said parse (some value) default = x := by
  rw [said, Option.bind_some, h, Option.getD_some]

/-! One assignment. -/

theorem strcaseEq_iff {a b : Bytes} : strcaseEq a b = true ↔ b.map toLower = a.map toLower := by
  rw [strcaseEq, decide_eq_true_iff, eq_comm]

theorem map_toLower_of_isPrefix {pre s : Bytes} (h : hasCasePrefix pre s = true) :
    s.map toLower = pre.map toLower ++ (s.drop pre.length).map toLower := by
  conv_lhs => rw [← List.take_append_drop pre.length s]
  rw [List.map_append, strcaseEq_iff.mp h]

theorem limitsOf_update_of_ne {last : Bytes → Option Bytes} {key : Bytes}
    (h : (key.take 7 = str "rlimit_") = False) (value : Option Bytes) :
    limitsOf (Function.update last key value) = limitsOf last := by
  have hne : ∀ (pre r : Bytes), pre.take 7 = str "rlimit_" → pre.length = 12 → pre ++ r ≠ key := by
    rintro pre r hpre hlen rfl
    rw [List.take_append_of_le_length (by omega)] at h
    exact h.mp hpre
  rw [limitsOf, limitsOf]
  refine List.map_congr_left fun r _ => ?_
  rw [limitRow, Function.update_of_ne (hne _ r rfl rfl), Function.update_of_ne (hne _ r rfl rfl)]
  rfl

/-- An assignment to a limit of resources is one to nothing else. -/
theorem settingsOf_update_limit {home key : Bytes} {last : Bytes → Option Bytes}
    (h : key.take 7 = str "rlimit_") (value : Option Bytes) :
    settingsOf home (Function.update last key value) =
      { settingsOf home last with changeRlimit := limitsOf (Function.update last key value) } := by
  have hne : ∀ k : Bytes, k.take 7 ≠ str "rlimit_" → Function.update last key value k = last k := by
    rintro k hk
    refine Function.update_of_ne (fun he => hk ?_) _ _
    rw [he, h]
  simp only [settingsOf, hne (str "user1") (by decide), hne (str "user2") (by decide),
    hne (str "prefix") (by decide), hne (str "umask") (by decide), hne (str "nice") (by decide),
    hne (str "nproc") (by decide), hne (str "allowed_devices") (by decide),
    hne (str "allowed_mountpoints") (by decide), hne (str "wlimit_time_elapsed") (by decide),
    hne (str "wlimit_time_idle") (by decide), hne (str "wlimit_bytes_written") (by decide)]

/-- A resource is named as in the table. -/
theorem map_toLower_resource {r : Bytes} (h : r ∈ resources) : r.map toLower = r := by
  have hall : ∀ r ∈ resources, r.map toLower = r := by decide
  exact hall r h

theorem resources_nodup : resources.Nodup := by decide

def setLimit (hard : Bool) (n : ℕ) (p : Rlimit) : Rlimit :=
  if hard then { p with hard := some n } else { p with soft := some n }

/-- `set_rlim` changes one limit of the resource that it finds. -/
theorem setRlim_ok {name value optname filename : Bytes} {hard : Bool} {rs : List Bytes}
    {row : Bytes → Rlimit} {table : List Rlimit} (hrow : ∀ r, (row r).name = r)
    (hlower : ∀ r ∈ rs, r.map toLower = r) (hnodup : rs.Nodup)
    (h : setRlim name value hard optname filename (rs.map row) = .ok table) :
    ∃ n, (str2rlim optname value filename).toOption = some n ∧ name.map toLower ∈ rs ∧
      table = rs.map fun r => if r = name.map toLower then setLimit hard n (row r) else row r := by
  induction rs generalizing table with
  | nil => cases h
  | cons r rs ih =>
      obtain ⟨hr, hlower⟩ := List.forall_mem_cons.mp hlower
      obtain ⟨hmem, hnodup⟩ := List.nodup_cons.mp hnodup
      rw [List.map_cons, setRlim, hrow] at h
      by_cases hname : strcaseEq name r = true
      · rw [if_pos hname] at h
        obtain ⟨n, hn, h⟩ := bind_eq_ok h
        obtain rfl := Except.ok.inj h
        have hkey : name.map toLower = r := by rw [← strcaseEq_iff.mp hname, hr]
        refine ⟨n, by rw [hn]; rfl, by simp [hkey], ?_⟩
        rw [List.map_cons, if_pos hkey.symm]
        have hrest : ∀ r' ∈ rs, r' ≠ name.map toLower := by
          rintro r' hr' rfl
          exact hmem (hkey ▸ hr')
        refine congrArg₂ List.cons (by rw [setLimit, hrow]) (List.map_congr_left fun r' hr' => ?_)
        rw [if_neg (hrest r' hr')]
      · rw [if_neg hname] at h
        cases hrest : setRlim name value hard optname filename (rs.map row) with
        | error why =>
            rw [hrest] at h
            cases h
        | ok rest =>
            rw [hrest] at h
            obtain rfl := Except.ok.inj h
            obtain ⟨n, hn, hin, rfl⟩ := ih hlower hnodup hrest
            refine ⟨n, hn, List.mem_cons_of_mem _ hin, ?_⟩
            rw [List.map_cons, if_neg]
            intro heq
            exact hname (strcaseEq_iff.mpr (by rw [hr, heq]))

theorem hard_ne_soft (r r' : Bytes) : str "rlimit_hard_" ++ r ≠ str "rlimit_soft_" ++ r' := by
  intro h
  have hpre := (List.append_inj h (by decide)).1
  exact absurd hpre (by decide)

theorem limitsOf_update_hard (last : Bytes → Option Bytes) (r₀ : Bytes) {value : Bytes} {n : ℕ}
    (hn : limit (some value) = some n) :
    limitsOf (Function.update last (str "rlimit_hard_" ++ r₀) (some value)) =
      resources.map fun r => if r = r₀ then setLimit true n (limitRow last r)
        else limitRow last r := by
  refine List.map_congr_left fun r _ => ?_
  rw [limitRow, Function.update_of_ne (hard_ne_soft r₀ r).symm]
  by_cases hr : r = r₀
  · rw [hr, if_pos rfl, Function.update_self, hn]
    rfl
  · rw [if_neg hr, Function.update_of_ne fun he => hr (List.append_cancel_left he)]
    rfl

theorem limitsOf_update_soft (last : Bytes → Option Bytes) (r₀ : Bytes) {value : Bytes} {n : ℕ}
    (hn : limit (some value) = some n) :
    limitsOf (Function.update last (str "rlimit_soft_" ++ r₀) (some value)) =
      resources.map fun r => if r = r₀ then setLimit false n (limitRow last r)
        else limitRow last r := by
  refine List.map_congr_left fun r _ => ?_
  rw [limitRow, Function.update_of_ne (hard_ne_soft r r₀)]
  by_cases hr : r = r₀
  · rw [hr, if_pos rfl, Function.update_self, hn]
    rfl
  · rw [if_neg hr, Function.update_of_ne fun he => hr (List.append_cancel_left he)]
    rfl

/-- One limit of a resource is assigned. -/
theorem parseRlim_last {last : Bytes → Option Bytes} {name value optname filename : Bytes}
    {table : List Rlimit} (h : parseRlim name value optname filename (limitsOf last) = .ok table) :
    table = limitsOf (Function.update last (str "rlimit_" ++ name.map toLower) (some value)) := by
  rw [parseRlim] at h
  by_cases hhard : hasCasePrefix (str "hard_") name = true
  · rw [if_pos hhard] at h
    obtain ⟨n, hn, -, rfl⟩ := setRlim_ok (fun _ => rfl) (fun _ => map_toLower_resource)
      resources_nodup h
    have hkey : str "rlimit_" ++ name.map toLower =
        str "rlimit_hard_" ++ (name.drop 5).map toLower := by
      rw [map_toLower_of_isPrefix hhard]
      rfl
    rw [hkey, limitsOf_update_hard last _ (n := n)]
    rw [limit, Option.bind_some, ← str2rlim_toOption, hn]
  rw [if_neg hhard] at h
  by_cases hsoft : hasCasePrefix (str "soft_") name = true
  · rw [if_pos hsoft] at h
    obtain ⟨n, hn, -, rfl⟩ := setRlim_ok (fun _ => rfl) (fun _ => map_toLower_resource)
      resources_nodup h
    have hkey : str "rlimit_" ++ name.map toLower =
        str "rlimit_soft_" ++ (name.drop 5).map toLower := by
      rw [map_toLower_of_isPrefix hsoft]
      rfl
    rw [hkey, limitsOf_update_soft last _ (n := n)]
    rw [limit, Option.bind_some, ← str2rlim_toOption, hn]
  rw [if_neg hsoft] at h
  cases h

/-- A system wide limit of the work is replaced. -/
theorem modifyWlim_system {pval n : ℕ} {value optname filename : Bytes}
    (h : modifyWlim pval value optname filename true = .ok n) :
    said (optStr2ul [] · []) (some value) 0 = n := by
  obtain ⟨m, hm, h⟩ := bind_eq_ok h
  rw [if_pos (.inl rfl)] at h
  obtain rfl := Except.ok.inj h
  exact said_some (by rw [← optStr2ul_toOption optname value filename, hm]; rfl)

theorem parseWlim_last {home fname : Bytes} {last : Bytes → Option Bytes} {s t : Settings}
    {a : Assignment} {name : Bytes} (hs : inUse s = settingsOf home last)
    (hkey : a.key = str "wlimit_" ++ name.map toLower)
    (h : parseWlim name a.value a.name fname s = .ok t) :
    inUse t = settingsOf home (Function.update last a.key (some a.value)) := by
  rw [parseWlim] at h
  by_cases h1 : strcaseEq (str "time_elapsed") name = true
  · rw [if_pos h1] at h
    obtain ⟨n, hn, h⟩ := bind_eq_ok h
    obtain rfl := Except.ok.inj h
    rw [strcaseEq_iff.mp h1] at hkey
    have hkey : a.key = str "wlimit_time_elapsed" := hkey
    change { inUse s with timeElapsed := n } = _
    rw [hs, hkey]
    simp +decide [settingsOf, limitsOf_update_of_ne, modifyWlim_system hn]
  rw [if_neg h1] at h
  by_cases h2 : strcaseEq (str "time_idle") name = true
  · rw [if_pos h2] at h
    obtain ⟨n, hn, h⟩ := bind_eq_ok h
    obtain rfl := Except.ok.inj h
    rw [strcaseEq_iff.mp h2] at hkey
    have hkey : a.key = str "wlimit_time_idle" := hkey
    change { inUse s with timeIdle := n } = _
    rw [hs, hkey]
    simp +decide [settingsOf, limitsOf_update_of_ne, modifyWlim_system hn]
  rw [if_neg h2] at h
  by_cases h3 : strcaseEq (str "bytes_written") name = true
  · rw [if_pos h3] at h
    obtain ⟨n, hn, h⟩ := bind_eq_ok h
    obtain rfl := Except.ok.inj h
    rw [strcaseEq_iff.mp h3] at hkey
    have hkey : a.key = str "wlimit_bytes_written" := hkey
    change { inUse s with bytesWritten := n } = _
    rw [hs, hkey]
    simp +decide [settingsOf, limitsOf_update_of_ne, modifyWlim_system hn]
  rw [if_neg h3] at h
  cases h

theorem set_last {home fname : Bytes} {last : Bytes → Option Bytes} {s t : Settings}
    {a : Assignment} (hs : inUse s = settingsOf home last)
    (h : setCallerNameValue home fname a.name a.value s = .ok t) :
    inUse t = settingsOf home (Function.update last a.key (some a.value)) := by
  rw [setCallerNameValue] at h
  by_cases h1 : strcaseEq (str "user1") a.name = true
  · rw [if_pos h1] at h
    obtain rfl := Except.ok.inj h
    have hkey : a.key = str "user1" := strcaseEq_iff.mp h1
    change { inUse s with changeUser1 := some a.value } = _
    rw [hs, hkey]
    simp +decide [settingsOf, limitsOf_update_of_ne]
  rw [if_neg h1] at h
  by_cases h2 : strcaseEq (str "user2") a.name = true
  · rw [if_pos h2] at h
    obtain rfl := Except.ok.inj h
    have hkey : a.key = str "user2" := strcaseEq_iff.mp h2
    change { inUse s with changeUser2 := some a.value } = _
    rw [hs, hkey]
    simp +decide [settingsOf, limitsOf_update_of_ne]
  rw [if_neg h2] at h
  by_cases h3 : strcaseEq (str "prefix") a.name = true
  · rw [if_pos h3] at h
    obtain ⟨list, hlist, h⟩ := bind_eq_ok h
    obtain rfl := Except.ok.inj h
    have hkey : a.key = str "prefix" := strcaseEq_iff.mp h3
    have hsaid : said (parsePrefixList home [] []) (some a.value) ⟨none, []⟩ = list :=
      said_some (by rw [parsePrefixList_ok hlist]; rfl)
    change { inUse s with prefixes := list } = _
    rw [hs, hkey]
    simp +decide [settingsOf, limitsOf_update_of_ne, hsaid]
  rw [if_neg h3] at h
  by_cases h4 : strcaseEq (str "umask") a.name = true
  · rw [if_pos h4] at h
    obtain ⟨n, hn, h⟩ := bind_eq_ok h
    obtain rfl := Except.ok.inj h
    have hkey : a.key = str "umask" := strcaseEq_iff.mp h4
    have hsaid : said (str2umask [] · []) (some a.value) 0o22 = n :=
      said_some (by rw [← str2umask_toOption a.name a.value fname, hn]; rfl)
    change { inUse s with changeUmask := n } = _
    rw [hs, hkey]
    simp +decide [settingsOf, limitsOf_update_of_ne, hsaid]
  rw [if_neg h4] at h
  by_cases h5 : strcaseEq (str "nice") a.name = true
  · rw [if_pos h5] at h
    obtain ⟨n, hn, h⟩ := bind_eq_ok h
    obtain rfl := Except.ok.inj h
    have hkey : a.key = str "nice" := strcaseEq_iff.mp h5
    have hsaid : said (str2nice [] · []) (some a.value) 8 = n :=
      said_some (by rw [← str2nice_toOption a.name a.value fname, hn]; rfl)
    change { inUse s with changeNice := n } = _
    rw [hs, hkey]
    simp +decide [settingsOf, limitsOf_update_of_ne, hsaid]
  rw [if_neg h5] at h
  by_cases h6 : strcaseEq (str "nproc") a.name = true
  · rw [if_pos h6] at h
    obtain ⟨n, hn, h⟩ := bind_eq_ok h
    obtain rfl := Except.ok.inj h
    have hkey : a.key = str "nproc" := strcaseEq_iff.mp h6
    have hsaid : said (str2nproc [] · []) (some a.value) 0 = n :=
      said_some (by rw [← str2nproc_toOption a.name a.value fname, hn]; rfl)
    change { inUse s with changeNproc := n } = _
    rw [hs, hkey]
    simp +decide [settingsOf, limitsOf_update_of_ne, hsaid]
  rw [if_neg h6] at h
  by_cases h7 : strcaseEq (str "allowed_devices") a.name = true
  · rw [if_pos h7] at h
    obtain rfl := Except.ok.inj h
    have hkey : a.key = str "allowed_devices" := strcaseEq_iff.mp h7
    change { inUse s with allowedDevices := (parseStrList a.value s.allowedDevices).inUse } = _
    rw [hs, hkey, inUse_parseStrList, ← inUse_parseStrList a.value {}]
    simp +decide [settingsOf, limitsOf_update_of_ne, listOf]
  rw [if_neg h7] at h
  by_cases h8 : strcaseEq (str "allowed_mountpoints") a.name = true
  · rw [if_pos h8] at h
    obtain rfl := Except.ok.inj h
    have hkey : a.key = str "allowed_mountpoints" := strcaseEq_iff.mp h8
    change { inUse s with
      allowedMountpoints := (parseStrList a.value s.allowedMountpoints).inUse } = _
    rw [hs, hkey, inUse_parseStrList, ← inUse_parseStrList a.value {}]
    simp +decide [settingsOf, limitsOf_update_of_ne, listOf]
  rw [if_neg h8] at h
  by_cases h9 : strcaseEq (str "allow_ttydev") a.name = true
  · rw [if_pos h9] at h
    obtain ⟨_, -, h⟩ := bind_eq_ok h
    obtain rfl := Except.ok.inj h
    have hkey : a.key = str "allow_ttydev" := strcaseEq_iff.mp h9
    rw [hs, hkey]
    simp +decide [settingsOf, limitsOf_update_of_ne]
  rw [if_neg h9] at h
  by_cases h10 : hasCasePrefix (str "rlimit_") a.name = true
  · rw [if_pos h10] at h
    obtain ⟨table, htable, h⟩ := bind_eq_ok h
    obtain rfl := Except.ok.inj h
    have hkey : a.key = str "rlimit_" ++ (a.name.drop 7).map toLower := map_toLower_of_isPrefix h10
    have hlimits : s.changeRlimit = limitsOf last := congrArg Settings.changeRlimit hs
    rw [hlimits] at htable
    change { inUse s with changeRlimit := table } = _
    rw [hs, settingsOf_update_limit (by rw [hkey]; rfl), parseRlim_last htable, hkey]
  rw [if_neg h10] at h
  by_cases h11 : hasCasePrefix (str "wlimit_") a.name = true
  · rw [if_pos h11] at h
    have hkey : a.key = str "wlimit_" ++ (a.name.drop 7).map toLower := map_toLower_of_isPrefix h11
    exact parseWlim_last hs hkey h
  rw [if_neg h11] at h
  cases h

/-! The files of a run. -/

/-- What the files that a run reads have in them, in order. -/
def contents (tr : List (Event SysRes)) : List (List Bytes) :=
  tr.filterMap fun e =>
    match e with
    | ⟨.fgetsAll _, r⟩ => some r.1
    | _ => none

theorem contents_append (tr tr' : List (Event SysRes)) :
    contents (tr ++ tr') = contents tr ++ contents tr' := List.filterMap_append

/-- The calls that read no file. -/
def ReadsNothing : Sys → Prop
  | .fgetsAll _ => False
  | _ => True

theorem contents_of_uses {α : Type} {p : SysProg α} {tr : List (Event SysRes)} {out : Outcome α}
    (h : Runs p tr out) (hp : p.Uses ReadsNothing) : contents tr = [] := by
  refine List.filterMap_eq_nil_iff.mpr fun e he => ?_
  have hnothing := h.uses hp e he
  obtain ⟨o, r⟩ := e
  cases o with
  | fgetsAll fd => exact hnothing.elim
  | _ => rfl

theorem safeChdir_reads (who : Owners) (v : Validator) (path : Bytes) (saved : StrtokState) :
    (safeChdir who v path saved).Uses ReadsNothing := by
  refine (safeChdir_uses who v path saved).mono fun o ho => ?_
  cases o with
  | lstat name => trivial
  | chdir name => trivial
  | _ => exact ho.elim

/-- A file that is loaded is read once. -/
theorem loadConfig_returned {α : Type} {who : Owners} {fname : Bytes} {read : ℕ → SysProg α}
    {tr : List (Event SysRes)} {a : α} (h : Runs (loadConfig who fname read) tr (.returned a)) :
    ∃ fd tr', Runs (read fd) tr' (.returned a) ∧ contents tr = contents tr' := by
  obtain ⟨fd, tr₁, rfl, hopen⟩ := returns_op_bind.mp h
  clear h
  rcases fd with _ | fd
  · exact (returns_die hopen).elim
  obtain ⟨st, tr₂, rfl, hstat⟩ := returns_op_bind.mp hopen
  clear hopen
  rcases st with _ | st
  · exact (returns_die hstat).elim
  obtain ⟨_, t₁, tr₃, rfl, hvalid, hrest⟩ := returns_bind.mp hstat
  change Runs (ite _ _ _) tr₃ _ at hrest
  split_ifs at hrest with hreg hsize
  · exact (returns_die hrest).elim
  swap
  · exact (returns_die hrest).elim
  obtain ⟨_, t₂, tr₄, rfl, hfdopen, hopened⟩ := returns_bind.mp hrest
  obtain rfl := returns_op.mp (returns_orDie.mp hfdopen)
  obtain ⟨b, t₃, tr₅, rfl, hread, hdone⟩ := returns_bind.mp hopened
  obtain ⟨_, t₄, tr₆, rfl, hclose, hlast⟩ := returns_bind.mp hdone
  obtain rfl := returns_op.mp (returns_orDie.mp hclose)
  obtain ⟨rfl, rfl⟩ := returns_ret.mp hlast
  refine ⟨fd, t₃, hread, ?_⟩
  change contents (t₁ ++ _) = _
  rw [contents_append, contents_of_uses hvalid (validate_uses _ _ _ _ _), List.nil_append]
  change contents (t₃ ++ _) = _
  rw [contents_append]
  exact List.append_nil _

/-- What the assignments of a file that is accepted do. -/
theorem loadOptions_returned {σ : Type} {who : Owners} {fname : Bytes}
    {func : Bytes → Bytes → σ → Except String σ} {s t : σ} {tr : List (Event SysRes)}
    (h : Runs (loadConfig who fname (freadConfigNameValue func fname s)) tr (.returned t)) :
    ∃ bufs, contents tr = [bufs] ∧
      (assignments bufs).foldlM (fun s a => func a.name a.value s) s = .ok t := by
  obtain ⟨fd, tr', hread, hcontents⟩ := loadConfig_returned h
  obtain ⟨⟨bufs, ferror⟩, rest, rfl, hlines⟩ := returns_op_bind.mp hread
  dsimp only at hlines
  cases heach : eachOption func fname 1 bufs s with
  | error why =>
      rw [heach] at hlines
      exact (returns_die hlines).elim
  | ok s' =>
      rw [heach] at hlines
      change Runs (ite _ _ _) rest _ at hlines
      split_ifs at hlines
      · exact (returns_die hlines).elim
      obtain ⟨rfl, rfl⟩ := returns_ret.mp hlines
      exact ⟨bufs, hcontents, eachOption_assignments heach⟩

/-- The last value that the files assign to each option. -/
abbrev lastIn (log : List Assignment) : Bytes → Option Bytes :=
  lastValue Assignment.key Assignment.value log

/-- A file adds its last assignments to those before it. -/
theorem load_last {c : Caller} {fname : Bytes} {last : Bytes → Option Bytes} {s t : Settings}
    {tr : List (Event SysRes)} (h : Runs (loadCallerConfig c fname s) tr (.returned t))
    (hs : inUse s = settingsOf c.home last) :
    ∃ bufs, contents tr = [bufs] ∧
      inUse t = settingsOf c.home fun k => (lastIn (assignments bufs) k).or (last k) := by
  obtain ⟨bufs, hcontents, hfold⟩ := loadOptions_returned h
  refine ⟨bufs, hcontents, ?_⟩
  exact foldlM_lastValue (R := fun last s => inUse s = settingsOf c.home last)
    Assignment.key Assignment.value set_last hs hfold

/-- The loads of `configure_caller`. -/
def loadConfigs (c : Caller) (s : Settings) : SysProg Settings := do
  let _ ← safeChdir (owners c s) .rootOk (str "/") []
  let _ ← safeChdir (owners c s) .rootOk (str "etc/hasher-priv") []
  let s ← loadCallerConfig c (str "system") s
  let _ ← safeChdir (owners c s) .rootOk (str "user.d") []
  let s ← loadUserConfig c s
  loadNumberedConfig c s

theorem configureCaller_eq (f : Floors) (c : Caller) (s : Settings) :
    configureCaller f c s = (loadConfigs c s).bind fun s =>
      (safeChdir (owners c s) .rootOk (str "/") []).bind fun _ => checkUsers f c s := by
  unfold configureCaller loadConfigs
  simp only [bind_eq_bind, prog_bind_assoc]

/-- The last value that counts: user1 and user2 are for the number's own file, if there is one. -/
def lastAssigned (c : Caller) (files : List (List Bytes)) (option : Bytes) : Option Bytes :=
  if c.num ≠ 0 ∧ (option = str "user1" ∨ option = str "user2") then
    lastIn (assignments (files.getLastD [])) option
  else lastIn (files.flatMap assignments) option

/-- The users are discarded before the number's own file is loaded. -/
theorem discard_users {s : Settings} {home : Bytes} {last : Bytes → Option Bytes}
    (h : inUse s = settingsOf home last) :
    inUse { s with changeUser1 := none, changeUser2 := none } = settingsOf home
      (Function.update (Function.update last (str "user1") none) (str "user2") none) := by
  change { inUse s with changeUser1 := none, changeUser2 := none } = _
  rw [h]
  simp +decide [settingsOf, limitsOf_update_of_ne]

theorem loadUserConfig_last {c : Caller} {last : Bytes → Option Bytes} {s t : Settings}
    {tr : List (Event SysRes)} (h : Runs (loadUserConfig c s) tr (.returned t))
    (hs : inUse s = settingsOf c.home last) :
    ∃ bufs, contents tr = [bufs] ∧
      inUse t = settingsOf c.home fun k => (lastIn (assignments bufs) k).or (last k) := by
  obtain ⟨found, rest, rfl, hload⟩ := returns_op_bind.mp h
  change Runs (ite _ _ _) rest _ at hload
  split_ifs at hload
  · have hlast := load_last hload hs
    exact hlast
  · have hlast := load_last hload hs
    exact hlast

/-- Settings of the loads, file by file. -/
theorem loadNumberedConfig_last {c : Caller} {last : Bytes → Option Bytes} {s t : Settings}
    {tr : List (Event SysRes)} (h : Runs (loadNumberedConfig c s) tr (.returned t))
    (hs : inUse s = settingsOf c.home last) :
    if c.num ≠ 0 then
      ∃ bufs, contents tr = [bufs] ∧ inUse t = settingsOf c.home fun k =>
        (lastIn (assignments bufs) k).or
          (Function.update (Function.update last (str "user1") none) (str "user2") none k)
    else contents tr = [] ∧ inUse t = settingsOf c.home last := by
  rw [loadNumberedConfig] at h
  split_ifs at h ⊢ with hnum
  · obtain ⟨found, rest, rfl, hload⟩ := returns_op_bind.mp h
    change Runs (ite _ _ _) rest _ at hload
    split_ifs at hload
    · have hlast := load_last hload (discard_users hs)
      exact hlast
    · have hlast := load_last hload (discard_users hs)
      exact hlast
  · obtain ⟨rfl, rfl⟩ := returns_ret.mp h
    exact ⟨rfl, hs⟩

/-- What the loads make of the files. -/
theorem loadConfigs_last {c : Caller} {s : Settings} {tr : List (Event SysRes)}
    (h : Runs (loadConfigs c {}) tr (.returned s)) :
    (contents tr).length = (if c.num = 0 then 2 else 3) ∧
      inUse s = settingsOf c.home (lastAssigned c (contents tr)) := by
  obtain ⟨_, t₁, _, rfl, h₁, h⟩ := returns_bind.mp h
  obtain ⟨_, t₂, _, rfl, h₂, h⟩ := returns_bind.mp h
  obtain ⟨s₁, t₃, _, rfl, h₃, h⟩ := returns_bind.mp h
  obtain ⟨_, t₄, _, rfl, h₄, h⟩ := returns_bind.mp h
  obtain ⟨s₂, t₅, t₆, rfl, h₅, h₆⟩ := returns_bind.mp h
  obtain ⟨system, hsystem, hs₁⟩ := load_last h₃ (inUse_default c.home)
  obtain ⟨user, huser, hs₂⟩ := loadUserConfig_last h₅ hs₁
  have hs₃ := loadNumberedConfig_last h₆ hs₂
  have hcontents : contents (t₁ ++ (t₂ ++ (t₃ ++ (t₄ ++ (t₅ ++ t₆))))) =
      system :: user :: contents t₆ := by
    rw [contents_append, contents_append, contents_append, contents_append, contents_append,
      contents_of_uses h₁ (safeChdir_reads _ _ _ _), contents_of_uses h₂ (safeChdir_reads _ _ _ _),
      contents_of_uses h₄ (safeChdir_reads _ _ _ _), hsystem, huser]
    rfl
  rw [hcontents]
  by_cases hnum : c.num = 0
  · rw [if_neg (not_not.mpr hnum)] at hs₃
    rw [if_pos hnum, hs₃.1, hs₃.2]
    refine ⟨rfl, congrArg _ (funext fun k => ?_)⟩
    rw [lastAssigned, if_neg fun hk => hk.1 hnum]
    simp [lastIn, lastValue_append]
  · rw [if_pos hnum] at hs₃
    obtain ⟨number, hnumber, hs⟩ := hs₃
    rw [if_neg hnum, hnumber, hs]
    refine ⟨rfl, congrArg _ (funext fun k => ?_)⟩
    rw [lastAssigned]
    split_ifs with hk
    · rcases hk.2 with rfl | rfl
      · simp +decide
      · simp
    · rw [Function.update_of_ne fun he => hk ⟨hnum, .inr he⟩,
        Function.update_of_ne fun he => hk ⟨hnum, .inl he⟩]
      simp [lastIn, lastValue_append, Option.or_assoc]

/-- If the number has a file of its own, it names the same users. -/
def SameUsers (c : Caller) (files files' : List (List Bytes)) : Prop :=
  c.num ≠ 0 → ∀ option, option = str "user1" ∨ option = str "user2" →
    lastIn (assignments (files'.getLastD [])) option =
      lastIn (assignments (files.getLastD [])) option

/-- Files that make the same last assignments make the same configuration. -/
theorem lastAssigned_congr {c : Caller} {files files' : List (List Bytes)}
    (husers : SameUsers c files files')
    (h : lastIn (files'.flatMap assignments) = lastIn (files.flatMap assignments)) :
    lastAssigned c files' = lastAssigned c files := by
  funext option
  rw [lastAssigned, lastAssigned]
  split_ifs with hoption
  · exact husers hoption.1 option hoption.2
  · rw [h]

/-- For every caller and all contents of its files whose lines are accepted: the configuration is
what the last assignments say, so that two neighbouring assignments to different options can be
swapped and an assignment that is followed by another one to its option leaves no trace. The room
that the arrays of the lists have left is nothing to `is_allowed`. -/
theorem last_writer_wins {c : Caller} {s s' : Settings} {tr tr' : List (Event SysRes)}
    (h : Runs (loadConfigs c {}) tr (.returned s))
    (h' : Runs (loadConfigs c {}) tr' (.returned s')) :
    (contents tr).length = (if c.num = 0 then 2 else 3) ∧
      inUse s = settingsOf c.home (lastAssigned c (contents tr)) ∧
      (∀ item,
        isAllowed item s.allowedDevices =
          isAllowed item (listOf (lastAssigned c (contents tr) (str "allowed_devices"))) ∧
        isAllowed item s.allowedMountpoints =
          isAllowed item (listOf (lastAssigned c (contents tr) (str "allowed_mountpoints")))) ∧
      (SameUsers c (contents tr) (contents tr') →
        (∀ before a b after, a.key ≠ b.key →
          (contents tr).flatMap assignments = before ++ a :: b :: after →
          (contents tr').flatMap assignments = before ++ b :: a :: after → inUse s' = inUse s) ∧
        ∀ before a after, (∃ b ∈ after, b.key = a.key) →
          (contents tr).flatMap assignments = before ++ a :: after →
          (contents tr').flatMap assignments = before ++ after → inUse s' = inUse s) := by
  obtain ⟨hlength, hs⟩ := loadConfigs_last h
  obtain ⟨-, hs'⟩ := loadConfigs_last h'
  refine ⟨hlength, hs, fun item => ?_, fun husers => ⟨?_, ?_⟩⟩
  · have hdevices := congrArg Settings.allowedDevices hs
    have hmountpoints := congrArg Settings.allowedMountpoints hs
    rw [← isAllowed_inUse item s.allowedDevices, ← isAllowed_inUse item s.allowedMountpoints]
    exact ⟨congrArg (isAllowed item) hdevices, congrArg (isAllowed item) hmountpoints⟩
  · intro before a b after hne hlog hlog'
    rw [hs, hs']
    refine congrArg _ (lastAssigned_congr husers ?_)
    rw [hlog, hlog']
    exact lastValue_swap _ _ (Ne.symm hne) before after
  · intro before a after hlater hlog hlog'
    rw [hs, hs']
    refine congrArg _ (lastAssigned_congr husers ?_)
    rw [hlog, hlog']
    exact (lastValue_overwritten _ _ hlater before).symm

/-! Three files. -/

/-- A machine whose files have these contents. -/
def filesAnswer : List (List Bytes) → (o : Sys) → Option (SysRes o × List (List Bytes))
  | files, .lstat _ => some (some ⟨1, 2, 0, 0o040755, 2, 0, 0, 0⟩, files)
  | files, .chdir _ => some (true, files)
  | files, .access _ => some (false, files)
  | files, .openFile _ => some (some 3, files)
  | files, .fstat _ => some (some ⟨1, 3, 0, 0o100644, 1, 40, 0, 0⟩, files)
  | files, .fdopen _ | files, .fclose _ => some (true, files)
  | file :: files, .fgetsAll _ => some ((file, false), files)
  | _, _ => none

private def layeredCaller : Caller := ⟨str "u", str "/home/u", 500, 500, 1⟩

private def layeredFiles : List (List Bytes) :=
  [[str "nice=3\n", str "user1=a\n", str "rlimit_hard_cpu=9\n"],
    [str "# mine\n", str "NICE = 4\n", str "umask=077\n"], [str "user1=x\n", str "user2=y\n"]]

private def layeredSettings : Settings :=
  { changeUser1 := some (str "x"), changeUser2 := some (str "y"), changeNice := 4
    changeUmask := 0o77
    changeRlimit := limitsOf fun option =>
      if option = str "rlimit_hard_cpu" then some (str "9") else none }

private def layeredRun : List (Event SysRes) :=
  ((loadConfigs layeredCaller {}).drive filesAnswer layeredFiles).1

theorem last_writer_wins_sample :
    contents layeredRun = layeredFiles ∧
      lastAssigned layeredCaller layeredFiles (str "nice") = some (str "4") ∧
      lastAssigned layeredCaller layeredFiles (str "user1") = some (str "x") ∧
      inUse layeredSettings = settingsOf layeredCaller.home
        (lastAssigned layeredCaller layeredFiles) := by
  have hstop : ((loadConfigs layeredCaller {}).drive filesAnswer layeredFiles).2 =
      .returned layeredSettings := by decide
  have hrun := Prog.runs_of_drive hstop
  have hcontents : contents layeredRun = layeredFiles := by decide
  refine ⟨hcontents, by decide, by decide, ?_⟩
  have hlast := (last_writer_wins hrun hrun).2.1
  rw [← hcontents]
  exact hlast

end HasherPriv.Config.Layering
