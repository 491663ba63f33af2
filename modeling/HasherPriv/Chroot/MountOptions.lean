/- GID: HasherPriv/Chroot/MountOptions
   layer: chroot
   source: mount.c, xmalloc.c
   digest: Mount options: the last mention of a flag decides, the others are passed on in order. -/

import HasherPriv.Chroot.Mountpoints
import HasherPriv.Foundations.Answers
import HasherPriv.Foundations.Contracts
import HasherPriv.Foundations.Masks
import HasherPriv.Foundations.StringBuffer

set_option autoImplicit false
set_option relaxedAutoImplicit false

namespace HasherPriv.Chroot.MountOptions

open Foundations.Answers
open Foundations.ByteString
open Foundations.Program
open Foundations.Contracts
open Foundations.Masks
open Foundations.Memory (Reallocated)
open Foundations.StringBuffer
open Config.CallerData
open Syscall
open Chdir
open Chdiruid
open Mount
open Mountpoints

/-! What the options are to become. -/

/-- The entry of `opt_map` for an option. -/
def commandOf (opt : Bytes) : Option (Command 64) :=
  (optMap.find? fun o => str o.1 = opt).map fun o => ⟨o.2.1, o.2.2.toBitVec⟩

/-- The options that `opt_map` does not have. -/
def remaining (opts : List Bytes) : List Bytes := opts.filter fun opt => (commandOf opt).isNone

/-- `gid=NAME` once its group was looked up. -/
def withGroup (opt : Bytes) : Option UInt32 → Bytes
  | some gid => str "gid=" ++ decimal gid.toNat
  | none => opt

/-- The options with groups replaced, given the answers to the lookups. -/
def substitute : List Bytes → List (Option UInt32) → List Bytes
  | [], _ => []
  | opt :: opts, answers =>
      if namesGroup opt then withGroup opt answers.head?.join :: substitute opts answers.tail
      else opt :: substitute opts answers

/-- One more option at the end of the string. -/
def appendOption (options : Option Bytes) (opt : Bytes) : Option Bytes :=
  match options with
  | some options => some (options ++ 44 :: opt)
  | none => some opt

/-- The bit belongs to a flag of `opt_map`. -/
def Named (i : ℕ) : Prop := ∃ o ∈ optMap, o.2.2.toBitVec.getLsbD i = true

/-- What `mount` is to be given for the options, where these group names were looked up. -/
structure Translated (opts : List Bytes) (asked : List (Bytes × Option UInt32)) (flags : UInt64)
    (data : Bytes) : Prop where
  named : ∀ i, Named i → flags.toBitVec.getLsbD i =
    (lastMention (opts.filterMap commandOf) i).getD (msNosuid.toBitVec.getLsbD i)
  other : ∀ i, ¬ Named i → flags.toBitVec.getLsbD i = msMgcVal.toBitVec.getLsbD i
  lookups : asked.map Prod.fst = ((remaining opts).filter namesGroup).map (·.drop 4)
  data : data = [44].intercalate (substitute (remaining opts) (asked.map Prod.snd))

/-- The same from any flags and any string on. -/
structure Translates (opts : List Bytes) (asked : List (Bytes × Option UInt32)) (flags : UInt64)
    (options : Option Bytes) (flags' : UInt64) (options' : Option Bytes) : Prop where
  flags : flags'.toBitVec = (opts.filterMap commandOf).foldl Command.apply flags.toBitVec
  lookups : asked.map Prod.fst = ((remaining opts).filter namesGroup).map (·.drop 4)
  options : options' =
    (substitute (remaining opts) (asked.map Prod.snd)).foldl appendOption options

section Translation

variable {opts : List Bytes} {opt : Bytes} {asked : List (Bytes × Option UInt32)}
variable {flags flags' : UInt64} {options options' : Option Bytes}

theorem translates_nil (flags : UInt64) (options : Option Bytes) :
    Translates [] [] flags options flags options := ⟨rfl, rfl, rfl⟩

theorem Translates.cons_flag {o : String × Bool × UInt64}
    (ho : (optMap.find? fun o => str o.1 = opt) = some o)
    (h : Translates opts asked (if o.2.1 then flags &&& ~~~o.2.2 else flags ||| o.2.2) options
      flags' options') : Translates (opt :: opts) asked flags options flags' options' := by
  have hcommand : commandOf opt = some ⟨o.2.1, o.2.2.toBitVec⟩ := by
    rw [commandOf, ho, Option.map_some]
  have hremaining : remaining (opt :: opts) = remaining opts := by
    rw [remaining, List.filter_cons_of_neg (by rw [hcommand]; exact Bool.false_ne_true)]
    rfl
  obtain ⟨hflags, hasked, hoptions⟩ := h
  refine ⟨?_, by rw [hasked, hremaining], by rw [hoptions, hremaining]⟩
  rw [hflags, List.filterMap_cons_some hcommand, List.foldl_cons, Command.apply]
  cases o.2.1 <;> rfl

private theorem remaining_cons (opts : List Bytes)
    (hnone : (optMap.find? fun o => str o.1 = opt) = none) :
    remaining (opt :: opts) = opt :: remaining opts ∧
      (opt :: opts).filterMap commandOf = opts.filterMap commandOf := by
  have hcommand : commandOf opt = none := by rw [commandOf, hnone, Option.map_none]
  constructor
  · rw [remaining, List.filter_cons_of_pos (by rw [hcommand]; rfl)]
    rfl
  · rw [List.filterMap_cons_none hcommand]

theorem Translates.cons_other (hnone : (optMap.find? fun o => str o.1 = opt) = none)
    (hplain : namesGroup opt = false)
    (h : Translates opts asked flags (appendOption options opt) flags' options') :
    Translates (opt :: opts) asked flags options flags' options' := by
  obtain ⟨hremaining, hcommands⟩ := remaining_cons opts hnone
  obtain ⟨hflags, hasked, hoptions⟩ := h
  refine ⟨by rw [hcommands, hflags], ?_, ?_⟩
  · rw [hasked, hremaining, List.filter_cons_of_neg (by rw [hplain]; exact Bool.false_ne_true)]
  · rw [hoptions, hremaining, substitute, hplain]
    rfl

theorem Translates.cons_group (hnone : (optMap.find? fun o => str o.1 = opt) = none)
    (hgroup : namesGroup opt = true) (answer : Option UInt32)
    (h : Translates opts asked flags (appendOption options (withGroup opt answer)) flags'
      options') :
    Translates (opt :: opts) ((opt.drop 4, answer) :: asked) flags options flags' options' := by
  obtain ⟨hremaining, hcommands⟩ := remaining_cons opts hnone
  obtain ⟨hflags, hasked, hoptions⟩ := h
  refine ⟨by rw [hcommands, hflags], ?_, ?_⟩
  · rw [hremaining, List.filter_cons_of_pos hgroup, List.map_cons, List.map_cons, hasked]
  · rw [hoptions, hremaining, substitute, if_pos hgroup]
    rfl

private theorem foldl_appendOption (s : Bytes) (opts : List Bytes) :
    opts.foldl appendOption (some s) = some ([44].intercalate (s :: opts)) := by
  induction opts generalizing s with
  | nil => rw [List.intercalate_singleton]; rfl
  | cons opt opts ih =>
      rw [List.foldl_cons, appendOption, ih]
      cases opts with
      | nil => simp [List.intercalate]
      | cons opt' opts => simp [List.intercalate]

/-- Flags of `opt_map` are not part of the magic number, and those that may be set from the
start are. -/
private theorem magic_apart : ∀ o ∈ optMap, o.2.2 &&& msMgcVal = 0 := by decide

private theorem nosuid_named : ∃ o ∈ optMap, o.2.2 = msNosuid := by decide

theorem Translates.translated
    (h : Translates opts asked (msMgcVal ||| msNosuid) none flags options) :
    Translated opts asked flags (options.getD []) := by
  obtain ⟨hflags, hasked, hoptions⟩ := h
  refine ⟨fun i hi => ?_, fun i hi => ?_, hasked, ?_⟩
  · obtain ⟨o, ho, hbit⟩ := hi
    have hmagic : msMgcVal.toBitVec.getLsbD i = false := by
      have hand := congrArg (fun w : UInt64 => w.toBitVec.getLsbD i) (magic_apart o ho)
      simpa [hbit] using hand
    rw [hflags, getLsbD_foldl_apply, UInt64.toBitVec_or, BitVec.getLsbD_or, hmagic, Bool.false_or]
  · have hnone : lastMention (opts.filterMap commandOf) i = none := by
      apply lastMention_of_free
      intro c hc
      obtain ⟨opt, -, hopt⟩ := List.mem_filterMap.mp hc
      obtain ⟨o, ho, rfl⟩ := Option.map_eq_some_iff.mp hopt
      exact Bool.eq_false_iff.mpr fun hbit => hi ⟨o, List.mem_of_find?_eq_some ho, hbit⟩
    have hnosuid : msNosuid.toBitVec.getLsbD i = false := by
      obtain ⟨o, ho, hvalue⟩ := nosuid_named
      exact Bool.eq_false_iff.mpr fun hbit => hi ⟨o, ho, hvalue ▸ hbit⟩
    rw [hflags, getLsbD_foldl_apply, hnone, Option.getD_none, UInt64.toBitVec_or,
      BitVec.getLsbD_or, hnosuid, Bool.or_false]
  · rw [hoptions]
    cases substitute (remaining opts) (asked.map Prod.snd) with
    | nil => rfl
    | cons opt rest =>
        rw [List.foldl_cons, appendOption, foldl_appendOption, Option.getD_some]

/-- The options and the lookups leave one choice of flags and data. -/
theorem Translated.unique {data data' : Bytes} (h : Translated opts asked flags data)
    (h' : Translated opts asked flags' data') : flags = flags' ∧ data = data' := by
  refine ⟨?_, h.data.trans h'.data.symm⟩
  apply UInt64.toBitVec_inj.mp
  apply BitVec.eq_of_getLsbD_eq
  intro i _
  by_cases hi : Named i
  · rw [h.named i hi, h'.named i hi]
  · rw [h.other i hi, h'.other i hi]

end Translation

/-! `xmount`. -/

/-- The lookups of group names in a run. -/
def groupLookup : Event SysRes → Option (Bytes × Option UInt32)
  | ⟨.getgrnam name, gid⟩ => some (name, gid)
  | _ => none

def lookups (tr : List (Event SysRes)) : List (Bytes × Option UInt32) := tr.filterMap groupLookup

theorem lookups_append (tr₁ tr₂ : List (Event SysRes)) :
    lookups (tr₁ ++ tr₂) = lookups tr₁ ++ lookups tr₂ := List.filterMap_append

theorem resolveOption_returned {opt opt' : Bytes} {tr : List (Event SysRes)}
    (h : Runs (resolveOption opt) tr (.returned opt')) :
    namesGroup opt = false ∧ lookups tr = [] ∧ opt' = opt ∨
      namesGroup opt = true ∧ ∃ answer, lookups tr = [(opt.drop 4, answer)] ∧
        opt' = withGroup opt answer := by
  unfold resolveOption at h
  split_ifs at h with hgroup
  · obtain ⟨answer, rest, rfl, hrest⟩ := returns_op_bind.mp h
    refine Or.inr ⟨hgroup, answer, ?_⟩
    cases answer with
    | none =>
        obtain ⟨rfl, rfl⟩ := returns_ret.mp hrest
        exact ⟨rfl, rfl⟩
    | some gid =>
        obtain ⟨rfl, rfl⟩ := returns_ret.mp hrest
        exact ⟨rfl, rfl⟩
  · obtain ⟨rfl, rfl⟩ := returns_ret.mp h
    exact Or.inl ⟨Bool.eq_false_iff.mpr hgroup, rfl, rfl⟩

theorem parseOpts_returned {opts : List Bytes} {flags flags' : UInt64}
    {options options' : Option Bytes} {tr : List (Event SysRes)}
    (h : Runs (parseOpts opts flags options) tr (.returned (flags', options'))) :
    Translates opts (lookups tr) flags options flags' options' := by
  induction opts generalizing flags options tr with
  | nil =>
      obtain ⟨rfl, hsame⟩ := returns_ret.mp h
      obtain ⟨rfl, rfl⟩ := Prod.mk.inj hsame
      exact translates_nil flags' options'
  | cons opt opts ih =>
      obtain ⟨⟨flags₁, options₁⟩, t₁, t₂, rfl, h₁, h₂⟩ := returns_bind.mp h
      have hrest := ih h₂
      rw [lookups_append]
      unfold parseOpt at h₁
      split at h₁
      · rename_i name invert value ho
        obtain ⟨rfl, hsame⟩ := returns_ret.mp h₁
        obtain ⟨rfl, rfl⟩ := Prod.mk.inj hsame
        exact hrest.cons_flag ho
      · rename_i hnone
        obtain ⟨opt', t₃, t₄, rfl, hresolve, happend⟩ := returns_bind.mp h₁
        have hstep : t₄ = [] ∧ flags₁ = flags ∧ options₁ = appendOption options opt' := by
          cases options with
          | none =>
              obtain ⟨rfl, hsame⟩ := returns_ret.mp happend
              obtain ⟨rfl, rfl⟩ := Prod.mk.inj hsame
              exact ⟨rfl, rfl, rfl⟩
          | some s =>
              obtain ⟨rfl, hsame⟩ := returns_ret.mp happend
              obtain ⟨rfl, rfl⟩ := Prod.mk.inj hsame
              exact ⟨rfl, rfl, rfl⟩
        obtain ⟨rfl, rfl, rfl⟩ := hstep
        rw [List.append_nil]
        rcases resolveOption_returned hresolve with
          ⟨hplain, hlookups, rfl⟩ | ⟨hgroup, answer, hlookups, rfl⟩
        · rw [hlookups]
          exact hrest.cons_other hnone hplain
        · rw [hlookups]
          exact hrest.cons_group hnone hgroup answer

/-- What a run mounts, in order. -/
def mounts (tr : List (Event SysRes)) : List MountCall := tr.filterMap fun e => mountCall e.1

theorem mounts_append (tr₁ tr₂ : List (Event SysRes)) :
    mounts (tr₁ ++ tr₂) = mounts tr₁ ++ mounts tr₂ := List.filterMap_append

private theorem mounts_nil {tr : List (Event SysRes)} (h : ∀ e ∈ tr, mountCall e.1 = none) :
    mounts tr = [] := List.filterMap_eq_nil_iff.mpr h

private theorem lookups_nil {tr : List (Event SysRes)}
    (h : ∀ e ∈ tr, ∀ name, e.1 ≠ .getgrnam name) : lookups tr = [] := by
  rw [lookups, List.filterMap_eq_nil_iff]
  rintro ⟨o, r⟩ he
  cases o with
  | getgrnam name => exact (h _ he name rfl).elim
  | _ => rfl

private theorem chdiruid_mounts_nothing (o : Sys) (h : IsChdiruidCall o) : mountCall o = none := by
  cases o with
  | mount fsname target type flags data => exact h.elim
  | _ => rfl

private theorem chdiruid_asks_nothing (o : Sys) (h : IsChdiruidCall o) :
    ∀ name, o ≠ .getgrnam name := by
  rintro _ rfl
  exact h

private theorem mounts_of_emits {p : SysProg Unit} {m : MountCall} {tr : List (Event SysRes)}
    {out : Outcome Unit} (h : Runs p tr out) (hp : p.Emits mountCall [m]) :
    (mounts tr = [] ∧ ∀ a, out ≠ .returned a) ∨ mounts tr = [m] := by
  obtain ⟨hsome, hreturned⟩ := h.emits hp
  rcases List.prefix_cons_iff.mp hsome with hnone | ⟨more, hone, hmore⟩
  · refine Or.inl ⟨hnone, fun a hout => ?_⟩
    have hone := hreturned a hout
    rw [hnone] at hone
    cases hone
  · obtain rfl := List.prefix_nil.mp hmore
    exact Or.inr hone

/-- `xmount` mounts once, and not before the options are translated. -/
theorem xmount_mounts {c : Caller} {s : Settings} {chrootFd : ℤ} {e : MntEnt}
    {tr : List (Event SysRes)} {out : Outcome Unit} (h : Runs (xmount c s chrootFd e) tr out) :
    (mounts tr = [] ∧ ∀ a, out ≠ .returned a) ∨
      ∃ flags data, mounts tr = [⟨e.fsname, str ".", some e.type, flags, some data⟩] ∧
        Translated (tokens (· = 44) e.opts) (lookups tr) flags data := by
  rcases runs_call.mp h with ⟨rfl, rfl⟩ | ⟨_, rest, rfl, hrest⟩
  · exact Or.inl ⟨rfl, nofun⟩
  change Runs (ite _ _ _) rest out at hrest
  split_ifs at hrest with hdir
  · cases hrest with
    | die why => exact Or.inl ⟨rfl, nofun⟩
    | cut => exact Or.inl ⟨rfl, nofun⟩
  have hparse {out' : Outcome (UInt64 × Option Bytes)} {t : List (Event SysRes)}
      (ht : Runs (parseOpts (strtokLoop (· = 44) (e.opts.length + 1) e.opts)
        (msMgcVal ||| msNosuid) none) t out') : mounts t = [] := by
    refine mounts_nil fun event hevent => ?_
    obtain ⟨name, hname⟩ := ht.uses (parseOpts_uses _ _ _) event hevent
    rw [hname]
    rfl
  rcases runs_bind hrest with ⟨⟨flags, options⟩, t₁, t₂, rfl, h₁, h₂⟩ |
    ⟨why, hdied, rfl⟩ | ⟨hcut, rfl⟩
  · have htranslated := (parseOpts_returned h₁).translated
    rw [strtokLoop_eq_tokens _ (Nat.lt_succ_self _)] at htranslated
    have hmounts : mounts (⟨Sys.enter (.xmount e.dir), ()⟩ :: (t₁ ++ t₂)) = mounts t₂ := by
      change mounts (t₁ ++ t₂) = _
      rw [mounts_append, hparse h₁, List.nil_append]
    have hlookups : lookups (⟨Sys.enter (.xmount e.dir), ()⟩ :: (t₁ ++ t₂)) = lookups t₁ := by
      have hrest : lookups t₂ = [] := by
        refine lookups_nil (h₂.uses (P := fun o => ∀ name, o ≠ .getgrnam name) ?_)
        apply ((fchdiruid_uses c s .callerOk chrootFd).mono chdiruid_asks_nothing).bind
        intro _
        apply ((chdiruid_uses c s _ (e.dir.drop 1) []).mono chdiruid_asks_nothing).bind
        intro _
        refine ⟨nofun, fun answer => ?_⟩
        cases answer <;> trivial
      change lookups (t₁ ++ t₂) = _
      rw [lookups_append, hrest, List.append_nil]
    rw [hmounts, hlookups]
    have hmounted := mounts_of_emits
      (m := ⟨e.fsname, str ".", some e.type, flags, some (options.getD [])⟩) h₂ (by
        apply ((fchdiruid_uses c s .callerOk chrootFd).mono chdiruid_mounts_nothing).bind_emits
        intro _
        apply ((chdiruid_uses c s _ (e.dir.drop 1) []).mono chdiruid_mounts_nothing).bind_emits
        intro _
        refine ⟨[], rfl, fun answer => ?_⟩
        cases answer <;> trivial)
    rcases hmounted with hnone | hone
    · exact Or.inl hnone
    · exact Or.inr ⟨flags, options.getD [], hone, htranslated⟩
  · have hmounts : mounts rest = [] := hparse hdied
    exact Or.inl ⟨hmounts, nofun⟩
  · have hmounts : mounts rest = [] := hparse hcut
    exact Or.inl ⟨hmounts, nofun⟩

/-! The blocks of memory that the string is built in. -/

/-- What `parse_opt` and `xmount` call to build it. -/
inductive StringCall
  /-- `strdup` and `asprintf`: a new block with this string. -/
  | newString (s : Bytes)
  | realloc (block : Bytes) (size : UInt64)
  | getgrnam (name : Bytes)
  /-- An access outside a block. -/
  | overrun
  deriving DecidableEq

@[reducible] def StringRes : StringCall → Type
  | .newString _ | .realloc _ _ => Option Bytes
  | .getgrnam _ => Option UInt32
  | .overrun => Unit

abbrev StringProg := Prog StringCall StringRes

abbrev stringCall (o : StringCall) : StringProg (StringRes o) := .op o

/-- The answers of the C library. No block has more than `PTRDIFF_MAX` bytes. The world is the
list of the lookups so far. -/
def StringSem : (o : StringCall) → List (Bytes × Option UInt32) → StringRes o →
    List (Bytes × Option UInt32) → Prop
  | .newString s, asked, r, asked' =>
      asked' = asked ∧ ∀ block ∈ r, block = s ++ [0] ∧ block.length < 2 ^ 63
  | .realloc old size, asked, r, asked' =>
      asked' = asked ∧ ∀ new ∈ r, Reallocated old size.toNat new ∧ new.length < 2 ^ 63
  | .getgrnam name, asked, r, asked' => asked' = asked ++ [(name, r)]
  | .overrun, asked, _, asked' => asked' = asked

/-- The checks of `xstrdup`, `xasprintf` and `xrealloc`. -/
def orOutOfMemory (o : StringProg (Option Bytes)) : StringProg Bytes := do
  match ← o with
  | some block => return block
  | none => .die "Out of memory"

/-- An access to a block. -/
def inBlock {α : Type} (access : Option α) : StringProg α :=
  match access with
  | some a => .ret a
  | none => do
      stringCall .overrun
      .die "overrun"

/-- `opt` in `parse_opt`, which may point to the new string. -/
def resolveOptionIn (opt : Bytes) : StringProg Bytes :=
  if namesGroup opt then do
    match ← stringCall (.getgrnam (opt.drop 4)) with
    | some gid => do
        let buf ← orOutOfMemory (stringCall (.newString (str "gid=" ++ decimal gid.toNat)))
        return content buf
    | none => return opt
  else .ret opt

/-- The end of `parse_opt`, with the block that `*options` points to. -/
def storeOption (opt : Bytes) (flags : UInt64) (options : Option Bytes) :
    StringProg (UInt64 × Option Bytes) :=
  match options with
  | some block => do
      let length ← inBlock (strlen block)
      let size := UInt64.ofNat length + UInt64.ofNat opt.length + 2
      let block ← orOutOfMemory (stringCall (.realloc block size))
      let block ← inBlock (strcat block [44])
      let block ← inBlock (strcat block opt)
      return (flags, some block)
  | none => do
      let block ← orOutOfMemory (stringCall (.newString opt))
      return (flags, some block)

/-- `parse_opt`. -/
def parseOptIn (opt : Bytes) (flags : UInt64) (options : Option Bytes) :
    StringProg (UInt64 × Option Bytes) :=
  match optMap.find? fun o => str o.1 = opt with
  | some (_, invert, value) =>
      .ret (if invert then flags &&& ~~~ value else flags ||| value, options)
  | none => do
      let opt ← resolveOptionIn opt
      storeOption opt flags options

def parseOptsIn : List Bytes → UInt64 → Option Bytes → StringProg (UInt64 × Option Bytes)
  | [], flags, options => .ret (flags, options)
  | opt :: opts, flags, options => do
      let (flags, options) ← parseOptIn opt flags options
      parseOptsIn opts flags options

/-- The part of `xmount` that builds the string. -/
def buildOptions (opts : Bytes) : StringProg (UInt64 × Option Bytes) := do
  let buf ← orOutOfMemory (stringCall (.newString opts))
  parseOptsIn (strtokLoop (· = 44) (opts.length + 1) (content buf)) (msMgcVal ||| msNosuid) none

/-- No call is an access outside a block. -/
def NoOverrun (o : StringCall) (_ : List (Bytes × Option UInt32)) (_ : StringRes o)
    (_ : List (Bytes × Option UInt32)) : Prop := o ≠ .overrun

/-- A string that a block can hold. -/
structure Fits (opt : Bytes) : Prop where
  nulFree : 0 ∉ opt
  room : opt.length + 1 < 2 ^ 63

/-- A block and the string in it. -/
structure InBlock (block s : Bytes) : Prop where
  holds : Holds block s
  room : block.length < 2 ^ 63

section Blocks

variable {asked : List (Bytes × Option UInt32)} {opt block s : Bytes}

theorem ensures_orOutOfMemory {p : StringProg (Option Bytes)}
    {Q : Bytes → List (Bytes × Option UInt32) → Prop}
    (h : Ensures StringSem NoOverrun p (fun r asked => ∀ block ∈ r, Q block asked) asked) :
    Ensures StringSem NoOverrun (orOutOfMemory p) Q asked := by
  refine h.bind fun r asked hr => ?_
  cases r with
  | none => trivial
  | some block => exact hr block rfl

theorem InBlock.fits (h : InBlock block s) : Fits s := by
  have hlt := h.holds.length_lt
  have hroom := h.room
  exact ⟨h.holds.1, by omega⟩

theorem newString_ensures (hs : 0 ∉ s) :
    Ensures StringSem NoOverrun (orOutOfMemory (stringCall (.newString s)))
      (fun block asked' => asked' = asked ∧ InBlock block s) asked := by
  apply ensures_orOutOfMemory
  intro r asked' hsem
  obtain ⟨hasked, hnew⟩ := hsem
  refine ⟨nofun, fun block hblock => ?_⟩
  obtain ⟨rfl, hroom⟩ := hnew block hblock
  exact ⟨hasked, ⟨hs, [], rfl⟩, hroom⟩

/-- Two strings that fit in blocks are far from wrapping the size around. -/
theorem size_toNat {m n : ℕ} (hm : m + 1 < 2 ^ 63) (hn : n + 1 < 2 ^ 63) :
    (UInt64.ofNat m + UInt64.ofNat n + 2).toNat = m + n + 2 := by
  have hmod : (UInt64.ofNat m + UInt64.ofNat n + 2).toNat =
      ((m % 2 ^ 64 + n % 2 ^ 64) % 2 ^ 64 + 2) % 2 ^ 64 := rfl
  omega

theorem realloc_ensures (hblock : InBlock block s) (hopt : Fits opt) :
    Ensures StringSem NoOverrun
      (orOutOfMemory (stringCall (.realloc block
        (UInt64.ofNat s.length + UInt64.ofNat opt.length + 2))))
      (fun new asked' => asked' = asked ∧ InBlock new s ∧ new.length = s.length + opt.length + 2)
      asked := by
  apply ensures_orOutOfMemory
  intro r asked' hsem
  obtain ⟨hasked, hnew⟩ := hsem
  refine ⟨nofun, fun new hmem => ?_⟩
  obtain ⟨hrealloc, hroom⟩ := hnew new hmem
  rw [size_toNat hblock.fits.room hopt.room] at hrealloc
  refine ⟨hasked, ⟨hblock.holds.realloc hrealloc ?_, hroom⟩, hrealloc.1⟩
  omega

theorem resolveOptionIn_ensures (hopt : Fits opt) :
    Ensures StringSem NoOverrun (resolveOptionIn opt)
      (fun opt' asked' => Fits opt' ∧
        ∃ tr, Runs (resolveOption opt) tr (.returned opt') ∧ asked' = asked ++ lookups tr)
      asked := by
  unfold resolveOptionIn resolveOption
  split_ifs with hgroup
  · intro answer asked' hsem
    obtain rfl := hsem
    refine ⟨nofun, ?_⟩
    cases answer with
    | none => exact ⟨hopt, [⟨.getgrnam (opt.drop 4), none⟩], .call (.ret opt), rfl⟩
    | some gid =>
        have hfree : (0 : UInt8) ∉ str "gid=" ++ decimal gid.toNat := by
          intro hmem
          rcases List.mem_append.mp hmem with h | h
          · exact absurd h (by decide)
          · exact absurd (mem_decimal h).1 (by decide)
        refine (newString_ensures hfree).bind fun buf asked' hbuf => ?_
        obtain ⟨rfl, hin⟩ := hbuf
        change Fits (content buf) ∧ _
        rw [hin.holds.content_eq]
        exact ⟨hin.fits, [⟨.getgrnam (opt.drop 4), some gid⟩], .call (.ret _), rfl⟩
  · exact ⟨hopt, [], .ret opt, (List.append_nil asked).symm⟩

/-- The block is large enough for the comma and the option. -/
theorem append_ensures (hblock : InBlock block s) (hopt : Fits opt) (flags : UInt64) :
    Ensures StringSem NoOverrun (storeOption opt flags (some block))
      (fun r asked' => asked' = asked ∧ r.1 = flags ∧
        Option.Rel InBlock r.2 (some (s ++ 44 :: opt))) asked := by
  rw [storeOption, hblock.holds.strlen_eq]
  refine (realloc_ensures hblock hopt).bind fun new asked' hnew => ?_
  obtain ⟨rfl, ⟨hholds, hroom⟩, hsize⟩ := hnew
  have hcomma : (0 : UInt8) ∉ ([44] : Bytes) := by decide
  obtain ⟨new₁, hcat₁, hholds₁, hsize₁⟩ := hholds.strcat_eq hcomma (by
    rw [hsize, List.length_singleton]
    omega)
  obtain ⟨new₂, hcat₂, hholds₂, hsize₂⟩ := hholds₁.strcat_eq hopt.nulFree (by
    rw [hsize₁, hsize, List.length_append, List.length_singleton]
    omega)
  rw [hcat₁]
  change Ensures _ _ ((inBlock (strcat new₁ opt)).bind _) _ _
  rw [hcat₂]
  refine ⟨rfl, rfl, .some ⟨?_, ?_⟩⟩
  · rw [List.append_assoc, List.singleton_append] at hholds₂
    exact hholds₂
  · rw [hsize₂, hsize₁]
    exact hroom

/-- What is built in the blocks is what `parseOpts` computes with the same answers. -/
theorem parseOptsIn_ensures {opts : List Bytes} {flags : UInt64} {options s : Option Bytes}
    (hopts : ∀ opt ∈ opts, Fits opt) (hs : Option.Rel InBlock options s) :
    Ensures StringSem NoOverrun (parseOptsIn opts flags options)
      (fun r asked' => ∃ tr s', Runs (parseOpts opts flags s) tr (.returned (r.1, s')) ∧
        asked' = asked ++ lookups tr ∧ Option.Rel InBlock r.2 s') asked := by
  induction opts generalizing flags options s asked with
  | nil => exact ⟨[], s, .ret (flags, s), (List.append_nil _).symm, hs⟩
  | cons opt opts ih =>
      obtain ⟨hopt, hopts⟩ := List.forall_mem_cons.mp hopts
      rw [parseOptsIn, parseOptIn]
      cases ho : optMap.find? fun o => str o.1 = opt with
      | some o =>
          refine (ih hopts hs).mono fun r asked' hr => ?_
          obtain ⟨tr, s', hrun, hasked, hrel⟩ := hr
          refine ⟨tr, s', ?_, hasked, hrel⟩
          rw [parseOpts, parseOpt, ho]
          exact hrun
      | none =>
          have happend {opt' : Bytes} {asked : List (Bytes × Option UInt32)}
              (hopt' : Fits opt') : Ensures StringSem NoOverrun (storeOption opt' flags options)
                (fun r asked' => asked' = asked ∧ r.1 = flags ∧
                  Option.Rel InBlock r.2 (appendOption s opt')) asked := by
            cases hs with
            | none =>
                refine (newString_ensures hopt'.nulFree).bind fun block asked' hblock => ?_
                exact ⟨hblock.1, rfl, .some hblock.2⟩
            | some hin => exact append_ensures hin hopt' flags
          rw [bind_eq_bind, bind_eq_bind, prog_bind_assoc]
          refine (resolveOptionIn_ensures hopt).bind fun opt' asked₁ hopt' => ?_
          obtain ⟨hfits, tr₁, hresolve, rfl⟩ := hopt'
          refine (happend hfits).bind fun r asked₂ hr => ?_
          obtain ⟨flags₁, options₁⟩ := r
          obtain ⟨rfl, rfl, hrel⟩ := hr
          refine (ih hopts hrel).mono fun r asked₃ hr => ?_
          obtain ⟨tr₂, s', hrun, hasked, hrel'⟩ := hr
          refine ⟨tr₁ ++ tr₂, s', ?_, ?_, hrel'⟩
          · rw [parseOpts, parseOpt, ho]
            change Runs (((resolveOption opt).bind _).bind _) _ _
            rw [prog_bind_assoc]
            apply hresolve.bind
            cases s <;> exact hrun
          · rw [hasked, lookups_append, List.append_assoc]

/-- The block was not to be had. -/
def AllocationFailed : Event StringRes → Prop
  | ⟨.newString _, r⟩ | ⟨.realloc _ _, r⟩ => r = none
  | _ => False

/-- The string that is built, against the model without blocks. -/
structure Built (opts : CString) (asked : List (Bytes × Option UInt32)) (flags : UInt64)
    (block : Option Bytes) : Prop where
  translated : Translated (tokens (· = 44) opts.bytes) asked flags ((block.map content).getD [])
  refines : ∃ tr, Runs (parseOpts (strtokLoop (· = 44) (opts.bytes.length + 1) opts.bytes)
    (msMgcVal ||| msNosuid) none) tr (.returned (flags, block.map content)) ∧ asked = lookups tr

theorem buildOptions_ensures (opts : CString) :
    Ensures StringSem NoOverrun (buildOptions opts.bytes)
      (fun r asked => Built opts asked r.1 r.2) [] := by
  refine (newString_ensures opts.nulFree).bind fun buf asked hbuf => ?_
  obtain ⟨rfl, hin⟩ := hbuf
  rw [hin.holds.content_eq]
  have htokens : strtokLoop (· = 44) (opts.bytes.length + 1) opts.bytes =
      tokens (· = 44) opts.bytes := strtokLoop_eq_tokens _ (Nat.lt_succ_self _)
  have hfits : ∀ opt ∈ strtokLoop (· = 44) (opts.bytes.length + 1) opts.bytes, Fits opt := by
    intro opt hopt
    rw [htokens] at hopt
    have hsub := sublist_of_mem_tokens _ hopt
    have hroom := hin.fits.room
    have hle := hsub.length_le
    exact ⟨fun h0 => opts.nulFree (hsub.subset h0), by omega⟩
  refine (parseOptsIn_ensures hfits .none).mono fun r asked hr => ?_
  obtain ⟨tr, s', hrun, hasked, hrel⟩ := hr
  obtain rfl : asked = lookups tr := hasked
  have hcontent : r.2.map content = s' := by
    generalize r.2 = block at hrel
    cases hrel with
    | none => rfl
    | some h => rw [Option.map_some, h.holds.content_eq]
  have htranslated := (parseOpts_returned hrun).translated
  constructor
  · rw [hcontent, ← htokens]
    exact htranslated
  · rw [hcontent]
    exact ⟨tr, hrun, rfl⟩

end Blocks

/-! A run dies for want of memory or not at all. -/

/-- What precedes a death: also an access outside a block, if there were one. -/
def Fatal (e : Event StringRes) : Prop := e.1 ≠ .overrun → AllocationFailed e

private theorem newString_dies (s : Bytes) :
    DiesAfter Fatal (orOutOfMemory (stringCall (.newString s))) := by
  intro block
  cases block with
  | none => exact Or.inl fun _ => rfl
  | some block => exact Or.inr trivial

private theorem realloc_dies (block : Bytes) (size : UInt64) :
    DiesAfter Fatal (orOutOfMemory (stringCall (.realloc block size))) := by
  intro new
  cases new with
  | none => exact Or.inl fun _ => rfl
  | some new => exact Or.inr trivial

private theorem inBlock_dies {α : Type} (access : Option α) :
    DiesAfter Fatal (inBlock access) := by
  cases access with
  | none =>
      intro _
      exact Or.inl fun hcall => (hcall rfl).elim
  | some a => trivial

private theorem resolveOptionIn_dies (opt : Bytes) : DiesAfter Fatal (resolveOptionIn opt) := by
  unfold resolveOptionIn
  split_ifs
  · intro gid
    right
    cases gid with
    | none => trivial
    | some gid => exact (newString_dies _).bind fun _ => trivial
  · trivial

private theorem storeOption_dies (opt : Bytes) (flags : UInt64) (options : Option Bytes) :
    DiesAfter Fatal (storeOption opt flags options) := by
  cases options with
  | none => exact (newString_dies opt).bind fun _ => trivial
  | some block =>
      apply (inBlock_dies _).bind
      intro length
      apply (realloc_dies _ _).bind
      intro block
      apply (inBlock_dies _).bind
      intro block
      exact (inBlock_dies _).bind fun _ => trivial

private theorem parseOptIn_dies (opt : Bytes) (flags : UInt64) (options : Option Bytes) :
    DiesAfter Fatal (parseOptIn opt flags options) := by
  unfold parseOptIn
  split
  · trivial
  · exact (resolveOptionIn_dies opt).bind fun opt' => storeOption_dies opt' flags options

theorem buildOptions_dies (opts : Bytes) : DiesAfter Fatal (buildOptions opts) := by
  have hloop (opts : List Bytes) (flags : UInt64) (options : Option Bytes) :
      DiesAfter Fatal (parseOptsIn opts flags options) := by
    induction opts generalizing flags options with
    | nil => trivial
    | cons opt opts ih => exact (parseOptIn_dies opt flags options).bind fun r => ih r.1 r.2
  exact (newString_dies opts).bind fun buf => hloop _ _ _

/-! The theorem. -/

/-- For every option string of an entry: a run of `xmount` that returns has mounted once, and
whatever a run mounts, it mounts with the flags and the data that the options translate to. The
string is built inside its blocks, and building it fails only where an allocation does. -/
theorem options_translated (opts : CString) :
    (∀ (c : Caller) (s : Settings) (chrootFd : ℤ) (e : MntEnt) (tr : List (Event SysRes))
      (out : Outcome Unit), Runs (xmount c s chrootFd { e with opts := opts.bytes }) tr out →
      (mounts tr = [] ∧ ∀ a, out ≠ .returned a) ∨
        ∃ flags data, mounts tr = [⟨e.fsname, str ".", some e.type, flags, some data⟩] ∧
          Translated (tokens (· = 44) opts.bytes) (lookups tr) flags data) ∧
    ∀ tr out asked, Exec (· = ·) StringSem (buildOptions opts.bytes) [] tr out asked →
      (∀ step ∈ tr, step.event.1 ≠ .overrun) ∧
      (∀ why, out = .died why → ∃ step ∈ tr, AllocationFailed step.event) ∧
      ∀ flags block, out = .returned (flags, block) → Built opts asked flags block := by
  constructor
  · intro c s chrootFd e tr out hrun
    exact xmount_mounts hrun
  · intro tr out asked hexec
    obtain ⟨hcalls, hreturned⟩ := (buildOptions_ensures opts).exec hexec
    refine ⟨hcalls, ?_, fun flags block hout => hreturned (flags, block) hout⟩
    rintro why rfl
    obtain ⟨e, he, hfatal⟩ := (buildOptions_dies opts.bytes).died hexec.runs
    obtain ⟨step, hstep, rfl⟩ := List.mem_map.mp he
    exact ⟨step, hstep, hfatal (hcalls step hstep)⟩

/-! An entry that sets and clears a flag, names a group, and has an option of the file system. -/

private def sampleOptions : CString := ⟨str "nosuid,ro,gid=proc,suid,mode=755", by decide⟩

private def sampleEntry : MntEnt := ⟨str "dev", str "/dev", str "tmpfs", sampleOptions.bytes⟩

/-- The machine of the other samples, with one group. -/
private def groupAnswer (w : SampleWorld) : (o : Sys) → Option (SysRes o × SampleWorld)
  | .getgrnam name => some (if name = str "proc" then some 19 else none, w)
  | o => sampleAnswer w o

private def sampleData : Bytes := str "gid=19,mode=755"

private def sampleCall (asked : List (Bytes × Option UInt32)) (o : StringCall) (r : StringRes o) :
    Step (List (Bytes × Option UInt32)) StringRes := ⟨asked, ⟨o, r⟩, asked⟩

private def sampleAsked : List (Bytes × Option UInt32) := [(str "proc", some 19)]

private def sampleBuilding : List (Step (List (Bytes × Option UInt32)) StringRes) :=
  [sampleCall [] (.newString sampleOptions.bytes) (some (sampleOptions.bytes ++ [0])),
    ⟨[], ⟨.getgrnam (str "proc"), some 19⟩, sampleAsked⟩,
    sampleCall sampleAsked (.newString (str "gid=19")) (some (str "gid=19" ++ [0])),
    sampleCall sampleAsked (.newString (str "gid=19")) (some (str "gid=19" ++ [0])),
    sampleCall sampleAsked (.realloc (str "gid=19" ++ [0]) 16)
      (some (str "gid=19" ++ [0] ++ List.replicate 9 170))]

/-- `suid` undoes `nosuid`, the group becomes its number, and both runs come to their end. -/
theorem options_translated_sample :
    (∃ tr, Runs (xmount sampleCaller sampleSettings 9 sampleEntry) tr (.returned ()) ∧
      mounts tr = [⟨str "dev", str ".", some (str "tmpfs"), msMgcVal ||| msRdonly,
        some sampleData⟩] ∧
      Translated (tokens (· = 44) sampleOptions.bytes) sampleAsked (msMgcVal ||| msRdonly)
        sampleData) ∧
    ∃ tr, Exec (· = ·) StringSem (buildOptions sampleOptions.bytes) [] tr
        (.returned (msMgcVal ||| msRdonly, some (sampleData ++ [0]))) sampleAsked ∧
      Built sampleOptions sampleAsked (msMgcVal ||| msRdonly) (some (sampleData ++ [0])) := by
  constructor
  · generalize hp : xmount sampleCaller sampleSettings 9 sampleEntry = p
    have hreturned : (p.drive groupAnswer {}).2 = .returned () := by
      rw [← hp]
      decide
    have hmounts : mounts (p.drive groupAnswer {}).1 = [⟨str "dev", str ".", some (str "tmpfs"),
        msMgcVal ||| msRdonly, some sampleData⟩] := by
      rw [← hp]
      decide
    have hlookups : lookups (p.drive groupAnswer {}).1 = sampleAsked := by
      rw [← hp]
      decide
    have hrun := Prog.runs_of_drive hreturned
    refine ⟨_, hrun, hmounts, ?_⟩
    rw [← hp] at hrun
    obtain ⟨-, hnone⟩ | ⟨flags, data, hone, htranslated⟩ :=
      (options_translated sampleOptions).1 sampleCaller sampleSettings 9 sampleEntry _ _ hrun
    · exact (hnone () rfl).elim
    · rw [hp] at hone htranslated
      obtain ⟨hcall, -⟩ := List.cons.inj (hmounts.symm.trans hone)
      obtain ⟨-, -, -, rfl, hdata⟩ := MountCall.mk.inj hcall
      obtain rfl := Option.some.inj hdata
      rw [hlookups] at htranslated
      exact htranslated
  · have hexec : Exec (· = ·) StringSem (buildOptions sampleOptions.bytes) [] sampleBuilding
        (.returned (msMgcVal ||| msRdonly, some (sampleData ++ [0]))) sampleAsked := by
      refine Runs.exec (Prog.runs_of_replay (by decide)) ?_
      simp [sampleBuilding, sampleCall, sampleAsked, Chained, StringSem]
      refine ⟨by decide, by decide, ⟨by decide, by decide⟩, by decide⟩
    exact ⟨sampleBuilding, hexec, ((options_translated sampleOptions).2 _ _ _ hexec).2.2 _ _ rfl⟩

end HasherPriv.Chroot.MountOptions
