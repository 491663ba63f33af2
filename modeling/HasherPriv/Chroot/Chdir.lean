/- GID: HasherPriv/Chroot/Chdir
   layer: chroot
   source: chdir.c
   digest: Changing the working directory with validation, one component at a time. -/

import HasherPriv.Chroot.Syscall

set_option autoImplicit false
set_option relaxedAutoImplicit false

namespace HasherPriv.Chroot.Chdir

open Foundations.ByteString
open Foundations.Program
open Syscall

/-! `<sys/stat.h>`. -/

def sIfmt : ℕ := 0o170000
def sIfdir : ℕ := 0o040000
def sIsvtx : ℕ := 0o1000
def sIwgrp : ℕ := 0o020
def sIwoth : ℕ := 0o002

/-- `S_ISDIR`. -/
def isDir (mode : ℕ) : Bool := mode &&& sIfmt = sIfdir

/-- `is_changed`: the first of the compared fields that differs. -/
def isChanged (st1 st2 : Stat) : Option String :=
  if st1.dev ≠ st2.dev then some "device number"
  else if st1.ino ≠ st2.ino then some "inode number"
  else if st1.rdev ≠ st2.rdev then some "device type"
  else if st1.mode ≠ st2.mode then some "protection"
  else if st1.uid ≠ st2.uid ∨ st1.gid ≠ st2.gid then some "ownership"
  else none

/-- The identities the validators compare with. -/
structure Owners where
  callerUid : UInt32
  changeUid1 : UInt32
  changeGid1 : UInt32
  deriving DecidableEq

/-- The validators that are passed around as function pointers. -/
inductive Validator
  | callerOk
  | callerRooterOk
  | rootOk
  deriving DecidableEq

/-- The permission check shared by the two caller validators. -/
def badCallerPerms (mode : ℕ) : Bool :=
  mode &&& sIwoth ≠ 0 ∨ (mode &&& sIwgrp ≠ 0 ∧ mode &&& sIsvtx = 0)

/-- The permission bits of a mode, printed with `%o`. -/
def perms (mode : ℕ) : String := String.ofList (Nat.toDigits 8 (mode &&& 0o7777))

/-- `stat_caller_ok_validator`, `stat_caller_rooter_ok_validator` and
`stat_root_ok_validator`. -/
def Validator.check (who : Owners) (st : Stat) (name : Bytes) : Validator → Except String Unit
  | .callerOk =>
      let path := text name
      if st.uid ≠ who.callerUid then
        let expected := who.callerUid
        let found := st.uid
        .error s!"{path}: expected owner {expected}, found owner {found}"
      else if st.gid ≠ who.changeGid1 then
        let expected := who.changeGid1
        let found := st.gid
        .error s!"{path}: expected group {expected}, found group {found}"
      else if badCallerPerms st.mode then
        let found := perms st.mode
        .error s!"{path}: bad perms: {found}"
      else .ok ()
  | .callerRooterOk =>
      let path := text name
      if st.uid ≠ who.callerUid ∧ st.uid ≠ who.changeUid1 then
        let caller := who.callerUid
        let rooter := who.changeUid1
        let found := st.uid
        .error s!"{path}: expected owner {caller} or {rooter}, found owner {found}"
      else if st.gid ≠ who.changeGid1 then
        let expected := who.changeGid1
        let found := st.gid
        .error s!"{path}: expected group {expected}, found group {found}"
      else if badCallerPerms st.mode then
        let found := perms st.mode
        .error s!"{path}: bad perms: {found}"
      else .ok ()
  | .rootOk =>
      let path := text name
      if st.uid ≠ 0 then
        let found := st.uid
        .error s!"{path}: bad owner: {found}"
      else if st.mode &&& (sIwgrp ||| sIwoth) ≠ 0 then
        let found := perms st.mode
        .error s!"{path}: bad perms: {found}"
      else .ok ()

/-- Run a validator; a complaint ends the process. -/
def validate (who : Owners) (v : Validator) (st : Stat) (name : Bytes) : SysProg Unit :=
  match v.check who st name with
  | .error why => .die why
  | .ok () => .ret ()

/-- `safe_chdir_component`. -/
def safeChdirComponent (who : Owners) (v : Validator) (name : Bytes) : SysProg Unit := do
  let path := text name
  match ← call (.lstat name) with
  | none => .die s!"lstat: {path}"
  | some st1 =>
      if isDir st1.mode then
        validate who v st1 name
        if ← call (.chdir name) then
          match ← call (.lstat (str ".")) with
          | none => .die s!"lstat: {path}"
          | some st2 =>
              match isChanged st1 st2 with
              | some what => .die s!"{path}: {what} changed during execution"
              | none => return ()
        else .die s!"chdir: {path}"
      else .die s!"{path}"

/-- The static state of `strtok`: what is left of the string being cut. -/
abbrev StrtokState := Bytes

/-- `strtok (s, "/")`, `none` being the null pointer. -/
def strtok (s : Option Bytes) (saved : StrtokState) : Option Bytes × StrtokState :=
  strtokR (· = slash) (s.getD saved)

/-- `for (elem = strtok (p, "/"); elem; elem = strtok (0, "/")) body (elem)`, the body being
free to call `strtok` itself. -/
def strtokEach (body : Bytes → StrtokState → SysProg StrtokState) :
    ℕ → Option Bytes → StrtokState → SysProg StrtokState
  | 0, _, saved => .ret saved
  | fuel + 1, s, saved =>
      match strtok s saved with
      | (none, saved) => .ret saved
      | (some elem, saved) => do
          let saved ← body elem saved
          strtokEach body fuel none saved

/-- The path is taken in one step: it is absolute or has no slash. -/
def isSingle (path : Bytes) : Bool := path.head? = some slash ∨ slash ∉ path

/-- `safe_chdir`. -/
def safeChdir (who : Owners) (v : Validator) (path : Bytes) (saved : StrtokState) :
    SysProg StrtokState :=
  if isSingle path then do
    safeChdirComponent who v path
    return saved
  else
    strtokEach (fun elem saved => do
      safeChdirComponent who v elem
      return saved) (path.length + 1) (some path) saved

/-- `safe_fchdir`. -/
def safeFchdir (who : Owners) (v : Validator) (fd : ℤ) : SysProg Unit := do
  match ← call (.fstat fd) with
  | none => .die "fstat"
  | some st =>
      validate who v st (str "(dirfd)")
      orDie (call (.fchdir fd)) "fchdir"

/-! The calls that a change of directory makes. -/

def IsChdirCall : Sys → Prop
  | .lstat _ | .chdir _ => True
  | _ => False

theorem validate_uses (P : Sys → Prop) (who : Owners) (v : Validator) (st : Stat) (name : Bytes) :
    (validate who v st name).Uses P := by
  rw [validate]
  split <;> trivial

theorem safeChdirComponent_uses (who : Owners) (v : Validator) (name : Bytes) :
    (safeChdirComponent who v name).Uses IsChdirCall := by
  refine ⟨trivial, fun st1 => ?_⟩
  rcases st1 with _ | st1
  · trivial
  · change Prog.Uses _ (ite _ _ _)
    split_ifs
    · refine (validate_uses _ who v st1 name).bind fun _ => ⟨trivial, fun changed => ?_⟩
      cases changed
      · trivial
      · refine ⟨trivial, fun st2 => ?_⟩
        rcases st2 with _ | st2
        · trivial
        · change Prog.Uses _ (match isChanged st1 st2 with | some _ => _ | none => _)
          split <;> trivial
    · trivial

theorem strtokEach_uses {P : Sys → Prop} {body : Bytes → StrtokState → SysProg StrtokState}
    (hbody : ∀ elem saved, (body elem saved).Uses P) (fuel : ℕ) (s : Option Bytes)
    (saved : StrtokState) : (strtokEach body fuel s saved).Uses P := by
  induction fuel generalizing s saved with
  | zero => trivial
  | succ fuel ih =>
      rw [strtokEach]
      split
      · trivial
      · exact (hbody _ _).bind fun saved => ih none saved

theorem safeChdir_uses (who : Owners) (v : Validator) (path : Bytes) (saved : StrtokState) :
    (safeChdir who v path saved).Uses IsChdirCall := by
  rw [safeChdir]
  split_ifs
  · exact (safeChdirComponent_uses who v path).bind fun _ => trivial
  · exact strtokEach_uses
      (fun elem saved => (safeChdirComponent_uses who v elem).bind fun _ => uses_ret _ saved)
      _ _ _

end HasherPriv.Chroot.Chdir
