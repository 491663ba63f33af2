/- GID: HasherPriv/Chroot/Validated
   layer: chroot
   source: chdir.c, chdiruid.c
   digest: A validated change of directory does not go unnoticed past any other process. -/

import HasherPriv.Chroot.Chdiruid

set_option autoImplicit false
set_option relaxedAutoImplicit false

namespace HasherPriv.Chroot.Validated

open Foundations.ByteString
open Foundations.Program
open Config.CallerData
open Syscall
open Chdir
open Chdiruid

/-! The world: a file system that other processes rearrange at will between any two calls. -/

section World

variable {I : Type}

/-- Objects with their attributes, and how names resolve from a directory. -/
structure FileSystem (I : Type) where
  attrs : I → Stat
  /-- Resolution that stops at a final symbolic link, as `lstat` does. -/
  lookup : I → Bytes → Option I
  /-- Resolution that follows a final symbolic link, as `chdir` does. -/
  follow : I → Bytes → Option I
  dot : ∀ d, lookup d (str ".") = some d

/-- The file system and the working directory of the process. -/
structure World (I : Type) where
  fs : FileSystem I
  cwd : I

/-- Other processes change the file system, attributes and names alike; the working directory
stays the object it is. -/
def Interfere (w v : World I) : Prop := v.cwd = w.cwd

/-- The calls that look at or change the working directory. Every call may fail. -/
def Answers : (o : Sys) → World I → SysRes o → World I → Prop
  | .lstat name, w, r, w' =>
      w' = w ∧ ∀ st, r = some st → (w.fs.lookup w.cwd name).map w.fs.attrs = some st
  | .chdir name, w, r, w' =>
      w'.fs = w.fs ∧ if r then w.fs.follow w.cwd name = some w'.cwd else w'.cwd = w.cwd
  | .fchdir _, w, _, w' => w'.fs = w.fs
  | _, w, _, w' => w'.cwd = w.cwd

end World

/-! The two nested `strtok` loops visit the components in order. -/

/-- The components visited: the whole path when it is taken in one step. -/
def visited (path : Bytes) : List Bytes := if isSingle path then [path] else components path

/-- The static state of `strtok` afterwards. -/
def strtokAfter (path : Bytes) (saved : StrtokState) : StrtokState :=
  if isSingle path then saved else []

/-- A loop whose body leaves the static state alone goes through the components. -/
private theorem strtokEach_eq {p : Bytes → SysProg Unit}
    {body : Bytes → StrtokState → SysProg StrtokState} {fuel : ℕ} {s : Option Bytes}
    {saved : StrtokState} (hfuel : (s.getD saved).length < fuel)
    (hbody : ∀ elem ∈ components (s.getD saved), ∀ saved,
      body elem saved = (p elem).bind fun _ => .ret saved) :
    strtokEach body fuel s saved =
      (Prog.each p (components (s.getD saved))).bind fun _ => .ret [] := by
  induction fuel generalizing s saved with
  | zero => omega
  | succ fuel ih =>
      unfold components at hbody ⊢
      rw [tokens_strtokR] at hbody ⊢
      unfold strtokEach strtok
      rcases hs : strtokR (· = slash) (s.getD saved) with ⟨_ | elem, rest⟩
      · have hnil := strtokR_none (· = slash) hs
        rw [hnil]
        rfl
      · rw [hs] at hbody
        obtain ⟨helem, hrest⟩ := List.forall_mem_cons.mp hbody
        have hlt := strtokR_length (· = slash) hs
        have ih := @ih none rest (by simpa using by omega) hrest
        change (body elem rest).bind _ = ((p elem).bind _).bind _
        rw [helem, prog_bind_assoc, prog_bind_assoc]
        simp only [bind_ret, ih]
        rfl

private theorem isSingle_of_slashFree {elem : Bytes} (h : slash ∉ elem) : isSingle elem := by
  simp [isSingle, h]

private theorem slashFree_of_mem_components {path elem : Bytes} (h : elem ∈ components path) :
    slash ∉ elem := by
  intro hs
  simpa using delim_free_of_mem_tokens (· = slash) h slash hs

/-- `safe_chdir` goes through the visited components. -/
theorem safeChdir_eq (who : Owners) (v : Validator) (path : Bytes) (saved : StrtokState) :
    safeChdir who v path saved =
      (Prog.each (safeChdirComponent who v) (visited path)).bind
        fun _ => .ret (strtokAfter path saved) := by
  unfold safeChdir visited strtokAfter
  split_ifs
  · simp only [each_cons, each_nil, prog_bind_assoc, bind_ret]
    rfl
  · exact strtokEach_eq (Nat.lt_succ_self _) fun elem _ saved => rfl

/-- The nested loop of `chdiruid` visits the same components: the inner `safe_chdir` finds no
slash in a component and never touches the state of the outer loop. -/
theorem chdirElements_eq (who : Owners) (v : Validator) (path : Bytes) (saved : StrtokState) :
    chdirElements who v path saved = safeChdir who v path saved := by
  rw [safeChdir_eq]
  unfold chdirElements
  split_ifs with hsingle
  · exact safeChdir_eq who v path saved
  · unfold visited strtokAfter
    rw [if_neg hsingle, if_neg hsingle]
    refine strtokEach_eq (Nat.lt_succ_self _) fun elem helem saved => ?_
    unfold safeChdir
    rw [if_pos (isSingle_of_slashFree (slashFree_of_mem_components helem))]
    rfl

/-! One component. -/

/-- The validators and `S_ISDIR` read nothing but what `is_changed` compares. -/
private theorem check_eq_of_isChanged (who : Owners) (v : Validator) (name : Bytes)
    {st1 st2 : Stat} (h : isChanged st1 st2 = none) :
    v.check who st2 name = v.check who st1 name ∧ isDir st2.mode = isDir st1.mode ∧
      st2.dev = st1.dev ∧ st2.ino = st1.ino := by
  unfold isChanged at h
  split_ifs at h with hdev hino _ hmode howner
  rw [not_or, ne_eq, ne_eq, not_not, not_not] at howner
  rw [ne_eq, not_not] at hdev hino hmode
  refine ⟨?_, by rw [hmode], hdev.symm, hino.symm⟩
  cases v <;> simp only [Validator.check, hmode, howner.1, howner.2]

variable {I : Type}

/-- What the steps of one component establish: the object validated before `chdir` and the
working directory at the second `lstat` are directories the validator accepts, with the same
device and inode number. -/
structure Entered (who : Owners) (v : Validator) (name : Bytes)
    (steps : List (Step (World I) SysRes)) (st1 : Stat) : Prop where
  validated : isDir st1.mode ∧ v.check who st1 name = .ok ()
  shape : ∃ s₁ s₂ s₃, steps = [s₁, s₂, s₃] ∧ s₁.event = ⟨.lstat name, some st1⟩ ∧
    s₂.event = ⟨.chdir name, true⟩ ∧
    ∃ st2, s₃.event = ⟨.lstat (str "."), some st2⟩ ∧
      st2 = s₃.before.fs.attrs s₃.before.cwd ∧ isDir st2.mode ∧
      v.check who st2 name = .ok () ∧ st2.dev = st1.dev ∧ st2.ino = st1.ino

private theorem exec_validate {who : Owners} {v : Validator} {st : Stat} {name : Bytes}
    {w w' : World I} {tr : List (Step (World I) SysRes)} {u : Unit}
    (h : Exec Interfere Answers (validate who v st name) w tr (.returned u) w') :
    tr = [] ∧ v.check who st name = .ok () := by
  unfold validate at h
  split at h
  · cases h
  · rename_i hok
    exact ⟨(exec_ret h).1, hok⟩

private theorem component_entered {who : Owners} {v : Validator} {name : Bytes}
    {w w' : World I} {tr : List (Step (World I) SysRes)}
    (h : Exec Interfere Answers (safeChdirComponent who v name) w tr (.returned ()) w') :
    ∃ st1, Entered who v name tr st1 := by
  obtain ⟨v₁, v₁', r₁, rest₁, rfl, -, -, h₁⟩ := exec_call h
  cases r₁ with
  | none => cases h₁
  | some st1 =>
    change Exec _ _ (ite _ _ _) _ _ _ _ at h₁
    split_ifs at h₁ with hdir
    · obtain ⟨_, t₁, t₂, v₂, rfl, hval, h₂⟩ := exec_bind h₁
      obtain ⟨rfl, hok⟩ := exec_validate hval
      obtain ⟨v₃, v₃', r₃, rest₃, rfl, -, -, h₃⟩ := exec_call h₂
      cases r₃ with
      | false => cases h₃
      | true =>
        obtain ⟨v₄, v₄', r₄, rest₄, rfl, -, hsem, h₄⟩ := exec_call h₃
        cases r₄ with
        | none => cases h₄
        | some st2 =>
          cases hch : isChanged st1 st2 with
          | some what =>
              simp only [bind_ret, hch] at h₄
              cases h₄
          | none =>
              simp only [bind_ret, hch] at h₄
              obtain ⟨rfl, -, -⟩ := exec_ret h₄
              -- `.` names the working directory, whatever else has been renamed.
              have hst2 := hsem.2 st2 rfl
              rw [v₄.fs.dot, Option.map_some, Option.some.injEq] at hst2
              obtain ⟨hcheck, hmode, hdev, hino⟩ := check_eq_of_isChanged who v name hch
              exact ⟨st1, ⟨hdir, hok⟩, _, _, _, rfl, rfl, rfl, st2, rfl, hst2.symm,
                hmode.trans hdir, hcheck.trans hok, hdev, hino⟩
    · cases h₁

/-- Every visited component is entered, whatever other processes do in between. -/
private theorem safeChdir_entered {who : Owners} {v : Validator} {path : Bytes}
    {saved after : StrtokState} {w w' : World I} {tr : List (Step (World I) SysRes)}
    (h : Exec Interfere Answers (safeChdir who v path saved) w tr (.returned after) w') :
    ∃ parts : List (List (Step (World I) SysRes)), tr = parts.flatten ∧
      List.Forall₂ (fun name part => ∃ st1, Entered who v name part st1) (visited path) parts := by
  rw [safeChdir_eq] at h
  obtain ⟨_, t₁, t₂, v₁, rfl, heach, hret⟩ := exec_bind h
  obtain ⟨rfl, -, -⟩ := exec_ret hret
  obtain ⟨parts, rfl, hparts⟩ := exec_each heach component_entered
  exact ⟨parts, by simp, hparts⟩

/-- The call leaves the working directory alone. -/
def Stays : Sys → Prop
  | .chdir _ | .fchdir _ => False
  | _ => True

private theorem chUid_stays (uid : UInt32) : (chUid uid).Uses Stays := by
  refine ⟨trivial, fun save => ⟨trivial, fun r => ?_⟩⟩
  change Prog.Uses _ (ite _ _ _)
  split_ifs <;> trivial

private theorem chGid_stays (gid : UInt32) : (chGid gid).Uses Stays := by
  refine ⟨trivial, fun save => ⟨trivial, fun r => ?_⟩⟩
  change Prog.Uses _ (ite _ _ _)
  split_ifs <;> trivial

private theorem changeCreds_stays (c : Caller) : (changeCreds c).Uses Stays :=
  (orDie_uses (uses_op trivial) _).bind fun _ =>
    (chGid_stays _).bind fun _ => (chUid_stays _).bind fun _ => trivial

private theorem checkCwd_stays (s : Settings) : (checkCwd s).Uses Stays := by
  refine ⟨trivial, fun cwd => ?_⟩
  cases cwd with
  | none => trivial
  | some cwd =>
      change Prog.Uses _ (ite _ _ _)
      split_ifs <;> trivial

private theorem restoreCreds_stays (creds : UInt32 × UInt32) :
    (restoreCreds creds).Uses Stays :=
  (chUid_stays _).bind fun _ => (chGid_stays _).bind fun _ =>
    orDie_uses (uses_op trivial) _

/-- A validated change of directory under an adversary: for each visited component, in order,
the working directory at the second `lstat` is a directory the validator accepts, with the
device and inode number of the object validated before `chdir`; `chdiruid` visits the
components `safe_chdir` visits and moves the working directory at no other point. -/
theorem validated_chdir (c : Caller) (s : Settings) (v : Validator) (path : Bytes)
    (saved after : StrtokState) (w w' : World I) (tr : List (Step (World I) SysRes)) :
    (Exec Interfere Answers (safeChdir (owners c s) v path saved) w tr (.returned after) w' →
      ∃ parts : List (List (Step (World I) SysRes)), tr = parts.flatten ∧
        List.Forall₂ (fun name part => ∃ st1, Entered (owners c s) v name part st1)
          (visited path) parts) ∧
    (Exec Interfere Answers (chdiruid c s v path saved) w tr (.returned after) w' →
      ∃ (before afterwards : List (Step (World I) SysRes))
        (parts : List (List (Step (World I) SysRes))),
        tr = before ++ parts.flatten ++ afterwards ∧
        (∀ step ∈ before ++ afterwards, Stays step.event.1) ∧
        List.Forall₂ (fun name part => ∃ st1, Entered (owners c s) v name part st1)
          (visited path) parts) := by
  refine ⟨safeChdir_entered, fun h => ?_⟩
  obtain ⟨creds, t₁, t₂, v₁, rfl, hcreds, hrest⟩ := exec_bind h
  obtain ⟨saved', t₃, t₄, v₂, rfl, hdir, hlast⟩ := exec_bind hrest
  rw [chdirElements_eq] at hdir
  obtain ⟨parts, rfl, hparts⟩ := safeChdir_entered hdir
  refine ⟨t₁, t₄, parts, by simp, ?_, hparts⟩
  intro step hstep
  rcases List.mem_append.mp hstep with hstep | hstep
  · exact hcreds.runs.uses (changeCreds_stays c) _ (List.mem_map_of_mem hstep)
  · refine hlast.runs.uses (Prog.Uses.bind (checkCwd_stays s) fun _ => ?_) _
      (List.mem_map_of_mem hstep)
    exact Prog.Uses.bind (restoreCreds_stays creds) fun _ => trivial

/-! A file system in which every name leads one directory down, until another process puts a
symbolic link in the place of `dev` that leads to where it has moved the directory. -/

private def sampleFs : FileSystem ℕ where
  attrs n := ⟨1, n, 0, 0o040755, 2, 4096, 0, 0⟩
  lookup d name := some (if name = str "." then d else d + 1)
  follow d name := some (if name = str "." then d else d + 1)
  dot _ := rfl

private def movedFs : FileSystem ℕ where
  attrs n := if n = 100 then ⟨1, n, 0, 0o120777, 1, 5, 0, 0⟩ else sampleFs.attrs n
  lookup d name := if name = str "dev" then some 100 else sampleFs.lookup d name
  follow := sampleFs.follow
  dot _ := rfl

private def sampleCaller : Caller := ⟨str "u", str "/home/u", 500, 500, 0⟩

/-- A call made in directory `d`. -/
private def sampleStep (fs : FileSystem ℕ) (d : ℕ) (o : Sys) (r : SysRes o) :
    Step (World ℕ) SysRes :=
  ⟨⟨fs, d⟩, ⟨o, r⟩, ⟨fs, d⟩⟩

/-- The link appears between the first two calls. -/
private def sampleEntry : List (Step (World ℕ) SysRes) :=
  [sampleStep sampleFs 0 (.lstat (str "dev")) (some (sampleFs.attrs 1)),
    ⟨⟨movedFs, 0⟩, ⟨.chdir (str "dev"), true⟩, ⟨movedFs, 1⟩⟩,
    sampleStep movedFs 1 (.lstat (str ".")) (some (sampleFs.attrs 1)),
    sampleStep movedFs 1 (.lstat (str "pts")) (some (sampleFs.attrs 2)),
    ⟨⟨movedFs, 1⟩, ⟨.chdir (str "pts"), true⟩, ⟨movedFs, 2⟩⟩,
    sampleStep movedFs 2 (.lstat (str ".")) (some (sampleFs.attrs 2))]

private def sampleSteps : List (Step (World ℕ) SysRes) :=
  [sampleStep sampleFs 0 (.initgroups (str "u") 500) true,
    sampleStep sampleFs 0 (.setfsgid 500) (0 : UInt32),
    sampleStep sampleFs 0 (.setfsgid 500) (500 : UInt32),
    sampleStep sampleFs 0 (.setfsuid 500) (0 : UInt32),
    sampleStep sampleFs 0 (.setfsuid 500) (500 : UInt32)] ++ sampleEntry ++
  [sampleStep movedFs 2 .getcwd (some (str "/dev/pts")),
    sampleStep movedFs 2 (.setfsuid 0) (500 : UInt32),
    sampleStep movedFs 2 (.setfsuid 0) (0 : UInt32),
    sampleStep movedFs 2 (.setfsgid 0) (500 : UInt32),
    sampleStep movedFs 2 (.setfsgid 0) (0 : UInt32), sampleStep movedFs 2 (.setgroups []) true]

theorem validated_chdir_sample :
    (∃ parts : List (List (Step (World ℕ) SysRes)), sampleEntry = parts.flatten ∧
      List.Forall₂ (fun name part => ∃ st1, Entered ⟨500, 0, 0⟩ .rootOk name part st1)
        [str "dev", str "pts"] parts) ∧
    ∃ (before afterwards : List (Step (World ℕ) SysRes))
      (parts : List (List (Step (World ℕ) SysRes))),
      sampleSteps = before ++ parts.flatten ++ afterwards ∧
      (∀ step ∈ before ++ afterwards, Stays step.event.1) ∧
      List.Forall₂ (fun name part => ∃ st1, Entered ⟨500, 0, 0⟩ .rootOk name part st1)
        [str "dev", str "pts"] parts := by
  have hvisited : visited (str "dev/pts") = [str "dev", str "pts"] := by decide
  have hentry : Exec Interfere Answers (safeChdir ⟨500, 0, 0⟩ .rootOk (str "dev/pts") [])
      ⟨sampleFs, 0⟩ sampleEntry (.returned []) ⟨movedFs, 2⟩ := by
    refine Runs.exec (Prog.runs_of_replay rfl) ?_
    simp [sampleEntry, sampleStep, Chained, Interfere, Answers, sampleFs, movedFs]
    decide
  have hall : Exec Interfere Answers (chdiruid sampleCaller {} .rootOk (str "dev/pts") [])
      ⟨sampleFs, 0⟩ sampleSteps (.returned []) ⟨movedFs, 2⟩ := by
    refine Runs.exec (Prog.runs_of_replay rfl) ?_
    simp [sampleSteps, sampleEntry, sampleStep, Chained, Interfere, Answers, sampleFs, movedFs]
    decide
  rw [← hvisited]
  exact ⟨(validated_chdir sampleCaller {} .rootOk _ [] [] _ _ _).1 hentry,
    (validated_chdir sampleCaller {} .rootOk _ [] [] _ _ _).2 hall⟩

end HasherPriv.Chroot.Validated
