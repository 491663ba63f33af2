/- GID: HasherPriv/Chroot/Eviction
   layer: chroot
   source: killuid.c, spawn_killuid.c, ipc.c
   digest: What do_killuid leaves of the two users while their processes run beside it. -/

import HasherPriv.Chroot.Ipc
import HasherPriv.Foundations.Contracts
import Mathlib.Logic.Relation

set_option autoImplicit false
set_option relaxedAutoImplicit false

namespace HasherPriv.Chroot.Eviction

open Foundations.Program
open Foundations.Contracts
open Config.CallerData (Floors Settings)
open Ipc
open Killuid (doKilluid sigkill spawnKilluid)
open Syscall (Sys SysRes SysProg call helper)

/-! The processes. -/

/-- What counts of the credentials of a process. -/
structure Ids where
  ruid : UInt32
  euid : UInt32
  suid : UInt32
  deriving DecidableEq

def Ids.list (p : Ids) : List UInt32 := [p.ruid, p.euid, p.suid]

/-- `setreuid`, where -1 stands for no change. -/
def Ids.setreuid (p : Ids) (ruid euid : UInt32) : Ids :=
  let euid' := if euid = 0xffffffff then p.euid else euid
  { ruid := if ruid = 0xffffffff then p.ruid else ruid
    euid := euid'
    suid := if ruid ≠ 0xffffffff ∨ (euid ≠ 0xffffffff ∧ euid ≠ p.ruid) then euid' else p.suid }

/-- Whether `p` may send a signal to `q`. -/
def Ids.maySignal (p q : Ids) : Bool :=
  p.euid = 0 ∨ p.ruid = q.ruid ∨ p.ruid = q.suid ∨ p.euid = q.ruid ∨ p.euid = q.suid

/-- The other processes, the own credentials and the System V objects. -/
structure World where
  procs : ℕ → Option Ids
  self : Ids
  groups : List UInt32
  tables : Kind → Table

/-- What `ipc.c` works on. -/
def World.ipc (w : World) : IpcState := ⟨w.tables, w.self.euid, w.groups⟩

/-- `kill (-1, SIGKILL)` spares `init`. Who has got the signal does nothing more. -/
def World.killAll (w : World) : World :=
  { w with procs := fun pid => (w.procs pid).filter fun p => pid = 1 || ! w.self.maySignal p }

def IpcAnswers (o : IpcOp) (w : World) (r : IpcRes o) (w' : World) : Prop :=
  r = (answer o w.ipc).1 ∧ w' = { w with tables := (answer o w.ipc).2.tables }

section

variable (uid1 uid2 : UInt32)

def Owned (uid : UInt32) : Prop := uid = uid1 ∨ uid = uid2

def Ids.Involved (p : Ids) : Prop := ∃ id ∈ p.list, Owned uid1 uid2 id

def Ids.Confined (p : Ids) : Prop := ∀ id ∈ p.list, Owned uid1 uid2 id

/-- No object of the two users is new or changed. -/
def OnlyFewer (t t' : Table) : Prop :=
  ∀ i o, t'.slot i = some o → Owned uid1 uid2 o.uid → t.slot i = some o

/-- What other processes do meanwhile. None but those of the two users takes on their identity or
alters their objects, except that it may remove them. -/
inductive Act (w : World) : World → Prop
  | exit (pid : ℕ) : Act w { w with procs := Function.update w.procs pid none }
  | fork {pid child : ℕ} {p : Ids} (hp : w.procs pid = some p) (hfree : w.procs child = none)
      (hinit : child ≠ 1) : Act w { w with procs := Function.update w.procs child (some p) }
  | setIds {pid : ℕ} {p p' : Ids} (hp : w.procs pid = some p)
      (hids : p'.list ⊆ p.list ∨ (p.euid = 0 ∧ ¬ p'.Involved uid1 uid2)) :
      Act w { w with procs := Function.update w.procs pid (some p') }
  | ipc {pid : ℕ} {p : Ids} {kind : Kind} {t : Table} (hp : w.procs pid = some p)
      (ht : p.Involved uid1 uid2 ∨ OnlyFewer uid1 uid2 (w.tables kind) t) :
      Act w { w with tables := Function.update w.tables kind t }

abbrev Interferes : World → World → Prop := Relation.ReflTransGen (Act uid1 uid2)

/-- The calls of `do_killuid`. Those of `purge_ipc` are made one by one, too. -/
def Answers : (o : Sys) → World → SysRes o → World → Prop
  | .getuid, w, r, w' => r = w.self.ruid ∧ w' = w
  | .setreuid ruid euid, w, r, w' =>
      w' = if r then { w with self := w.self.setreuid ruid euid } else w
  | .kill pid signo, w, r, w' =>
      w' = if r ∧ pid = -1 ∧ signo = sigkill then w.killAll else w
  | .helper (.purgeIpc u₁ u₂), w, r, w' =>
      r = some 0 ∧ ∃ tr, Exec (Interferes uid1 uid2) IpcAnswers (purgeIpc u₁ u₂) w tr
        (.returned ()) w'
  | _, w, _, w' => w' = w

/-- The calls of `spawn_killuid`. What the child does is over when it has been waited for. -/
def SpawnAnswers (f : Floors) (s : Settings) : (o : Sys) → World → SysRes o → World → Prop
  | .waitpid _, w, r, w' =>
      ∃ tr out v, Exec (Interferes uid1 uid2) (Answers uid1 uid2) (doKilluid f s) w tr out v ∧
        w' = { v with self := w.self, groups := w.groups } ∧
          (r = some (.exited 0) → out = .returned ())
  | o, w, r, w' => Answers uid1 uid2 o w r w'

/-- A process with an identity of the two users has no other one, and is not `init`. -/
def Separated (w : World) : Prop :=
  ∀ pid p, w.procs pid = some p → p.Involved uid1 uid2 → p.Confined uid1 uid2 ∧ pid ≠ 1

/-- No process has an identity of the two users. -/
def Quiet (w : World) : Prop := ∀ pid p, w.procs pid = some p → ¬ p.Involved uid1 uid2

/-- Nothing of the two users is left but objects that their owner may not read. -/
def Evicted (w : World) : Prop :=
  Quiet uid1 uid2 w ∧
    ∀ kind i o, (w.tables kind).slot i = some o → Owned uid1 uid2 o.uid → ownerReads o = false

end

variable {uid1 uid2 : UInt32} {w w' v : World}

theorem confined_of_subset {p p' : Ids} (h : p'.list ⊆ p.list) (hp : p.Confined uid1 uid2) :
    p'.Confined uid1 uid2 := fun id hid => hp id (h hid)

theorem involved_of_subset {p p' : Ids} (h : p'.list ⊆ p.list) (hp : p'.Involved uid1 uid2) :
    p.Involved uid1 uid2 := by
  obtain ⟨id, hid, howned⟩ := hp
  exact ⟨id, h hid, howned⟩

theorem update_some {procs : ℕ → Option Ids} {pid pid' : ℕ} {new : Option Ids} {p : Ids}
    (h : Function.update procs pid' new pid = some p) :
    pid = pid' ∧ new = some p ∨ procs pid = some p := by
  by_cases hpid : pid = pid'
  · subst hpid
    rw [Function.update_self] at h
    exact .inl ⟨rfl, h⟩
  · rw [Function.update_of_ne hpid] at h
    exact .inr h

theorem Act.separated (hw : Separated uid1 uid2 w) (h : Act uid1 uid2 w w') :
    Separated uid1 uid2 w' := by
  intro pid q hq hinvolved
  cases h with
  | exit pid' =>
      rcases update_some hq with ⟨-, hnone⟩ | hq
      · cases hnone
      · exact hw pid q hq hinvolved
  | fork hp hfree hinit =>
      rcases update_some hq with ⟨rfl, hsome⟩ | hq
      · obtain rfl := Option.some.inj hsome
        exact ⟨(hw _ _ hp hinvolved).1, hinit⟩
      · exact hw pid q hq hinvolved
  | setIds hp hids =>
      rcases update_some hq with ⟨rfl, hsome⟩ | hq
      · obtain rfl := Option.some.inj hsome
        rcases hids with hsubset | ⟨-, hnot⟩
        · obtain ⟨hconfined, hinit⟩ := hw _ _ hp (involved_of_subset hsubset hinvolved)
          exact ⟨confined_of_subset hsubset hconfined, hinit⟩
        · exact (hnot hinvolved).elim
      · exact hw pid q hq hinvolved
  | ipc hp ht => exact hw pid q hq hinvolved

/-- What others do is none of the own credentials. -/
theorem Act.self (h : Act uid1 uid2 w w') : w'.self = w.self ∧ w'.groups = w.groups := by
  cases h <;> exact ⟨rfl, rfl⟩

/-- Once the processes of the two users are gone, none comes back, and objects only go. -/
structure Later (uid1 uid2 : UInt32) (w w' : World) : Prop where
  quiet : Quiet uid1 uid2 w'
  fewer : ∀ kind, OnlyFewer uid1 uid2 (w.tables kind) (w'.tables kind)
  self : w'.self = w.self
  groups : w'.groups = w.groups

theorem Later.refl (h : Quiet uid1 uid2 w) : Later uid1 uid2 w w :=
  ⟨h, fun _ _ _ h _ => h, rfl, rfl⟩

theorem Later.trans (h : Later uid1 uid2 w v) (h' : Later uid1 uid2 v w') :
    Later uid1 uid2 w w' := by
  refine ⟨h'.quiet, ?_, h'.self.trans h.self, h'.groups.trans h.groups⟩
  intro kind i o ho howned
  exact h.fewer kind i o (h'.fewer kind i o ho howned) howned

theorem Act.later (hw : Quiet uid1 uid2 w) (h : Act uid1 uid2 w w') : Later uid1 uid2 w w' := by
  have hsame (kind : Kind) : OnlyFewer uid1 uid2 (w.tables kind) (w.tables kind) :=
    fun _ _ h _ => h
  cases h with
  | exit pid' =>
      refine ⟨?_, hsame, rfl, rfl⟩
      intro pid q hq
      rcases update_some hq with ⟨-, hnone⟩ | hq
      · cases hnone
      · exact hw pid q hq
  | fork hp hfree hinit =>
      refine ⟨?_, hsame, rfl, rfl⟩
      intro pid q hq
      rcases update_some hq with ⟨-, hsome⟩ | hq
      · obtain rfl := Option.some.inj hsome
        exact hw _ _ hp
      · exact hw pid q hq
  | setIds hp hids =>
      refine ⟨?_, hsame, rfl, rfl⟩
      intro pid q hq
      rcases update_some hq with ⟨-, hsome⟩ | hq
      · obtain rfl := Option.some.inj hsome
        rcases hids with hsubset | ⟨-, hnot⟩
        · exact fun hinvolved => hw _ _ hp (involved_of_subset hsubset hinvolved)
        · exact hnot
      · exact hw pid q hq
  | @ipc pid p kind t hp ht =>
      refine ⟨hw, ?_, rfl, rfl⟩
      intro kind'
      show OnlyFewer uid1 uid2 _ (Function.update w.tables kind t kind')
      by_cases hkind : kind' = kind
      · subst hkind
        rw [Function.update_self]
        exact ht.resolve_left (hw _ _ hp)
      · rw [Function.update_of_ne hkind]
        exact hsame kind'

theorem later_of_interferes (hw : Quiet uid1 uid2 w) (h : Interferes uid1 uid2 w w') :
    Later uid1 uid2 w w' := by
  induction h with
  | refl => exact .refl hw
  | tail _ hact ih => exact ih.trans (hact.later ih.quiet)

theorem separated_of_interferes (hw : Separated uid1 uid2 w) (h : Interferes uid1 uid2 w w') :
    Separated uid1 uid2 w' ∧ w'.self = w.self ∧ w'.groups = w.groups := by
  induction h with
  | refl => exact ⟨hw, rfl, rfl⟩
  | tail _ hact ih =>
      obtain ⟨hseparated, hself, hgroups⟩ := ih
      exact ⟨hact.separated hseparated, hact.self.1.trans hself, hact.self.2.trans hgroups⟩

/-! One pass over the objects. -/

/-- There is nothing at the index that the pass could have removed. -/
def Gone (uid1 uid2 : UInt32) (kind : Kind) (i : ℕ) (w : World) : Prop :=
  ∀ o, (w.tables kind).slot i = some o →
    removable w.self.euid w.groups uid1 uid2 o = false

theorem owned_of_removable {euid : UInt32} {groups : List UInt32} {o : Object}
    (h : removable euid groups uid1 uid2 o = true) : Owned uid1 uid2 o.uid := by
  simp only [removable, decide_eq_true_eq] at h
  exact h.1

theorem Gone.later {kind : Kind} {i : ℕ} (h : Gone uid1 uid2 kind i w)
    (hlater : Later uid1 uid2 w w') : Gone uid1 uid2 kind i w' := by
  intro o ho
  rw [hlater.self, hlater.groups]
  by_contra hremovable
  have hremovable := Bool.not_eq_false _ ▸ hremovable
  have hbefore := hlater.fewer kind i o ho (owned_of_removable hremovable)
  rw [h o hbefore] at hremovable
  cases hremovable

abbrev Purges (uid1 uid2 : UInt32) {α : Type} (p : IpcProg α) (post : α → World → Prop)
    (w : World) : Prop :=
  Ensures (Amid (Interferes uid1 uid2) IpcAnswers) (fun _ _ _ _ => True) p post w

theorem keep_later {kind : Kind} {q : ℕ → Object → Bool} (hw : Quiet uid1 uid2 w) :
    Later uid1 uid2 w
      { w with tables := Function.update w.tables kind ((w.tables kind).keep q) } := by
  refine ⟨hw, ?_, rfl, rfl⟩
  intro kind' i o ho _
  have ho : (Function.update w.tables kind ((w.tables kind).keep q) kind').slot i = some o := ho
  by_cases hkind : kind' = kind
  · subst hkind
    rw [Function.update_self, Table.keep_slot] at ho
    exact (Option.filter_eq_some_iff.mp ho).1
  · rwa [Function.update_of_ne hkind] at ho

theorem purgeIndex_gone {kind : Kind} {i : ℕ} (hw : Quiet uid1 uid2 w) :
    Purges uid1 uid2 (purgeIndex kind uid1 uid2 i)
      (fun _ w' => Later uid1 uid2 w w' ∧ Gone uid1 uid2 kind i w') w := by
  rintro r w₁ ⟨v, hinterferes, hr, hw₁⟩
  refine ⟨trivial, ?_⟩
  have hv : Later uid1 uid2 w v := later_of_interferes hw hinterferes
  have hsame : w₁ = v := hw₁
  rw [hsame]
  have hr : r = (((v.tables kind).slot i).filter (readable v.self.euid v.groups)).map
    fun o => (o.id, o.uid) := hr
  cases r with
  | none =>
      refine ⟨hv, ?_⟩
      intro o ho
      have hunreadable : readable v.self.euid v.groups o = false := by
        by_contra hread
        rw [ho, Option.filter_some_pos (by simpa using hread)] at hr
        cases hr
      simp [removable, hunreadable]
  | some found =>
      obtain ⟨id, uid⟩ := found
      obtain ⟨o, ho, hpair⟩ := Option.map_eq_some_iff.mp hr.symm
      obtain ⟨hslot, hread⟩ := Option.filter_eq_some_iff.mp ho
      obtain ⟨rfl, rfl⟩ := Prod.mk.inj hpair
      show Ensures _ _ (ite _ _ _) _ _
      by_cases hother : uid1 ≠ o.uid ∧ uid2 ≠ o.uid
      · rw [if_pos hother]
        refine ⟨hv, ?_⟩
        intro o' ho'
        obtain rfl := Option.some.inj (hslot.symm.trans ho')
        simp [removable, hother.1.symm, hother.2.symm]
      · rw [if_neg hother]
        rintro removed w₂ ⟨v', hinterferes', -, hw₂⟩
        refine ⟨trivial, ?_⟩
        have hv' : Later uid1 uid2 v v' := later_of_interferes hv.quiet hinterferes'
        have hkeep : w₂ = { v' with
            tables := Function.update v'.tables kind ((v'.tables kind).keep fun _ o' =>
              ! (decide (o'.id = o.id ∧ mayRemove v'.self.euid o' = true))) } := hw₂
        have hlater : Later uid1 uid2 v' w₂ := by
          rw [hkeep]
          exact keep_later hv'.quiet
        refine ⟨(hv.trans hv').trans hlater, ?_⟩
        intro o' ho'
        by_contra hremovable
        have hremovable := Bool.not_eq_false _ ▸ hremovable
        have howned := owned_of_removable hremovable
        have hbefore := hv'.fewer kind i o' (hlater.fewer kind i o' ho' howned) howned
        obtain rfl := Option.some.inj (hslot.symm.trans hbefore)
        rw [hkeep] at ho'
        have ho' : (Function.update v'.tables kind _ kind).slot i = some o := ho'
        rw [Function.update_self, Table.keep_slot] at ho'
        have hkept := (Option.filter_eq_some_iff.mp ho').2
        have hmay : mayRemove v'.self.euid o = true := by
          rw [hlater.self] at hremovable
          simp only [removable, decide_eq_true_eq] at hremovable
          exact hremovable.2.2
        simp [hmay] at hkept

/-- The loop, whatever is removed at the other indices meanwhile. -/
theorem purgeLoop_gone {kind : Kind} (is : List ℕ) (hw : Quiet uid1 uid2 w) :
    Purges uid1 uid2 (Prog.each (purgeIndex kind uid1 uid2) is)
      (fun _ w' => Later uid1 uid2 w w' ∧ ∀ i ∈ is, Gone uid1 uid2 kind i w') w := by
  induction is generalizing w with
  | nil => exact ⟨.refl hw, fun i hi => (List.not_mem_nil hi).elim⟩
  | cons i is ih =>
      rw [each_cons]
      apply (purgeIndex_gone hw).bind
      rintro _ w₁ ⟨hlater₁, hgone₁⟩
      apply (ih hlater₁.quiet).mono
      rintro _ w₂ ⟨hlater₂, hgone₂⟩
      refine ⟨hlater₁.trans hlater₂, ?_⟩
      intro j hj
      rcases List.mem_cons.mp hj with rfl | hj
      · exact hgone₁.later hlater₂
      · exact hgone₂ j hj

/-- All indices are reached: an object that is above the highest one at the start is not one of
the two users'. -/
theorem purgeKind_gone {kind : Kind} (hw : Quiet uid1 uid2 w) :
    Purges uid1 uid2 (purgeKind kind uid1 uid2)
      (fun _ w' => Later uid1 uid2 w w' ∧ ∀ i, Gone uid1 uid2 kind i w') w := by
  rintro r w₁ ⟨v, hinterferes, hr, hw₁⟩
  refine ⟨trivial, ?_⟩
  have hv : Later uid1 uid2 w v := later_of_interferes hw hinterferes
  have hsame : w₁ = v := hw₁
  rw [hsame]
  obtain rfl : r = some (v.tables kind).highest := hr
  apply (purgeLoop_gone (List.range ((v.tables kind).highest + 1)) hv.quiet).mono
  rintro _ w₂ ⟨hlater, hgone⟩
  refine ⟨hv.trans hlater, ?_⟩
  intro i o ho
  by_contra hremovable
  have hremovable := Bool.not_eq_false _ ▸ hremovable
  have hbefore := hlater.fewer kind i o ho (owned_of_removable hremovable)
  have hmem : i ∈ List.range ((v.tables kind).highest + 1) :=
    List.mem_range.mpr (Nat.lt_succ_of_le (Table.le_highest hbefore))
  rw [hgone i hmem o ho] at hremovable
  cases hremovable

/-- A pass with that effective uid has left nothing that it could have removed. -/
def Passed (uid1 uid2 euid : UInt32) (groups : List UInt32) (w : World) : Prop :=
  ∀ kind i o, (w.tables kind).slot i = some o → removable euid groups uid1 uid2 o = false

theorem Passed.later {euid : UInt32} {groups : List UInt32}
    (h : Passed uid1 uid2 euid groups w) (hlater : ∀ kind,
      OnlyFewer uid1 uid2 (w.tables kind) (w'.tables kind)) :
    Passed uid1 uid2 euid groups w' := by
  intro kind i o ho
  by_contra hremovable
  have hremovable := Bool.not_eq_false _ ▸ hremovable
  rw [h kind i o (hlater kind i o ho (owned_of_removable hremovable))] at hremovable
  cases hremovable

theorem purgeIpc_passed (hw : Quiet uid1 uid2 w) : Purges uid1 uid2 (purgeIpc uid1 uid2)
    (fun _ w' => Later uid1 uid2 w w' ∧ Passed uid1 uid2 w.self.euid w.groups w') w := by
  apply (purgeKind_gone hw).bind
  rintro _ w₁ ⟨hlater₁, hsem⟩
  apply (purgeKind_gone hlater₁.quiet).bind
  rintro _ w₂ ⟨hlater₂, hshm⟩
  apply (purgeKind_gone hlater₂.quiet).mono
  rintro _ w₃ ⟨hlater₃, hmsg⟩
  have hlater := (hlater₁.trans hlater₂).trans hlater₃
  refine ⟨hlater, ?_⟩
  have hgone (kind : Kind) (i : ℕ) : Gone uid1 uid2 kind i w₃ := by
    cases kind with
    | sem => exact ((hsem i).later hlater₂).later hlater₃
    | shm => exact (hshm i).later hlater₃
    | msg => exact hmsg i
  intro kind i o ho
  have hspared := hgone kind i o ho
  rwa [hlater.self, hlater.groups] at hspared

/-! `do_killuid`. -/

/-- Nobody who is confined to the two users escapes the signal. -/
theorem killAll_quiet (hw : Separated uid1 uid2 w)
    (hself : w.self.ruid = uid1 ∧ w.self.euid = uid2) : Quiet uid1 uid2 w.killAll := by
  intro pid p hp hinvolved
  obtain ⟨hbefore, hspared⟩ := Option.filter_eq_some_iff.mp hp
  obtain ⟨hconfined, hinit⟩ := hw pid p hbefore hinvolved
  have hreal : Owned uid1 uid2 p.ruid := hconfined p.ruid (by simp [Ids.list])
  have hmay : w.self.maySignal p = true := by
    rcases hreal with hreal | hreal
    · simp [Ids.maySignal, hself, hreal]
    · simp [Ids.maySignal, hself, hreal]
  simp [hinit, hmay] at hspared

theorem setreuid_ids {p : Ids} {ruid euid : UInt32} (hr : ruid ≠ 0xffffffff)
    (he : euid ≠ 0xffffffff) : p.setreuid ruid euid = ⟨ruid, euid, euid⟩ := by
  simp [Ids.setreuid, hr, he]

abbrev Kills (uid1 uid2 : UInt32) {α : Type} (p : SysProg α) (post : α → World → Prop)
    (w : World) : Prop :=
  Ensures (Amid (Interferes uid1 uid2) (Answers uid1 uid2)) (fun _ _ _ _ => True) p post w

theorem orDie_kills {p : SysProg Bool} {why : String} {post : World → Prop}
    (h : Kills uid1 uid2 p (fun r w' => r = true → post w') w) :
    Kills uid1 uid2 (Syscall.orDie p why) (fun _ w' => post w') w := by
  apply h.bind
  intro r w' hpost
  cases r with
  | true => exact hpost rfl
  | false => trivial

/-- One of the two passes. -/
theorem helper_purge {f : ℤ → SysProg Unit} {post : Unit → World → Prop}
    (hw : Quiet uid1 uid2 w) (hf : ∀ w', Later uid1 uid2 w w' →
      Passed uid1 uid2 w.self.euid w.groups w' → Kills uid1 uid2 (f 0) post w') :
    Kills uid1 uid2 ((helper (.purgeIpc uid1 uid2)).bind f) post w := by
  rintro r w' ⟨v, hinterferes, rfl, tr, hrun⟩
  refine ⟨trivial, ?_⟩
  have hv : Later uid1 uid2 w v := later_of_interferes hw hinterferes
  obtain ⟨hlater, hpassed⟩ := (purgeIpc_passed hv.quiet).exec_amid hrun
  rw [hv.self, hv.groups] at hpassed
  exact hf w' (hv.trans hlater) hpassed

/-- The last word of the two passes: one of them was made by the owner. -/
theorem evicted_of_passed {groups : List UInt32} (hw : Quiet uid1 uid2 w)
    (h₁ : Passed uid1 uid2 uid1 groups w) (h₂ : Passed uid1 uid2 uid2 groups w) :
    Evicted uid1 uid2 w := by
  refine ⟨hw, ?_⟩
  intro kind i o ho howned
  have hown : (decide (o.uid = uid1 ∨ o.uid = uid2)) = true := decide_eq_true howned
  have hfirst := h₁ kind i o ho
  have hsecond := h₂ kind i o ho
  rw [removable_eq, hown, Bool.true_and] at hfirst hsecond
  rcases howned with howned | howned
  · simpa [mayRemove, howned] using hfirst
  · simpa [mayRemove, howned] using hsecond

/-- The calls of `do_killuid` from the first `setreuid` on. -/
theorem evicts_as_root {s : Settings} (h₁ : s.changeUid1 ≠ 0xffffffff)
    (h₂ : s.changeUid2 ≠ 0xffffffff) (hw : Separated s.changeUid1 s.changeUid2 w) :
    Kills s.changeUid1 s.changeUid2 (do
      Syscall.orDie (call (.setreuid s.changeUid1 s.changeUid2)) "setreuid"
      Syscall.orDie (call (.kill (-1) sigkill)) "kill"
      let _ ← helper (.purgeIpc s.changeUid1 s.changeUid2)
      Syscall.orDie (call (.setreuid s.changeUid2 s.changeUid1)) "setreuid"
      let _ ← helper (.purgeIpc s.changeUid1 s.changeUid2)
      return ()) (fun _ w' => Evicted s.changeUid1 s.changeUid2 w') w := by
  have hset : Kills s.changeUid1 s.changeUid2
      (Syscall.orDie (call (.setreuid s.changeUid1 s.changeUid2)) "setreuid")
      (fun _ w' => Separated s.changeUid1 s.changeUid2 w' ∧
        w'.self = ⟨s.changeUid1, s.changeUid2, s.changeUid2⟩) w := by
    apply orDie_kills
    rintro r w' ⟨v, hinterferes, rfl⟩
    refine ⟨trivial, ?_⟩
    rintro rfl
    exact ⟨(separated_of_interferes hw hinterferes).1, setreuid_ids h₁ h₂⟩
  apply hset.bind
  rintro _ w₁ ⟨hw₁, hself₁⟩
  have hkill : Kills s.changeUid1 s.changeUid2 (Syscall.orDie (call (.kill (-1) sigkill)) "kill")
      (fun _ w' => Quiet s.changeUid1 s.changeUid2 w' ∧ w'.self = w₁.self ∧
        w'.groups = w₁.groups) w₁ := by
    apply orDie_kills
    rintro r w' ⟨v, hinterferes, rfl⟩
    refine ⟨trivial, ?_⟩
    rintro rfl
    obtain ⟨hv, hself, hgroups⟩ := separated_of_interferes hw₁ hinterferes
    refine ⟨killAll_quiet hv ?_, hself, hgroups⟩
    rw [hself, hself₁]
    exact ⟨rfl, rfl⟩
  apply hkill.bind
  rintro _ w₂ ⟨hquiet₂, hself₂, -⟩
  apply helper_purge hquiet₂
  intro w₃ hlater₃ hpassed₂
  have hsecond : Kills s.changeUid1 s.changeUid2
      (Syscall.orDie (call (.setreuid s.changeUid2 s.changeUid1)) "setreuid")
      (fun _ w' => Quiet s.changeUid1 s.changeUid2 w' ∧ w'.groups = w₂.groups ∧
        w'.self = ⟨s.changeUid2, s.changeUid1, s.changeUid1⟩ ∧
          Passed s.changeUid1 s.changeUid2 s.changeUid2 w₂.groups w') w₃ := by
    apply orDie_kills
    rintro r w' ⟨v, hinterferes, rfl⟩
    refine ⟨trivial, ?_⟩
    rintro rfl
    have hv := later_of_interferes hlater₃.quiet hinterferes
    refine ⟨hv.quiet, hv.groups.trans hlater₃.groups, setreuid_ids h₂ h₁, ?_⟩
    rw [hself₂, hself₁] at hpassed₂
    exact hpassed₂.later hv.fewer
  apply hsecond.bind
  rintro _ w₄ ⟨hquiet₄, hgroups₄, hself₄, hpassed₄⟩
  apply helper_purge hquiet₄
  intro w₅ hlater₅ hpassed₁
  rw [hself₄, hgroups₄] at hpassed₁
  exact evicted_of_passed hlater₅.quiet hpassed₁ (hpassed₄.later hlater₅.fewer)

theorem doKilluid_evicts (f : Floors) {s : Settings} (h₁ : s.changeUid1 ≠ 0xffffffff)
    (h₂ : s.changeUid2 ≠ 0xffffffff) (hw : Separated s.changeUid1 s.changeUid2 w) :
    Kills s.changeUid1 s.changeUid2 (doKilluid f s)
      (fun _ w' => Evicted s.changeUid1 s.changeUid2 w') w := by
  rintro u w₁ ⟨v, hinterferes, -, rfl⟩
  refine ⟨trivial, ?_⟩
  have hv := (separated_of_interferes hw hinterferes).1
  show Kills _ _ (ite _ _ _) _ _
  split_ifs
  · trivial
  · trivial
  · rintro raised w₂ ⟨v₂, hinterferes₂, rfl⟩
    refine ⟨trivial, ?_⟩
    have hv₂ := (separated_of_interferes hv hinterferes₂).1
    cases raised with
    | none => trivial
    | some rc =>
        have hprctl : Kills s.changeUid1 s.changeUid2
            (Syscall.orDie (call .prctlDumpable) "prctl PR_SET_DUMPABLE")
            (fun _ w' => Separated s.changeUid1 s.changeUid2 w') w₂ := by
          apply orDie_kills
          rintro r w₃ ⟨v₃, hinterferes₃, rfl⟩
          exact ⟨trivial, fun _ => (separated_of_interferes hv₂ hinterferes₃).1⟩
        apply hprctl.bind
        intro _ w₃ hw₃
        exact evicts_as_root h₁ h₂ hw₃

theorem Evicted.interferes (h : Evicted uid1 uid2 w) (hv : Interferes uid1 uid2 w v) :
    Evicted uid1 uid2 v := by
  have hlater := later_of_interferes h.1 hv
  refine ⟨hlater.quiet, ?_⟩
  intro kind i o ho howned
  exact h.2 kind i o (hlater.fewer kind i o ho howned) howned

/-! `spawn_killuid`. -/

/-- The parent goes on only after its child has returned from `do_killuid`. -/
theorem spawnKilluid_evicts (f : Floors) {s : Settings} (h₁ : s.changeUid1 ≠ 0xffffffff)
    (h₂ : s.changeUid2 ≠ 0xffffffff) (hw : Separated s.changeUid1 s.changeUid2 w)
    {tr : List (Step World SysRes)}
    (hrun : Exec (Interferes s.changeUid1 s.changeUid2)
      (SpawnAnswers s.changeUid1 s.changeUid2 f s) (spawnKilluid f s) w tr (.returned ()) w') :
    Evicted s.changeUid1 s.changeUid2 w' := by
  obtain ⟨v, w₁, forked, rest, rfl, hv, rfl, hrest⟩ := exec_call hrun
  have hw₁ := (separated_of_interferes hw hv).1
  cases forked with
  | failed => cases hrest
  | child =>
      obtain ⟨_, _, _, _, rfl, -, hexit⟩ := exec_bind (p := doKilluid f s) hrest
      obtain ⟨_, _, never, _⟩ := exec_call hexit
      exact never.elim
  | parent pid =>
      obtain ⟨v₁, w₂, status, rest, rfl, hv₁, hwait, hrest⟩ := exec_call hrest
      obtain ⟨trChild, out, v₂, hchild, hw₂, hout⟩ := hwait
      have hv₁ := (separated_of_interferes hw₁ hv₁).1
      match status, hrest, hout with
      | none, hrest, _ => cases hrest
      | some (.signaled signo), hrest, _ => cases hrest
      | some .other, hrest, _ => cases hrest
      | some (.exited rc), hrest, hout =>
          have hrest : Exec _ _ (ite (rc = 0) (Prog.ret ()) (.die _)) w₂ rest (.returned ()) w' :=
            hrest
          split_ifs at hrest with hrc
          · subst hrc
            obtain ⟨-, -, rfl⟩ := exec_ret hrest
            rw [hout rfl] at hchild
            have hevicted := (doKilluid_evicts f h₁ h₂ hv₁).exec_amid hchild
            rw [hw₂]
            exact hevicted
          · cases hrest

theorem answer_ids (o : IpcOp) (k : IpcState) :
    (answer o k).2.euid = k.euid ∧ (answer o k).2.groups = k.groups := by
  cases o <;> exact ⟨rfl, rfl⟩

/-- With nobody interfering, the calls are answered as before. -/
theorem exec_of_eval {α : Type} {p : IpcProg α} {a : α} {k : IpcState}
    (h : p.eval answer w.ipc = (some a, k)) :
    ∃ tr, Exec (Interferes uid1 uid2) IpcAnswers p w tr (.returned a)
      { w with tables := k.tables } := by
  induction p generalizing w with
  | ret b =>
      obtain ⟨hb, rfl⟩ := Prod.mk.inj h
      obtain rfl := Option.some.inj hb
      exact ⟨[], .ret b w⟩
  | die why => cases h
  | call o rest ih =>
      have hipc : World.ipc { w with tables := (answer o w.ipc).2.tables } = (answer o w.ipc).2 := by
        obtain ⟨heuid, hgroups⟩ := answer_ids o w.ipc
        rw [World.ipc, ← show (answer o w.ipc).2.euid = w.self.euid from heuid,
          ← show (answer o w.ipc).2.groups = w.groups from hgroups]
      rw [Prog.eval, ← hipc] at h
      obtain ⟨tr, hrest⟩ := ih (answer o w.ipc).1 h
      exact ⟨_, .call .refl ⟨rfl, rfl⟩ hrest⟩

/-- Two processes and a shared memory segment of the two users, and `init`. -/
def crowded : World where
  procs := fun pid =>
    if pid = 1 then some ⟨0, 0, 0⟩
    else if pid = 500 then some ⟨1001, 1001, 1001⟩
    else if pid = 501 then some ⟨1002, 1002, 1001⟩
    else none
  self := ⟨0, 0, 0⟩
  groups := []
  tables kind :=
    { slot := fun i => if kind = .shm ∧ i = 3 then some ⟨7, 1001, 1001, 1002, 1002, 0o600⟩ else none
      limit := 3
      bound := by
        intro i o h
        split_ifs at h with hi
        exact hi.2.le
      distinct := by
        intro i j o o' h h' _
        split_ifs at h with hi
        split_ifs at h' with hj
        exact hi.2.trans hj.2.symm }

theorem crowded_separated : Separated 1001 1002 crowded := by
  intro pid p hp hinvolved
  have hp : (if pid = 1 then some (⟨0, 0, 0⟩ : Ids)
    else if pid = 500 then some ⟨1001, 1001, 1001⟩
    else if pid = 501 then some ⟨1002, 1002, 1001⟩
    else none) = some p := hp
  split_ifs at hp with hinit hfirst hsecond
  · obtain rfl := Option.some.inj hp
    obtain ⟨id, hid, howned⟩ := hinvolved
    simp only [Ids.list, List.mem_cons, List.not_mem_nil, or_false, or_self] at hid
    subst hid
    rcases howned with h | h <;> cases h
  · obtain rfl := Option.some.inj hp
    refine ⟨?_, hinit⟩
    intro id hid
    simp only [Ids.list, List.mem_cons, List.not_mem_nil, or_false, or_self] at hid
    exact Or.inl hid
  · obtain rfl := Option.some.inj hp
    refine ⟨?_, hinit⟩
    intro id hid
    simp only [Ids.list, List.mem_cons, List.not_mem_nil, or_false] at hid
    rcases hid with rfl | rfl | rfl
    · exact Or.inr rfl
    · exact Or.inr rfl
    · exact Or.inl rfl

/-- A call that is answered at once. -/
theorem returns_of_call {Op : Type} {Res : Op → Type} {α : Type}
    {sem : (o : Op) → World → Res o → World → Prop} {o : Op} {k : Res o → Prog Op Res α}
    {r : Res o} {a : α} (hs : sem o w r v) (h : ∃ tr w', Exec (Interferes uid1 uid2) sem (k r) v tr
      (.returned a) w') :
    ∃ tr w', Exec (Interferes uid1 uid2) sem (.call o k) w tr (.returned a) w' := by
  obtain ⟨tr, w', hrun⟩ := h
  exact ⟨_, w', .call .refl hs hrun⟩

/-- All calls of `do_killuid` may succeed. -/
theorem doKilluid_returns {f : Floors} {s : Settings}
    (h₁ : ¬ (¬ f.validUid s.changeUid1 ∨ s.changeUid1 = w.self.ruid))
    (h₂ : ¬ (¬ f.validUid s.changeUid2 ∨ s.changeUid2 = w.self.ruid)) :
    ∃ tr v, Exec (Interferes s.changeUid1 s.changeUid2) (Answers s.changeUid1 s.changeUid2)
      (doKilluid f s) w tr (.returned ()) v := by
  refine returns_of_call (r := w.self.ruid) (v := w) ⟨rfl, rfl⟩ ?_
  show ∃ tr v, Exec _ _ (ite _ _ _) w tr _ v
  rw [if_neg h₁, if_neg h₂]
  refine returns_of_call (r := some 0) (v := w) rfl ?_
  refine returns_of_call (r := true) (v := w) rfl ?_
  refine returns_of_call (r := true) rfl ?_
  refine returns_of_call (r := true) rfl ?_
  refine returns_of_call (r := some 0) ⟨rfl, exec_of_eval (eval_purgeIpc _ _ _)⟩ ?_
  refine returns_of_call (r := true) rfl ?_
  refine returns_of_call (r := some 0) ⟨rfl, exec_of_eval (eval_purgeIpc _ _ _)⟩ ?_
  exact ⟨[], _, .ret () _⟩

end HasherPriv.Chroot.Eviction
