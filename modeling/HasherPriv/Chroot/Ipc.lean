/- GID: HasherPriv/Chroot/Ipc
   layer: chroot
   source: ipc.c
   digest: The removal of System V objects, and which objects of the two users it leaves. -/

import HasherPriv.Chroot.Killuid
import Mathlib.Data.Nat.Bitwise
import Mathlib.Data.Nat.Find

set_option autoImplicit false
set_option relaxedAutoImplicit false

namespace HasherPriv.Chroot.Ipc

open Foundations.Program
open Config.CallerData (Floors Settings)
open Killuid (doKilluid)
open Syscall (SysRes returns_helper returns_orDie)

/-! The code. -/

inductive Kind
  | sem
  | shm
  | msg
  deriving DecidableEq

/-- `SEM_INFO`, `SEM_STAT`, `IPC_RMID` and their like. -/
inductive IpcOp
  | info (kind : Kind)
  | stat (kind : Kind) (index : ℕ)
  | rmid (kind : Kind) (id : ℕ)
  deriving DecidableEq

/-- The highest index; the identifier and the owner; success. -/
@[reducible] def IpcRes : IpcOp → Type
  | .info _ => Option ℕ
  | .stat _ _ => Option (ℕ × UInt32)
  | .rmid _ _ => Bool

abbrev IpcProg := Prog IpcOp IpcRes

abbrev call (o : IpcOp) : IpcProg (IpcRes o) := .op o

/-- The body of the three loops. -/
def purgeIndex (kind : Kind) (uid1 uid2 : UInt32) (index : ℕ) : IpcProg Unit := do
  match ← call (.stat kind index) with
  | none => return ()
  | some (id, uid) =>
      if uid1 ≠ uid ∧ uid2 ≠ uid then return ()
      else
        let _ ← call (.rmid kind id)
        return ()

def purgeKind (kind : Kind) (uid1 uid2 : UInt32) : IpcProg Unit := do
  match ← call (.info kind) with
  | none => return ()
  | some maxid => Prog.each (purgeIndex kind uid1 uid2) (List.range (maxid + 1))

def purgeSem (uid1 uid2 : UInt32) : IpcProg Unit := purgeKind .sem uid1 uid2

def purgeShm (uid1 uid2 : UInt32) : IpcProg Unit := purgeKind .shm uid1 uid2

def purgeMsg (uid1 uid2 : UInt32) : IpcProg Unit := purgeKind .msg uid1 uid2

def purgeIpc (uid1 uid2 : UInt32) : IpcProg Unit := do
  purgeSem uid1 uid2
  purgeShm uid1 uid2
  purgeMsg uid1 uid2

/-! The kernel. -/

/-- `struct ipc_perm`, and the identifier. -/
structure Object where
  id : ℕ
  uid : UInt32
  gid : UInt32
  cuid : UInt32
  cgid : UInt32
  mode : ℕ
  deriving DecidableEq

/-- The objects of one kind by their index. -/
@[ext] structure Table where
  slot : ℕ → Option Object
  limit : ℕ
  bound : ∀ {i o}, slot i = some o → i ≤ limit
  distinct : ∀ {i j o o'}, slot i = some o → slot j = some o' → o.id = o'.id → i = j

/-- The objects that satisfy `p` at their index. -/
def Table.keep (t : Table) (p : ℕ → Object → Bool) : Table where
  slot i := (t.slot i).filter (p i)
  limit := t.limit
  bound h := t.bound (Option.filter_eq_some_iff.mp h).1
  distinct h h' := t.distinct (Option.filter_eq_some_iff.mp h).1 (Option.filter_eq_some_iff.mp h').1

/-- The highest index in use, 0 if there is none. -/
def Table.highest (t : Table) : ℕ := Nat.findGreatest (fun i => (t.slot i).isSome) t.limit

/-- The objects, and what counts of the identity of the process. -/
structure IpcState where
  tables : Kind → Table
  euid : UInt32
  groups : List UInt32

/-- The read permission of the class that the process is in. -/
def readable (euid : UInt32) (groups : List UInt32) (o : Object) : Bool :=
  (if euid = o.cuid ∨ euid = o.uid then o.mode >>> 6
    else if o.cgid ∈ groups ∨ o.gid ∈ groups then o.mode >>> 3
    else o.mode).testBit 2

/-- The owner and the creator may remove an object. -/
def mayRemove (euid : UInt32) (o : Object) : Bool := euid = o.uid ∨ euid = o.cuid

def answer : (o : IpcOp) → IpcState → IpcRes o × IpcState
  | .info kind, k => (some (k.tables kind).highest, k)
  | .stat kind i, k =>
      ((((k.tables kind).slot i).filter (readable k.euid k.groups)).map fun o => (o.id, o.uid), k)
  | .rmid kind id, k =>
      let gone (o : Object) : Bool := o.id = id ∧ mayRemove k.euid o
      (((List.range ((k.tables kind).limit + 1)).any fun i => ((k.tables kind).slot i).any gone),
        { k with
          tables := Function.update k.tables kind ((k.tables kind).keep fun _ o => ! gone o) })

/-! What the loops remove. -/

@[simp] theorem Table.keep_slot (t : Table) (p : ℕ → Object → Bool) (i : ℕ) :
    (t.keep p).slot i = (t.slot i).filter (p i) := rfl

theorem Table.keep_eq_keep {t : Table} {p q : ℕ → Object → Bool}
    (h : ∀ i o, t.slot i = some o → p i o = q i o) : t.keep p = t.keep q := by
  ext1
  · funext i
    cases hslot : t.slot i with
    | none => simp [hslot]
    | some o => simp [hslot, Option.filter, h i o hslot]
  · rfl

theorem Table.keep_keep (t : Table) (p q : ℕ → Object → Bool) :
    (t.keep p).keep q = t.keep fun i o => p i o && q i o := by
  ext1
  · funext i
    cases hslot : t.slot i with
    | none => simp [hslot]
    | some o => cases hp : p i o <;> simp [hslot, Option.filter, hp]
  · rfl

theorem Table.keep_all {t : Table} {p : ℕ → Object → Bool}
    (h : ∀ i o, t.slot i = some o → p i o = true) : t.keep p = t := by
  ext1
  · funext i
    cases hslot : t.slot i with
    | none => simp [hslot]
    | some o => simp [hslot, Option.filter, h i o hslot]
  · rfl

theorem Table.le_highest {t : Table} {i : ℕ} {o : Object} (h : t.slot i = some o) :
    i ≤ t.highest :=
  Nat.le_findGreatest (t.bound h) (by simp [h])

/-- What is removed under one identity: all three calls have to succeed. -/
def removable (euid : UInt32) (groups : List UInt32) (uid1 uid2 : UInt32) (o : Object) : Bool :=
  (o.uid = uid1 ∨ o.uid = uid2) ∧ readable euid groups o ∧ mayRemove euid o

/-- Only the objects of one kind are looked at. -/
def IpcState.keep (k : IpcState) (kind : Kind) (p : ℕ → Object → Bool) : IpcState :=
  { k with tables := Function.update k.tables kind ((k.tables kind).keep p) }

theorem IpcState.keep_congr {k : IpcState} {kind : Kind} {p q : ℕ → Object → Bool}
    (h : ∀ i o, (k.tables kind).slot i = some o → p i o = q i o) :
    k.keep kind p = k.keep kind q := by
  rw [keep, keep, Table.keep_eq_keep h]

theorem IpcState.keep_all {k : IpcState} {kind : Kind} {p : ℕ → Object → Bool}
    (h : ∀ i o, (k.tables kind).slot i = some o → p i o = true) : k.keep kind p = k := by
  rw [keep, Table.keep_all h, Function.update_eq_self]

theorem IpcState.keep_keep (k : IpcState) (kind : Kind) (p q : ℕ → Object → Bool) :
    (k.keep kind p).keep kind q = k.keep kind fun i o => p i o && q i o := by
  simp [keep, Table.keep_keep]

theorem eval_purgeIndex (kind : Kind) (uid1 uid2 : UInt32) (i : ℕ) (k : IpcState) :
    (purgeIndex kind uid1 uid2 i).eval answer k =
      (some (), k.keep kind fun j o => ! (j = i && removable k.euid k.groups uid1 uid2 o)) := by
  have hspared : (∀ o, (k.tables kind).slot i = some o →
      removable k.euid k.groups uid1 uid2 o = false) →
      (some (), k) = (some (), k.keep kind fun j o =>
        ! (j = i && removable k.euid k.groups uid1 uid2 o)) := by
    intro hnone
    rw [IpcState.keep_all]
    intro j o hslot
    by_cases hj : j = i
    · subst hj
      simp [hnone o hslot]
    · simp [hj]
  have hstat : (answer (.stat kind i) k).2 = k := rfl
  rw [purgeIndex, bind_eq_bind, eval_op_bind, hstat]
  cases hslot : (k.tables kind).slot i with
  | none =>
      have hanswer : (answer (.stat kind i) k).1 = none := by simp [answer, hslot]
      rw [hanswer]
      exact hspared (by simp [hslot])
  | some o =>
      cases hread : readable k.euid k.groups o with
      | false =>
          have hanswer : (answer (.stat kind i) k).1 = none := by
            simp [answer, hslot, Option.filter, hread]
          rw [hanswer]
          refine hspared fun o' ho' => ?_
          obtain rfl := Option.some.inj (hslot.symm.trans ho')
          simp [removable, hread]
      | true =>
          have hanswer : (answer (.stat kind i) k).1 = some (o.id, o.uid) := by
            simp [answer, hslot, Option.filter, hread]
          rw [hanswer]
          dsimp only
          split_ifs with hother
          · refine hspared fun o' ho' => ?_
            obtain rfl := Option.some.inj (hslot.symm.trans ho')
            simp [removable, hother.1.symm, hother.2.symm]
          · have hpair : o.uid = uid1 ∨ o.uid = uid2 := by
              rw [not_and_or, not_not, not_not] at hother
              exact hother.imp Eq.symm Eq.symm
            rw [bind_eq_bind, eval_op_bind]
            refine congrArg (Prod.mk (some ())) (IpcState.keep_congr fun j o' ho' => ?_)
            congr 1
            by_cases hid : o'.id = o.id
            · obtain rfl := (k.tables kind).distinct ho' hslot hid
              obtain rfl := Option.some.inj (ho'.symm.trans hslot)
              simp [removable, hread, hpair]
            · have hj : j ≠ i := by
                rintro rfl
                exact hid (congrArg Object.id (Option.some.inj (ho'.symm.trans hslot)))
              simp [hid, hj]

/-- The loops reach every index. -/
theorem eval_purgeKind (kind : Kind) (uid1 uid2 : UInt32) (k : IpcState) :
    (purgeKind kind uid1 uid2).eval answer k =
      (some (), k.keep kind fun _ o => ! removable k.euid k.groups uid1 uid2 o) := by
  have hloop : ∀ (is : List ℕ) (k : IpcState),
      (Prog.each (purgeIndex kind uid1 uid2) is).eval answer k =
        (some (), k.keep kind fun j o =>
          ! (decide (j ∈ is) && removable k.euid k.groups uid1 uid2 o)) := by
    intro is
    induction is with
    | nil =>
        intro k
        rw [each_nil, eval_ret, IpcState.keep_all]
        simp
    | cons i is ih =>
        intro k
        rw [each_cons, eval_bind (eval_purgeIndex kind uid1 uid2 i k), ih, IpcState.keep_keep]
        refine congrArg (Prod.mk (some ())) (IpcState.keep_congr fun j o _ => ?_)
        have hsame : (k.keep kind fun j o =>
            ! (j = i && removable k.euid k.groups uid1 uid2 o)).euid = k.euid ∧
            (k.keep kind fun j o =>
              ! (j = i && removable k.euid k.groups uid1 uid2 o)).groups = k.groups := ⟨rfl, rfl⟩
        rw [hsame.1, hsame.2]
        by_cases hj : j = i <;> cases removable k.euid k.groups uid1 uid2 o <;> simp [hj]
  rw [purgeKind, bind_eq_bind, eval_op_bind]
  change (Prog.each _ (List.range ((k.tables kind).highest + 1))).eval answer k = _
  rw [hloop]
  refine congrArg (Prod.mk (some ())) (IpcState.keep_congr fun j o ho => ?_)
  have hmem : j ∈ List.range ((k.tables kind).highest + 1) :=
    List.mem_range.mpr (Nat.lt_succ_of_le (Table.le_highest ho))
  simp [hmem]

/-- All three kinds without what can be removed. -/
def IpcState.purge (k : IpcState) (uid1 uid2 : UInt32) : IpcState :=
  { k with tables := fun kind =>
      (k.tables kind).keep fun _ o => ! removable k.euid k.groups uid1 uid2 o }

theorem eval_purgeIpc (uid1 uid2 : UInt32) (k : IpcState) :
    (purgeIpc uid1 uid2).eval answer k = (some (), k.purge uid1 uid2) := by
  have hsem := eval_purgeKind .sem uid1 uid2 k
  rw [purgeIpc, purgeSem, purgeShm, purgeMsg, bind_eq_bind, eval_bind hsem, bind_eq_bind,
    eval_bind (eval_purgeKind .shm uid1 uid2 _), eval_purgeKind]
  refine congrArg (Prod.mk (some ())) ?_
  simp only [IpcState.keep, IpcState.purge]
  congr 1
  funext kind
  cases kind <;> simp

/-! A run of `do_killuid`. -/

/-- What a call of `do_killuid` changes. -/
def effect (k : IpcState) : Event SysRes → IpcState
  | ⟨.setreuid _ euid, true⟩ => { k with euid := euid }
  | ⟨.helper (.purgeIpc uid1 uid2), some _⟩ => ((purgeIpc uid1 uid2).eval answer k).2
  | _ => k

def afterwards (k : IpcState) (tr : List (Event SysRes)) : IpcState := tr.foldl effect k

/-- The two passes, each with the effective uid of its `setreuid`. -/
theorem afterwards_doKilluid {f : Floors} {s : Settings} {tr : List (Event SysRes)}
    (h : Runs (doKilluid f s) tr (.returned ())) (k : IpcState) :
    afterwards k tr =
      { { k with euid := s.changeUid2 }.purge s.changeUid1 s.changeUid2 with
        euid := s.changeUid1 }.purge s.changeUid1 s.changeUid2 := by
  obtain ⟨u, rest, rfl, hrest⟩ := returns_op_bind.mp h
  change Runs (ite _ _ _) rest _ at hrest
  split_ifs at hrest with hfirst hsecond
  · exact (returns_die hrest).elim
  · exact (returns_die hrest).elim
  · obtain ⟨_, t₁, _, rfl, hraise, h⟩ := returns_bind.mp hrest
    obtain ⟨_, t₂, _, rfl, hprctl, h⟩ := returns_bind.mp h
    obtain ⟨_, t₃, _, rfl, hset, h⟩ := returns_bind.mp h
    obtain ⟨_, t₄, _, rfl, hkill, h⟩ := returns_bind.mp h
    obtain ⟨_, t₅, _, rfl, hpurge, h⟩ := returns_bind.mp h
    obtain ⟨_, t₆, _, rfl, hset', h⟩ := returns_bind.mp h
    obtain ⟨_, t₇, _, rfl, hpurge', h⟩ := returns_bind.mp h
    obtain ⟨rfl, -⟩ := returns_ret.mp h
    obtain rfl := returns_helper.mp hraise
    obtain rfl := returns_op.mp (returns_orDie.mp hprctl)
    obtain rfl := returns_op.mp (returns_orDie.mp hset)
    obtain rfl := returns_op.mp (returns_orDie.mp hkill)
    obtain rfl := returns_helper.mp hpurge
    obtain rfl := returns_op.mp (returns_orDie.mp hset')
    obtain rfl := returns_helper.mp hpurge'
    simp [afterwards, effect, eval_purgeIpc]

/-- The owner's read permission. -/
def ownerReads (o : Object) : Bool := o.mode.testBit 8

theorem readable_of_owner {euid : UInt32} {groups : List UInt32} {o : Object}
    (h : euid = o.uid ∨ euid = o.cuid) : readable euid groups o = ownerReads o := by
  rw [readable, if_pos h.symm, Nat.testBit_shiftRight, ownerReads]

/-- Whoever may remove an object is in its owner's class. -/
theorem removable_eq (euid : UInt32) (groups : List UInt32) (uid1 uid2 : UInt32) (o : Object) :
    removable euid groups uid1 uid2 o =
      (decide (o.uid = uid1 ∨ o.uid = uid2) && ownerReads o && mayRemove euid o) := by
  by_cases hown : euid = o.uid ∨ euid = o.cuid
  · simp [removable, mayRemove, hown, readable_of_owner hown]
  · simp [removable, mayRemove, hown]

/-- The two passes together remove what the owner may read. -/
theorem slot_afterwards {f : Floors} {s : Settings} {tr : List (Event SysRes)}
    (h : Runs (doKilluid f s) tr (.returned ())) (k : IpcState) (kind : Kind) (i : ℕ) :
    ((afterwards k tr).tables kind).slot i = ((k.tables kind).slot i).filter fun o =>
      ! (decide (o.uid = s.changeUid1 ∨ o.uid = s.changeUid2) && ownerReads o) := by
  have hboth : ∀ o : Object,
      ((! removable s.changeUid2 k.groups s.changeUid1 s.changeUid2 o) &&
        ! removable s.changeUid1 k.groups s.changeUid1 s.changeUid2 o) =
      ! (decide (o.uid = s.changeUid1 ∨ o.uid = s.changeUid2) && ownerReads o) := by
    intro o
    rw [removable_eq, removable_eq]
    by_cases hown : o.uid = s.changeUid1 ∨ o.uid = s.changeUid2
    · -- one of the two passes is made by the owner
      have hone : mayRemove s.changeUid1 o = true ∨ mayRemove s.changeUid2 o = true :=
        hown.imp (fun h => by simp [mayRemove, h]) fun h => by simp [mayRemove, h]
      rcases hone with hone | hone <;> cases ownerReads o <;> simp [hown, hone]
    · simp [hown]
  rw [afterwards_doKilluid h]
  simp only [IpcState.purge, Table.keep_keep, Table.keep_slot, hboth]

theorem killuid_purges_iff {f : Floors} {s : Settings} {tr : List (Event SysRes)}
    (h : Runs (doKilluid f s) tr (.returned ())) (k : IpcState) :
    ((∀ kind i o, ((afterwards k tr).tables kind).slot i = some o →
          o.uid ≠ s.changeUid1 ∧ o.uid ≠ s.changeUid2) ∧
        ∀ kind i o, (k.tables kind).slot i = some o →
          o.uid ≠ s.changeUid1 → o.uid ≠ s.changeUid2 →
            ((afterwards k tr).tables kind).slot i = some o) ↔
      ∀ kind i o, (k.tables kind).slot i = some o →
        o.uid = s.changeUid1 ∨ o.uid = s.changeUid2 → ownerReads o = true := by
  constructor
  · rintro ⟨hpurged, -⟩ kind i o hslot hown
    by_contra hreads
    have hleft : ((afterwards k tr).tables kind).slot i = some o := by
      rw [slot_afterwards h, hslot, Option.filter_eq_some_iff]
      exact ⟨rfl, by simp [hreads]⟩
    obtain ⟨h₁, h₂⟩ := hpurged kind i o hleft
    exact hown.elim h₁ h₂
  · intro hreads
    constructor
    · intro kind i o hleft
      rw [slot_afterwards h, Option.filter_eq_some_iff] at hleft
      obtain ⟨hslot, hkept⟩ := hleft
      rw [← not_or]
      intro hown
      simp [hown, hreads kind i o hslot hown] at hkept
    · intro kind i o hslot h₁ h₂
      rw [slot_afterwards h, hslot, Option.filter_eq_some_iff]
      exact ⟨rfl, by simp [h₁, h₂]⟩

/-- A semaphore set of the first user that nobody may read. -/
private def sampleTable (mode : ℕ) : Table where
  slot i := if i = 3 then
    some { id := 3, uid := 501, gid := 501, cuid := 501, cgid := 501, mode := mode } else none
  limit := 3
  bound := by
    intro i o h
    split_ifs at h with hi
    omega
  distinct := by
    intro i j o o' h h' _
    split_ifs at h h'
    omega

private def sampleEmpty : Table where
  slot _ := none
  limit := 0
  bound h := by cases h
  distinct h := by cases h

private def sampleState (mode : ℕ) : IpcState where
  tables
    | .sem => sampleTable mode
    | _ => sampleEmpty
  euid := 0
  groups := [500]

private def sampleSettings : Settings := { changeUid1 := 501, changeUid2 := 502 }

private def sampleTrace : List (Event SysRes) :=
  [⟨.getuid, (0 : UInt32)⟩, ⟨.helper .raiseRlimitNproc, some 0⟩, ⟨.prctlDumpable, true⟩,
    ⟨.setreuid 501 502, true⟩, ⟨.kill (-1) 9, true⟩, ⟨.helper (.purgeIpc 501 502), some 0⟩,
    ⟨.setreuid 502 501, true⟩, ⟨.helper (.purgeIpc 501 502), some 0⟩]

private theorem sample_runs : Runs (doKilluid {} sampleSettings) sampleTrace (.returned ()) :=
  Prog.runs_of_replay rfl

/-- A semaphore set that its owner may alter but not read outlives both passes. -/
theorem unreadable_object_left :
    Runs (doKilluid {} sampleSettings) sampleTrace (.returned ()) ∧
      ∃ o, ((sampleState 0o200).tables .sem).slot 3 = some o ∧
        o.uid = sampleSettings.changeUid1 ∧
        ((afterwards (sampleState 0o200) sampleTrace).tables .sem).slot 3 = some o := by
  refine ⟨sample_runs, _, rfl, rfl, ?_⟩
  rw [slot_afterwards sample_runs]
  decide

theorem killuid_purges_iff_sample :
    ((∀ kind i o, ((afterwards (sampleState 0o600) sampleTrace).tables kind).slot i = some o →
          o.uid ≠ 501 ∧ o.uid ≠ 502) ∧
        ∀ kind i o, ((sampleState 0o600).tables kind).slot i = some o →
          o.uid ≠ 501 → o.uid ≠ 502 →
            ((afterwards (sampleState 0o600) sampleTrace).tables kind).slot i = some o) ↔
      ∀ kind i o, ((sampleState 0o600).tables kind).slot i = some o →
        o.uid = 501 ∨ o.uid = 502 → ownerReads o = true :=
  killuid_purges_iff sample_runs (sampleState 0o600)

end HasherPriv.Chroot.Ipc
