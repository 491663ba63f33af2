/- GID: HasherPriv/Chroot/Affinity
   layer: chroot
   source: child.c
   digest: The processors that are left to a job are the right number of those it had. -/

import HasherPriv.Foundations.Answers
import HasherPriv.Foundations.Contracts
import HasherPriv.Foundations.Ranks

set_option autoImplicit false
set_option relaxedAutoImplicit false

namespace HasherPriv.Chroot.Affinity

open Foundations.Program
open Foundations.Answers
open Foundations.Contracts
open Foundations.Ranks

/-! Sets of processors. -/

/-- `CPU_SETSIZE`. -/
def cpuSetsize : ℕ := 1024

/-- `cpu_set_t`. -/
abbrev CpuSet := BitVec cpuSetsize

/-- The macros do nothing beyond the end of the set. -/
def cpuIsset (cpu : ℕ) (set : CpuSet) : Bool := set.getLsbD cpu

def cpuSet (cpu : ℕ) (set : CpuSet) : CpuSet := set ||| BitVec.twoPow cpuSetsize cpu

def cpuClr (cpu : ℕ) (set : CpuSet) : CpuSet := set &&& ~~~ BitVec.twoPow cpuSetsize cpu

def cpuZero : CpuSet := 0

@[irreducible] def cpuCount (set : CpuSet) : ℕ :=
  Nat.count (fun cpu => cpuIsset cpu set) cpuSetsize

section Macros

variable {cpu k : ℕ} {set : CpuSet}

theorem cpuIsset_cpuSet (hcpu : cpu < cpuSetsize) :
    cpuIsset k (cpuSet cpu set) = true ↔ k = cpu ∨ cpuIsset k set = true := by
  unfold cpuIsset cpuSet
  rw [BitVec.getLsbD_or, BitVec.getLsbD_twoPow, decide_eq_true hcpu, Bool.true_and,
    Bool.or_eq_true, decide_eq_true_eq, or_comm, eq_comm (a := cpu)]

theorem cpuIsset_cpuClr :
    cpuIsset k (cpuClr cpu set) = true ↔ k ≠ cpu ∧ cpuIsset k set = true := by
  unfold cpuIsset cpuClr
  by_cases hk : k < cpuSetsize
  · by_cases hsame : k = cpu
    · subst hsame
      simp [hk]
    · simp [hk, hsame]
  · rw [BitVec.getLsbD_of_ge _ k (not_lt.mp hk), BitVec.getLsbD_of_ge _ k (not_lt.mp hk)]
    simp

theorem cpuIsset_cpuZero : cpuIsset k cpuZero = false := BitVec.getLsbD_zero

end Macros

/-! The code. The variable `tmp` is in the world, so that each access to a bit of it is a call. -/

inductive CpuOp
  | schedGetaffinity
  | schedSetaffinity (set : CpuSet)
  | srandom
  | random
  /-- The macros on `tmp`. -/
  | zero
  | isset (cpu : ℕ)
  | set (cpu : ℕ)
  | clr (cpu : ℕ)
  deriving DecidableEq

/-- `random` returns any number that is not negative. -/
@[reducible] def CpuRes : CpuOp → Type
  | .schedGetaffinity => Option CpuSet
  | .schedSetaffinity _ => Bool
  | .random => ℕ
  | .isset _ => Bool
  | .srandom | .zero | .set _ | .clr _ => Unit

abbrev CpuProg := Prog CpuOp CpuRes

abbrev call (o : CpuOp) : CpuProg (CpuRes o) := .op o

/-- `CPU_SET` where the value is true, `CPU_CLR` where it is not. -/
def storeBit (cpu : ℕ) (value : Bool) : CpuProg Unit :=
  if value then call (.set cpu) else call (.clr cpu)

def cpuSetSwapBits (x y : ℕ) : CpuProg Unit := do
  let a ← call (.isset x)
  let b ← call (.isset y)
  storeBit y a
  storeBit x b

/-- The last loop, with this many processors to come from `i` on. -/
def selectFrom (cpucount : ℕ) : ℕ → ℕ → ℕ → CpuSet → CpuProg CpuSet
  | 0, _, _, set => return set
  | count + 1, i, j, set => do
      if cpucount ≤ j then return set
      else if cpuIsset i set then
        let kept ← call (.isset j)
        selectFrom cpucount count (i + 1) (j + 1) (if kept then set else cpuClr i set)
      else selectFrom cpucount count (i + 1) j set

def setAffinityNproc (nproc : ℕ) : CpuProg ℤ := do
  if nproc = 0 then return 0
  else
    match ← call .schedGetaffinity with
    | none => return -1
    | some set =>
        let cpucount := cpuCount set
        if cpucount ≤ nproc then return 0
        else
          call .zero
          Prog.each (fun i => call (.set i)) (List.range nproc)
          call .srandom
          Prog.each (fun i => do
            let r ← call .random
            cpuSetSwapBits i (r % cpucount)) (List.range nproc)
          let set ← selectFrom cpucount cpuSetsize 0 0 set
          if ← call (.schedSetaffinity set) then return 0 else return -1

/-! The world. -/

structure World where
  affinity : CpuSet
  tmp : CpuSet

/-- How the calls answer. -/
def Sem : (o : CpuOp) → World → CpuRes o → World → Prop
  | .schedGetaffinity, w, r, w' => (∀ set, r = some set → set = w.affinity) ∧ w' = w
  | .schedSetaffinity set, w, ok, w' => w' = if ok then { w with affinity := set } else w
  | .srandom, w, _, w' | .random, w, _, w' => w' = w
  | .zero, w, _, w' => w' = { w with tmp := cpuZero }
  | .isset cpu, w, r, w' => r = cpuIsset cpu w.tmp ∧ w' = w
  | .set cpu, w, _, w' => w' = { w with tmp := cpuSet cpu w.tmp }
  | .clr cpu, w, _, w' => w' = { w with tmp := cpuClr cpu w.tmp }

/-- The bit of `tmp` that a call is about. -/
def touched : CpuOp → Option ℕ
  | .isset cpu | .set cpu | .clr cpu => some cpu
  | _ => none

/-- The processors of the one set are among those of the other. -/
def Among (set init : CpuSet) : Prop := ∀ cpu, cpuIsset cpu set = true → cpuIsset cpu init = true

/-- Accesses to `tmp` stay below the number of processors, and what is installed is a proper part
of them, of this size. -/
def Meets (nproc : ℕ) (init : CpuSet) (o : CpuOp) (_ : World) (_ : CpuRes o) (_ : World) : Prop :=
  (∀ cpu, touched o = some cpu → cpu < cpuCount init) ∧
    ∀ set, o = .schedSetaffinity set →
      nproc < cpuCount init ∧ Among set init ∧ cpuCount set = nproc

section Loops

variable {nproc : ℕ} {init : CpuSet} {w : World}

theorem cpuCount_le (set : CpuSet) : cpuCount set ≤ cpuSetsize := by
  unfold cpuCount
  exact Nat.count_le _

theorem meets_of_touched {o : CpuOp} {cpu : ℕ} {r : CpuRes o} {w w' : World}
    (ho : touched o = some cpu) (hcpu : cpu < cpuCount init) : Meets nproc init o w r w' := by
  constructor
  · intro cpu' ho'
    obtain rfl := Option.some.inj (ho.symm.trans ho')
    exact hcpu
  · rintro set rfl
    cases ho

theorem meets_of_untouched {o : CpuOp} {r : CpuRes o} {w w' : World} (ho : touched o = none)
    (hset : ∀ set, o ≠ .schedSetaffinity set) : Meets nproc init o w r w' := by
  constructor
  · intro cpu ho'
    rw [ho] at ho'
    cases ho'
  · intro set heq
    exact absurd heq (hset set)

/-- The first processors, as many as are to be left. -/
theorem firstCpus_ensures {cpus : List ℕ} (hcpus : ∀ cpu ∈ cpus, cpu < cpuCount init) :
    Ensures Sem (Meets nproc init) (Prog.each (fun i => call (.set i)) cpus)
      (fun _ w' => w'.affinity = w.affinity ∧
        ∀ k, cpuIsset k w'.tmp = true ↔ k ∈ cpus ∨ cpuIsset k w.tmp = true) w := by
  induction cpus generalizing w with
  | nil =>
      refine ⟨rfl, ?_⟩
      intro k
      simp
  | cons cpu cpus ih =>
      obtain ⟨hcpu, hrest⟩ := List.forall_mem_cons.mp hcpus
      intro r w₁ hw₁
      obtain rfl : w₁ = { w with tmp := cpuSet cpu w.tmp } := hw₁
      refine ⟨meets_of_touched rfl hcpu, ?_⟩
      refine (ih hrest).mono ?_
      rintro _ w₂ ⟨haffinity, htmp⟩
      refine ⟨haffinity, ?_⟩
      intro k
      have hlt : cpu < cpuSetsize := hcpu.trans_le (cpuCount_le init)
      rw [htmp k, cpuIsset_cpuSet hlt, List.mem_cons]
      tauto

/-- A bit gets the value that another one had. -/
theorem storeBit_ensures {cpu : ℕ} (value : Bool) (hcpu : cpu < cpuCount init) :
    Ensures Sem (Meets nproc init) (storeBit cpu value)
      (fun _ w' => w'.affinity = w.affinity ∧ (cpuIsset cpu w'.tmp = true ↔ value = true) ∧
        ∀ k, k ≠ cpu → (cpuIsset k w'.tmp = true ↔ cpuIsset k w.tmp = true)) w := by
  have hlt : cpu < cpuSetsize := hcpu.trans_le (cpuCount_le init)
  cases value with
  | true =>
      intro r w₁ hw₁
      obtain rfl : w₁ = { w with tmp := cpuSet cpu w.tmp } := hw₁
      refine ⟨meets_of_touched rfl hcpu, rfl, ?_, ?_⟩
      · rw [cpuIsset_cpuSet hlt]
        exact ⟨fun _ => rfl, fun _ => Or.inl rfl⟩
      · intro k hk
        rw [cpuIsset_cpuSet hlt]
        exact or_iff_right hk
  | false =>
      intro r w₁ hw₁
      obtain rfl : w₁ = { w with tmp := cpuClr cpu w.tmp } := hw₁
      refine ⟨meets_of_touched rfl hcpu, rfl, ?_, ?_⟩
      · rw [cpuIsset_cpuClr]
        constructor
        · intro hsame
          exact absurd rfl hsame.1
        · intro hfalse
          cases hfalse
      · intro k hk
        rw [cpuIsset_cpuClr]
        exact and_iff_right hk

/-- One call of `cpu_set_swap_bits`, also where both bits are the same. -/
theorem cpuSetSwapBits_ensures {x y : ℕ} (hx : x < cpuCount init) (hy : y < cpuCount init) :
    Ensures Sem (Meets nproc init) (cpuSetSwapBits x y)
      (fun _ w' => w'.affinity = w.affinity ∧
        Nat.count (fun k => cpuIsset k w'.tmp = true) (cpuCount init) =
          Nat.count (fun k => cpuIsset k w.tmp = true) (cpuCount init)) w := by
  intro a w₁ hasked
  obtain ⟨rfl, rfl⟩ : a = cpuIsset x w.tmp ∧ w₁ = w := hasked
  refine ⟨meets_of_touched rfl hx, ?_⟩
  intro b w₂ hasked
  obtain ⟨rfl, rfl⟩ : b = cpuIsset y w₁.tmp ∧ w₂ = w₁ := hasked
  refine ⟨meets_of_touched rfl hy, ?_⟩
  refine (storeBit_ensures _ hy).bind ?_
  rintro _ w₃ ⟨haffinity₃, hy₃, hother₃⟩
  refine (storeBit_ensures _ hx).mono ?_
  rintro _ w₄ ⟨haffinity₄, hx₄, hother₄⟩
  refine ⟨haffinity₄.trans haffinity₃, ?_⟩
  apply count_of_exchanged hx hy hx₄
  · by_cases hsame : y = x
    · subst hsame
      exact hx₄
    · exact (hother₄ y hsame).trans hy₃
  · intro k hkx hky
    exact (hother₄ k hkx).trans (hother₃ k hky)

/-- The loop that shuffles keeps the number of bits. -/
theorem shuffle_ensures {n : ℕ} (hnproc : nproc < cpuCount init)
    (htmp : Nat.count (fun k => cpuIsset k w.tmp = true) (cpuCount init) = n) :
    Ensures Sem (Meets nproc init)
      (Prog.each (fun i => (call .random).bind fun r => cpuSetSwapBits i (r % cpuCount init))
        (List.range nproc))
      (fun _ w' => w'.affinity = w.affinity ∧
        Nat.count (fun k => cpuIsset k w'.tmp = true) (cpuCount init) = n) w := by
  refine Ensures.each (I := fun w' : World => w'.affinity = w.affinity ∧
    Nat.count (fun k => cpuIsset k w'.tmp = true) (cpuCount init) = n) ?_ ⟨rfl, htmp⟩
  rintro i hi v ⟨haffinity, hcount⟩
  have hlt : i < cpuCount init := (List.mem_range.mp hi).trans hnproc
  intro r v₁ hv₁
  obtain rfl : v₁ = v := hv₁
  refine ⟨meets_of_untouched rfl (fun set h => by cases h), ?_⟩
  have hmod : r % cpuCount init < cpuCount init := Nat.mod_lt r (by omega)
  refine (cpuSetSwapBits_ensures hlt hmod).mono ?_
  rintro _ v₂ ⟨haffinity₂, hcount₂⟩
  exact ⟨haffinity₂.trans haffinity, hcount₂.trans hcount⟩

theorem cpuIsset_of_ge {k : ℕ} {set : CpuSet} (hk : cpuSetsize ≤ k) : ¬ cpuIsset k set = true := by
  rw [cpuIsset, BitVec.getLsbD_of_ge set k hk]
  exact Bool.false_ne_true

theorem cpuIsset_kept {k i : ℕ} {set : CpuSet} (kept : Bool) :
    cpuIsset k (if kept then set else cpuClr i set) = true ↔
      cpuIsset k set = true ∧ (k = i → kept = true) := by
  cases kept with
  | true => simp
  | false =>
      rw [if_neg Bool.false_ne_true, cpuIsset_cpuClr, and_comm]
      simp

/-- The processors whose numbers among those of `init` are in `tmp`. -/
abbrev Kept (init tmp : CpuSet) : ℕ → Prop :=
  Chosen (fun k => cpuIsset k init = true) (fun k => cpuIsset k tmp = true)

/-- The last loop has come to `i`: it has dealt with what is before, and with nothing else. -/
structure Selecting (init tmp set : CpuSet) (i : ℕ) : Prop where
  before : ∀ k < i, cpuIsset k set = true ↔ Kept init tmp k
  after : ∀ k, i ≤ k → (cpuIsset k set = true ↔ cpuIsset k init = true)

section Selecting

variable {tmp set : CpuSet} {i : ℕ}

theorem Selecting.ends (h : Selecting init tmp set i)
    (hnone : ∀ k, i ≤ k → ¬ cpuIsset k init = true) (k : ℕ) :
    cpuIsset k set = true ↔ Kept init tmp k := by
  by_cases hk : k < i
  · exact h.before k hk
  · have hk' := hnone k (not_lt.mp hk)
    rw [h.after k (not_lt.mp hk)]
    exact ⟨fun h => absurd h hk', fun h => absurd h.1 hk'⟩

/-- A processor of `init`. -/
theorem Selecting.member (h : Selecting init tmp set i) (hinit : cpuIsset i init = true) :
    Selecting init tmp
      (if cpuIsset (Nat.count (fun k => cpuIsset k init = true) i) tmp then set else cpuClr i set)
      (i + 1) where
  before := by
    intro k hk
    rw [cpuIsset_kept]
    by_cases hsame : k = i
    · subst hsame
      rw [h.after k le_rfl]
      exact and_congr_right fun _ => ⟨fun hkept => hkept rfl, fun hkept _ => hkept⟩
    · rw [h.before k (by omega)]
      exact and_iff_left fun heq => absurd heq hsame
  after := by
    intro k hk
    rw [cpuIsset_kept, h.after k (by omega)]
    exact and_iff_left fun heq => by omega

/-- Another number. -/
theorem Selecting.other (h : Selecting init tmp set i) (hinit : ¬ cpuIsset i init = true) :
    Selecting init tmp set (i + 1) where
  before := by
    intro k hk
    by_cases hsame : k = i
    · subst hsame
      rw [h.after k le_rfl]
      exact ⟨fun hk => absurd hk hinit, fun hk => absurd hk.1 hinit⟩
    · exact h.before k (by omega)
  after := by
    intro k hk
    exact h.after k (by omega)

end Selecting

/-- The last loop. -/
theorem selectFrom_ensures {count i j : ℕ} {set : CpuSet} (hi : i + count = cpuSetsize)
    (hj : j = Nat.count (fun k => cpuIsset k init = true) i) (h : Selecting init w.tmp set i) :
    Ensures Sem (Meets nproc init) (selectFrom (cpuCount init) count i j set)
      (fun set' w' => w' = w ∧ ∀ k, cpuIsset k set' = true ↔ Kept init w.tmp k) w := by
  induction count generalizing i j set with
  | zero =>
      refine ⟨rfl, h.ends ?_⟩
      intro k hk
      exact cpuIsset_of_ge (by omega)
  | succ count ih =>
      rw [selectFrom]
      by_cases hall : cpuCount init ≤ j
      · rw [if_pos hall]
        refine ⟨rfl, h.ends ?_⟩
        intro k hk
        by_cases hsize : k < cpuSetsize
        · unfold cpuCount at hall
          rw [hj] at hall
          exact not_of_count_le hall hk hsize
        · exact cpuIsset_of_ge (not_lt.mp hsize)
      · rw [if_neg hall]
        by_cases hset : cpuIsset i set = true
        · rw [if_pos hset]
          have hinit : cpuIsset i init = true := (h.after i le_rfl).mp hset
          intro kept w₁ hasked
          obtain ⟨rfl, rfl⟩ : kept = cpuIsset j w.tmp ∧ w₁ = w := hasked
          refine ⟨meets_of_touched rfl (not_le.mp hall), ?_⟩
          subst hj
          apply ih
          · omega
          · rw [Nat.count_succ, if_pos hinit]
          · exact h.member hinit
        · rw [if_neg hset]
          have hinit : ¬ cpuIsset i init = true := fun h' => hset ((h.after i le_rfl).mpr h')
          apply ih
          · omega
          · rw [Nat.count_succ, if_neg hinit, hj]
            rfl
          · exact h.other hinit

end Loops

/-! The whole function. -/

section Affinity

variable {nproc : ℕ} {w : World}

theorem cpuCount_of_kept {init tmp set : CpuSet}
    (h : ∀ k, cpuIsset k set = true ↔ Kept init tmp k) :
    cpuCount set = Nat.count (fun k => cpuIsset k tmp = true) (cpuCount init) := by
  have hsame : Nat.count (fun k => cpuIsset k set = true) cpuSetsize =
      Nat.count (Kept init tmp) cpuSetsize := by
    apply le_antisymm
    · exact Nat.count_mono_left fun k _ hk => (h k).mp hk
    · exact Nat.count_mono_left fun k _ hk => (h k).mpr hk
  unfold cpuCount
  rw [hsame, count_chosen]

/-- The set is reduced to at most so many processors, or left as it is. -/
structure Reduced (nproc : ℕ) (init set : CpuSet) : Prop where
  among : Among set init
  size : cpuCount set = min nproc (cpuCount init)
  same : cpuCount init ≤ nproc → set = init

theorem reduced_of_few {init : CpuSet} (h : cpuCount init ≤ nproc) : Reduced nproc init init where
  among := fun _ hcpu => hcpu
  size := (min_eq_right h).symm
  same := fun _ => rfl

theorem reduced_of_many {init set : CpuSet} (h : nproc < cpuCount init) (hamong : Among set init)
    (hsize : cpuCount set = nproc) : Reduced nproc init set where
  among := hamong
  size := by
    rw [hsize, min_eq_left h.le]
  same := fun hfew => absurd h (not_lt.mpr hfew)

theorem setAffinityNproc_ensures (hnproc : 1 ≤ nproc) :
    Ensures Sem (Meets nproc w.affinity) (setAffinityNproc nproc)
      (fun r w' => r = 0 → Reduced nproc w.affinity w'.affinity) w := by
  unfold setAffinityNproc
  rw [if_neg (by omega)]
  intro r w₁ hasked
  obtain ⟨hset, rfl⟩ : (∀ set, r = some set → set = w.affinity) ∧ w₁ = w := hasked
  refine ⟨meets_of_untouched rfl (fun _ h => by cases h), ?_⟩
  cases r with
  | none =>
      intro hzero
      cases hzero
  | some set =>
      obtain rfl := hset set rfl
      change Ensures _ _ (ite _ _ _) _ _
      by_cases hfew : cpuCount w₁.affinity ≤ nproc
      · rw [if_pos hfew]
        intro _
        exact reduced_of_few hfew
      · have hmany : nproc < cpuCount w₁.affinity := not_le.mp hfew
        rw [if_neg hfew]
        intro _ w₂ hw₂
        obtain rfl : w₂ = { w₁ with tmp := cpuZero } := hw₂
        refine ⟨meets_of_untouched rfl (fun _ h => by cases h), ?_⟩
        have hfirst : ∀ cpu ∈ List.range nproc, cpu < cpuCount w₁.affinity := by
          intro cpu hcpu
          exact (List.mem_range.mp hcpu).trans hmany
        refine (firstCpus_ensures hfirst).bind ?_
        rintro _ w₃ ⟨haffinity₃, htmp₃⟩
        intro _ w₄ hw₄
        obtain rfl : w₄ = w₃ := hw₄
        refine ⟨meets_of_untouched rfl (fun _ h => by cases h), ?_⟩
        have hcount : Nat.count (fun k => cpuIsset k w₄.tmp = true) (cpuCount w₁.affinity) =
            nproc := by
          refine count_of_lt_iff ?_ hmany.le
          intro k
          rw [htmp₃, cpuIsset_cpuZero, List.mem_range]
          simp
        refine (shuffle_ensures hmany hcount).bind ?_
        rintro _ w₅ ⟨haffinity₅, hcount₅⟩
        have hselecting : Selecting w₁.affinity w₅.tmp w₁.affinity 0 := by
          constructor
          · intro k hk
            exact absurd hk (Nat.not_lt_zero k)
          · intro k _
            exact Iff.rfl
        refine (selectFrom_ensures (Nat.zero_add _) rfl hselecting).bind ?_
        rintro set w₆ ⟨rfl, hset⟩
        have hamong : Among set w₁.affinity := fun k hk => ((hset k).mp hk).1
        have hsize : cpuCount set = nproc := (cpuCount_of_kept hset).trans hcount₅
        intro ok w₇ hw₇
        obtain rfl : w₇ = if ok then { w₆ with affinity := set } else w₆ := hw₇
        refine ⟨⟨?_, ?_⟩, ?_⟩
        · intro cpu ho
          cases ho
        · rintro set' ⟨⟩
          exact ⟨hmany, hamong, hsize⟩
        · cases ok with
          | true =>
              intro _
              exact reduced_of_many hmany hamong hsize
          | false =>
              intro hzero
              cases hzero

/-! What the function returns. -/

/-- The calls that can fail, and did. -/
def Failed : Event CpuRes → Prop
  | ⟨.schedGetaffinity, set⟩ => set = none
  | ⟨.schedSetaffinity _, ok⟩ => ok = false
  | _ => False

/-- It returns 0 unless one of them has failed. -/
theorem setAffinityNproc_returns {tr : List (Event CpuRes)} {r : ℤ}
    (h : Runs (setAffinityNproc nproc) tr (.returned r)) : r = 0 ∨ ∃ e ∈ tr, Failed e := by
  rw [setAffinityNproc] at h
  by_cases hzero : nproc = 0
  · rw [if_pos hzero] at h
    exact Or.inl (returns_ret.mp h).2
  · rw [if_neg hzero] at h
    obtain ⟨asked, rest, rfl, hasked⟩ := returns_op_bind.mp h
    cases asked with
    | none => exact Or.inr ⟨_, List.mem_cons_self, rfl⟩
    | some set =>
        change Runs (if cpuCount set ≤ nproc then _ else _) rest (.returned r) at hasked
        by_cases hfew : cpuCount set ≤ nproc
        · rw [if_pos hfew] at hasked
          exact Or.inl (returns_ret.mp hasked).2
        · rw [if_neg hfew] at hasked
          obtain ⟨_, rest₁, rfl, h₁⟩ := returns_op_bind.mp hasked
          obtain ⟨_, first, rest₂, rfl, -, h₂⟩ := returns_bind.mp h₁
          obtain ⟨_, rest₃, rfl, h₃⟩ := returns_op_bind.mp h₂
          obtain ⟨_, swaps, rest₄, rfl, -, h₄⟩ := returns_bind.mp h₃
          obtain ⟨set', selected, rest₅, rfl, -, h₅⟩ := returns_bind.mp h₄
          obtain ⟨ok, rest₆, rfl, h₆⟩ := returns_op_bind.mp h₅
          cases ok with
          | true => exact Or.inl (returns_ret.mp h₆).2
          | false => exact Or.inr ⟨⟨.schedSetaffinity set', false⟩, by simp, rfl⟩

theorem storeBit_lives (cpu : ℕ) (value : Bool) : Lives (storeBit cpu value) := by
  cases value with
  | true => exact lives_op _
  | false => exact lives_op _

theorem selectFrom_lives (cpucount count i j : ℕ) (set : CpuSet) :
    Lives (selectFrom cpucount count i j set) := by
  induction count generalizing i j set with
  | zero => trivial
  | succ count ih =>
      rw [selectFrom]
      split_ifs
      · trivial
      · intro kept
        exact ih _ _ _
      · exact ih _ _ _

theorem setAffinityNproc_lives (nproc : ℕ) : Lives (setAffinityNproc nproc) := by
  have hswap (x y : ℕ) : Lives (cpuSetSwapBits x y) := fun a b =>
    (storeBit_lives y a).bind fun _ => storeBit_lives x b
  rw [setAffinityNproc]
  split_ifs
  · trivial
  · intro asked
    cases asked with
    | none => trivial
    | some set =>
        change Lives (ite _ _ _)
        split_ifs
        · trivial
        · refine (lives_op _).bind fun _ => ?_
          refine (lives_each fun i _ => lives_op _).bind fun _ => ?_
          refine (lives_op _).bind fun _ => ?_
          refine (lives_each fun i _ => (lives_op _).bind fun r => hswap _ _).bind fun _ => ?_
          refine (selectFrom_lives _ _ _ _ _).bind fun set => ?_
          refine (lives_op _).bind fun ok => ?_
          cases ok <;> trivial

/-- For every initial set, every number of processors to be left and all numbers from `random`: what
is installed is a part of the initial set with as many members as are to be left, the initial set
stays when it has no more than that, and each bit of `tmp` that is read or written is below the
number of processors. The function always returns, and returns 0 unless a system call fails. -/
theorem affinity_reduction_exact (hnproc : 1 ≤ nproc) {w' : World} {tr : List (Step World CpuRes)}
    {out : Outcome ℤ} (h : Exec (· = ·) Sem (setAffinityNproc nproc) w tr out w') :
    (∀ u ∈ tr, ∀ set, u.event.1 = .schedSetaffinity set →
      nproc < cpuCount w.affinity ∧ Among set w.affinity ∧ cpuCount set = nproc) ∧
    (out = .returned 0 → Reduced nproc w.affinity w'.affinity) ∧
    (∀ u ∈ tr, ∀ cpu, touched u.event.1 = some cpu → cpu < cpuCount w.affinity) ∧
    Returning (setAffinityNproc nproc) ∧
    ((∀ u ∈ tr, ¬ Failed u.event) → out = .running ∨ out = .returned 0) := by
  obtain ⟨hsteps, hpost⟩ := (setAffinityNproc_ensures hnproc).exec h
  have hreturning := (setAffinityNproc_lives nproc).returning
  refine ⟨?_, ?_, ?_, hreturning, ?_⟩
  · intro u hu set hset
    exact (hsteps u hu).2 set hset
  · intro hout
    exact hpost 0 hout rfl
  · intro u hu cpu hcpu
    exact (hsteps u hu).1 cpu hcpu
  · intro hgood
    refine (hreturning.outcome h.runs).imp_right ?_
    rintro ⟨r, rfl⟩
    rcases setAffinityNproc_returns h.runs with rfl | ⟨e, he, hfailed⟩
    · rfl
    · obtain ⟨u, hu, rfl⟩ := List.mem_map.mp he
      exact absurd hfailed (hgood u hu)

end Affinity

/-! One of the processors 0 and 2 is to be left. -/

private def atStart : World := ⟨5, 0⟩

private def atFirst : World := ⟨5, cpuSet 0 cpuZero⟩

private def atBoth : World := ⟨5, cpuSet 1 (cpuSet 0 cpuZero)⟩

private def atSecond : World := ⟨5, cpuClr 0 (cpuSet 1 (cpuSet 0 cpuZero))⟩

private def atEnd : World := ⟨4, cpuClr 0 (cpuSet 1 (cpuSet 0 cpuZero))⟩

private def reducing : List (Step World CpuRes) :=
  [⟨atStart, ⟨.schedGetaffinity, some 5⟩, atStart⟩, ⟨atStart, ⟨.zero, ()⟩, atStart⟩,
    ⟨atStart, ⟨.set 0, ()⟩, atFirst⟩, ⟨atFirst, ⟨.srandom, ()⟩, atFirst⟩,
    ⟨atFirst, ⟨.random, (3 : ℕ)⟩, atFirst⟩, ⟨atFirst, ⟨.isset 0, true⟩, atFirst⟩,
    ⟨atFirst, ⟨.isset 1, false⟩, atFirst⟩, ⟨atFirst, ⟨.set 1, ()⟩, atBoth⟩,
    ⟨atBoth, ⟨.clr 0, ()⟩, atSecond⟩, ⟨atSecond, ⟨.isset 0, false⟩, atSecond⟩,
    ⟨atSecond, ⟨.isset 1, true⟩, atSecond⟩, ⟨atSecond, ⟨.schedSetaffinity 4, true⟩, atEnd⟩]

private theorem reducing_runs :
    Exec (· = ·) Sem (setAffinityNproc 1) atStart reducing (.returned 0) atEnd := by
  have hruns : Runs (setAffinityNproc 1) (reducing.map Step.event) (.returned 0) :=
    Prog.runs_of_replay (by decide +kernel)
  refine hruns.exec ?_
  have hfirst : true = cpuIsset 0 atFirst.tmp ∧ false = cpuIsset 1 atFirst.tmp := by
    decide +kernel
  have hsecond : false = cpuIsset 0 atSecond.tmp ∧ true = cpuIsset 1 atSecond.tmp := by
    decide +kernel
  refine ⟨rfl, ⟨?_, rfl⟩, rfl, rfl, rfl, rfl, rfl, rfl, rfl, rfl, rfl, ⟨hfirst.1, rfl⟩, rfl,
    ⟨hfirst.2, rfl⟩, rfl, rfl, rfl, rfl, rfl, ⟨hsecond.1, rfl⟩, rfl, ⟨hsecond.2, rfl⟩, rfl, rfl, rfl⟩
  intro set hset
  exact (Option.some.inj hset).symm

/-- The second one stays. -/
theorem affinity_reduction_exact_sample : Reduced 1 5 4 :=
  (affinity_reduction_exact le_rfl reducing_runs).2.1 rfl

end HasherPriv.Chroot.Affinity
