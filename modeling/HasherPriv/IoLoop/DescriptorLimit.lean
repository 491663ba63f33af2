/- GID: HasherPriv/IoLoop/DescriptorLimit
   layer: input and output loop
   source: chrootuid.c, caller_config.c, fd_set.c, parent.c
   digest: The limit of open files decides whether every descriptor fits into a descriptor set. -/

import HasherPriv.Config.CallerConfig
import HasherPriv.IoLoop.Descriptors

set_option autoImplicit false
set_option relaxedAutoImplicit false

namespace HasherPriv.IoLoop.DescriptorLimit

open Foundations.ByteString (str)
open Foundations.Program
open Foundations.Contracts
open Foundations.Handles
open Config.CallerData
open Config.CallerConfig
open Calls
open Log
open X11
open Parent
open Descriptors

/-! The limit. -/

/-- `struct rlimit`. -/
structure Rlim where
  cur : ℕ
  max : ℕ
  deriving DecidableEq

/-- The body of the loop of `set_rlimits`, on the limit that `getrlimit` returns. -/
def setRlimits (p : Rlimit) (rlim : Rlim) : Rlim :=
  if p.hard = none ∧ p.soft = none then rlim
  else
    let rlim := { rlim with max := p.hard.getD rlim.max }
    let rlim := { rlim with cur := p.soft.getD rlim.cur }
    if rlim.max < rlim.cur then { rlim with cur := rlim.max } else rlim

/-- `FD_SETSIZE`. -/
def fdSetsize : ℕ := 1024

/-! The loop below a limit. -/

/-- The calls open the lowest free numbers, and none at or above the limit. -/
def AnswersBelow (limit : ℕ) (o : IoOp) (t : Table) (r : IoRes o) (t' : Table) : Prop :=
  Answers o t r t' ∧
    ∀ n, t.files n = none → (t'.files n).isSome → n < limit ∧ ∀ m < n, (t'.files m).isSome

def slotFds (io : Option IoX11) : List ℤ := io.elim [] fun io => [io.masterFd, io.slaveFd]

/-- What a call of `handle_io` passes to `fds_add_fd` and to `fds_isset`. -/
def watched (c : Setup) (s : State) : List ℤ :=
  [s.io.slaveReadOutFd, s.io.slaveReadErrFd, s.io.slaveWriteFd, s.io.masterReadFd, c.logFd,
    s.ctlFd, s.x11Fd] ++ s.fdList ++ s.x11List.flatMap slotFds

def AllFit (c : Setup) (s : State) : Prop := ∀ fd ∈ watched c s, fd < fdSetsize

/-- In every run of the loop from descriptors that fit, and whatever connects, the descriptors
in the sets of each `pselect` and those that are looked up in its answer fit. -/
def AlwaysFits (limit : ℕ) : Prop :=
  ∀ (c : Setup) (method : Option ConnectMethod) (pipeOut pipeErr ctlFd : ℤ) (t₀ : Table),
    Apart c (start c method pipeOut pipeErr ctlFd) t₀ →
    (∀ n ∈ owned c (start c method pipeOut pipeErr ctlFd) ++
      kept (start c method pipeOut pipeErr ctlFd), n < fdSetsize) →
    ∀ (turns : List (State × List (Step Table IoRes))) (s : State) (t : Table),
      Turns (AnswersBelow limit) (turn c) (start c method pipeOut pipeErr ctlFd) t₀ turns s t →
      AllFit c s ∧ ∀ (tr : List (Step Table IoRes)) (out : Outcome (State ⊕ Unit)) (t' : Table),
        Exec (· = ·) (AnswersBelow limit) (turn c s) t tr out t' → ∀ u ∈ tr,
          ∀ (reads writes : FdSet) (timeout : ℕ), u.event.1 = .pselect reads writes timeout →
            ∀ n ∈ reads ++ writes, n < fdSetsize

/-! What is put into the sets. -/

section Sets

variable {c : Setup} {s : State}

theorem mem_fdsAddLog {l : List ℤ} {sets : Sets} {n : ℕ} :
    n ∈ (fdsAddLog l sets).reads ↔ n ∈ sets.reads ∨ (n : ℤ) ∈ l := by
  induction l generalizing sets with
  | nil => simp [fdsAddLog]
  | cons fd l ih =>
      have hstep : fdsAddLog (fd :: l) sets = fdsAddLog l (sets.addRead fd) := rfl
      rw [hstep, ih, Sets.mem_addRead, List.mem_cons, or_assoc, eq_comm (a := fd)]

theorem fdsAddLog_writes (l : List ℤ) (sets : Sets) :
    (fdsAddLog l sets).writes = sets.writes := by
  induction l generalizing sets with
  | nil => rfl
  | cons fd l ih =>
      have hstep : fdsAddLog (fd :: l) sets = fdsAddLog l (sets.addRead fd) := rfl
      rw [hstep, ih, Sets.addRead_writes]

theorem mem_addFds {io : IoX11} {sets : Sets} {n : ℕ}
    (h : n ∈ (io.addFds sets).reads ++ (io.addFds sets).writes) :
    n ∈ sets.reads ++ sets.writes ∨ (n : ℤ) ∈ slotFds (some io) := by
  simp only [slotFds, Option.elim_some, List.mem_cons, List.not_mem_nil, or_false]
  simp only [IoX11.addFds, List.mem_append] at h ⊢
  split_ifs at h <;> simp only [Sets.mem_addRead, Sets.mem_addWrite, Sets.addRead_writes,
    Sets.addWrite_reads] at h <;> tauto

theorem mem_fdsAddX11 {l : IoX11List} {sets : Sets} {n : ℕ}
    (h : n ∈ (fdsAddX11 l sets).reads ++ (fdsAddX11 l sets).writes) :
    n ∈ sets.reads ++ sets.writes ∨ (n : ℤ) ∈ l.flatMap slotFds := by
  induction l generalizing sets with
  | nil => exact Or.inl h
  | cons io l ih =>
      have hstep : fdsAddX11 (io :: l) sets =
          fdsAddX11 l (io.elim sets fun io => io.addFds sets) := rfl
      rw [hstep] at h
      rw [List.flatMap_cons]
      rcases ih h with h | h
      · cases io with
        | none => exact Or.inl h
        | some io => exact (mem_addFds h).imp_right fun hio => List.mem_append_left _ hio
      · exact Or.inr (List.mem_append_right _ h)

/-- Only the descriptors of the variables get into the sets. -/
theorem selectFds_watched {tr : List (Event IoRes)} {sets : Sets}
    (h : Runs (selectFds c s) tr (.returned (some sets))) {n : ℕ}
    (hn : n ∈ sets.reads ++ sets.writes) : (n : ℤ) ∈ watched c s := by
  have hlasting : ∀ {n : ℕ}, n ∈ (lastingFds s).reads ++ (lastingFds s).writes →
      (n : ℤ) ∈ watched c s := by
    intro n hn
    rw [watched, List.mem_append, List.mem_append]
    rcases mem_fdsAddX11 hn with hn | hn
    · rw [List.mem_append, mem_fdsAddLog, fdsAddLog_writes] at hn
      simp only [Sets.mem_addRead, Sets.addRead_writes, List.not_mem_nil] at hn
      simp only [List.mem_cons, eq_comm (a := (n : ℤ))]
      tauto
    · exact Or.inr hn
  obtain ⟨before, -, ⟨-, hr⟩ | ⟨-, hr⟩⟩ := selectFds_cases h
  · obtain rfl := Option.some.inj hr
    have hold : n ∈ (lastingFds s).reads ++ (lastingFds s).writes ∨ s.io.slaveWriteFd = n ∨
        s.io.masterReadFd = n ∨ c.logFd = n ∨ s.ctlFd = n ∨ s.x11Fd = n := by
      unfold aliveFds at hn
      simp only [List.mem_append, Sets.mem_addRead, Sets.addRead_writes] at hn ⊢
      split_ifs at hn <;> simp only [Sets.mem_addRead, Sets.mem_addWrite,
        Sets.addRead_writes, Sets.addWrite_reads] at hn <;> tauto
    rcases hold with hold | hold
    · exact hlasting hold
    · rw [watched, List.mem_append, List.mem_append]
      simp only [List.mem_cons, eq_comm (a := (n : ℤ))]
      tauto
  · split_ifs at hr
    obtain rfl := Option.some.inj hr
    exact hlasting hn

/-- The sets of a `pselect` hold descriptors of the variables only. -/
def Watches (c : Setup) (s : State) (o : IoOp) : Prop :=
  ∀ reads writes timeout, o = .pselect reads writes timeout →
    ∀ n ∈ reads ++ writes, (n : ℤ) ∈ watched c s

theorem turn_watches : (turn c s).Uses (Watches c s) := by
  have hhandling : ∀ o, Handling o → Watches c s o := by
    rintro o ho reads writes timeout rfl
    exact ho.elim
  have hready : ∀ reads writes, (handleReady c reads writes s).Uses (Watches c s) := by
    intro reads writes
    apply handleReady_uses hhandling
    intro fd data total reads writes timeout h
    cases h
  have hio : (handleIo c s).Uses (Watches c s) := by
    apply uses_bind_of_returned
    · apply selectFds_uses
      · intro reads writes timeout h
        cases h
      · intro fd reads writes timeout h
        cases h
      · intro reads writes timeout h
        cases h
    · intro tr sets hrun
      cases sets with
      | none => trivial
      | some sets =>
          constructor
          · rintro reads writes timeout ⟨⟩ n hn
            exact selectFds_watched hrun hn
          · intro answer
            cases answer with
            | timeout => trivial
            | interrupted => trivial
            | failed => trivial
            | ready reads writes => exact hready reads.val writes.val
  apply Prog.Uses.bind
  · apply workLimitsOk_uses
    intro reads writes timeout h
    cases h
  · intro _
    apply hio.bind
    intro r
    cases r <;> trivial

theorem mem_numbers {n : ℕ} (h : (n : ℤ) ∈ watched c s) : n ∈ owned c s ++ kept s := by
  have hnumber : ∀ {fd : ℤ}, (n : ℤ) = fd → n ∈ number fd := by
    rintro fd rfl
    rw [number_natCast]
    exact List.mem_singleton_self n
  have hlog : (n : ℤ) ∈ s.fdList → n ∈ logNumbers s.fdList := fun h =>
    List.mem_flatMap.mpr ⟨n, h, hnumber rfl⟩
  have hx11 : (n : ℤ) ∈ s.x11List.flatMap slotFds → n ∈ x11Numbers s.x11List := by
    intro h
    obtain ⟨io, hio, hn⟩ := List.mem_flatMap.mp h
    apply List.mem_flatMap.mpr
    refine ⟨io, hio, ?_⟩
    cases io with
    | none => cases hn
    | some io =>
        change n ∈ number io.masterFd ++ number io.slaveFd
        rcases List.mem_cons.mp hn with hn | hn
        · exact List.mem_append_left _ (hnumber hn)
        · exact List.mem_append_right _ (hnumber (List.mem_singleton.mp hn))
  simp only [watched, List.mem_append, List.mem_cons, List.not_mem_nil, or_false] at h
  simp only [owned, kept, ctlNumbers, List.mem_append]
  rcases h with ((h | h | h | h | h | h | h) | h) | h
  · exact Or.inr (Or.inr (Or.inl (hnumber h)))
  · exact Or.inr (Or.inl (hnumber h))
  · exact Or.inr (Or.inr (Or.inr (Or.inl (hnumber h))))
  · exact Or.inr (Or.inr (Or.inr (Or.inr (hnumber h))))
  · exact Or.inl (Or.inr (Or.inr (Or.inl (hnumber h))))
  · exact Or.inl (Or.inr (Or.inr (Or.inr (Or.inr (Or.inl (hnumber h))))))
  · exact Or.inl (Or.inr (Or.inr (Or.inr (Or.inl (hnumber h)))))
  · exact Or.inl (Or.inr (Or.inl (hlog h)))
  · exact Or.inl (Or.inl (hx11 h))

end Sets

/-! A limit that is low enough. -/

section LowLimit

variable {limit : ℕ} {c : Setup} {s : State} {t t' : Table} {tr : List (Step Table IoRes)}

/-- What was free at the start and is open at the end has been opened below the limit. -/
theorem opened_below {α : Type} {p : IoProg α} {out : Outcome α}
    (h : Exec (· = ·) (AnswersBelow limit) p t tr out t') {n : ℕ} (hfree : t.files n = none)
    (hopen : (t'.files n).isSome) : n < limit := by
  induction h with
  | ret a w =>
      rw [hfree] at hopen
      cases hopen
  | die why w =>
      rw [hfree] at hopen
      cases hopen
  | cut p w =>
      rw [hfree] at hopen
      cases hopen
  | @call o k w v v' w' r tr out hadv hsem hrest ih =>
      subst hadv
      cases hv : v'.files n with
      | none => exact ih hv hopen
      | some f => exact (hsem.2 n hfree (by rw [hv]; rfl)).1

/-- All descriptors have one owner and fit. -/
structure Low (c : Setup) (s : State) (t : Table) : Prop where
  apart : Apart c s t
  fits : ∀ n ∈ owned c s ++ kept s, n < fdSetsize

theorem Low.turn {s' : State} (hlimit : limit ≤ fdSetsize) (hs : Low c s t)
    (h : Exec (· = ·) (AnswersBelow limit) (turn c s) t tr (.returned (.inl s')) t') :
    Low c s' t' := by
  have hrun := exec_mono h fun hsem => hsem.1
  obtain ⟨hmoves, hkept⟩ := turn_moves hs.apart hrun
  have hapart := hs.apart.moves hmoves hkept
  refine ⟨hapart, ?_⟩
  intro n hn
  rcases List.mem_append.mp hn with howned | hn
  · rcases hmoves.free n howned with hold | hfree
    · exact hs.fits n (List.mem_append_left _ hold)
    · have hbelow := opened_below h hfree (hapart.owns.2 n howned)
      omega
  · exact hs.fits n (List.mem_append_right _ (hkept hn))

theorem Low.allFit (hs : Low c s t) : AllFit c s := by
  intro fd hfd
  by_cases hneg : fd < 0
  · have hsize : fdSetsize = 1024 := rfl
    omega
  · obtain ⟨n, rfl⟩ := Int.eq_ofNat_of_zero_le (not_lt.mp hneg)
    have hn := hs.fits n (mem_numbers hfd)
    exact_mod_cast hn

theorem alwaysFits_of_le (hlimit : limit ≤ fdSetsize) : AlwaysFits limit := by
  intro c method pipeOut pipeErr ctlFd t₀ hapart hfits turns s t hrun
  have hs : Low c s t := hrun.invariant (P := fun _ => True) (fun _ _ => trivial)
    ⟨hapart, hfits⟩ fun _ hs hturn => hs.turn hlimit hturn
  refine ⟨hs.allFit, ?_⟩
  intro tr out t' hturn u hu reads writes timeout ho n hn
  have hwatched := hturn.runs.uses turn_watches u.event (List.mem_map_of_mem hu)
  have hfit := hs.allFit n (hwatched reads writes timeout ho n hn)
  exact_mod_cast hfit

end LowLimit

/-! A limit that is too high: clients that connect to the log socket, one in each turn. -/

private def floodSetup : Setup :=
  { wlimit := {}, usePty := false, ptyFd := -1, logFd := 3, x11Key := [], x11DataLen := 0
    scanHex := fun _ => none }

private def floodList (k : ℕ) : List ℤ := (List.range k).map fun i => ((6 + i : ℕ) : ℤ)

/-- After `k` connections. -/
private def floodState (k : ℕ) : State :=
  { start floodSetup none 4 5 (-1) with fdList := floodList k }

private def floodTable : ℕ → Table
  | 0 =>
      { files := fun n => if n < 6 then some n else none
        next := 6
        fresh := by
          intro n f h
          split_ifs at h with hn
          obtain rfl := Option.some.inj h
          exact hn }
  | k + 1 => (floodTable k).opened (6 + k)

private theorem floodTable_open (k n : ℕ) : ((floodTable k).files n).isSome ↔ n < 6 + k := by
  induction k with
  | zero =>
      change (if n < 6 then some n else none).isSome ↔ n < 6 + 0
      split_ifs with hn
      · simp [hn]
      · simp [hn]
  | succ k ih =>
      by_cases hn : n = 6 + k
      · rw [floodTable, hn, Table.opened_self]
        simp
      · rw [floodTable, Table.opened_of_ne hn, ih]
        omega

private theorem mem_floodList {k : ℕ} {fd : ℤ} (h : fd ∈ floodList k) : 6 ≤ fd := by
  obtain ⟨i, -, rfl⟩ := List.mem_map.mp h
  omega

private theorem floodList_subset (k : ℕ) : floodList k ⊆ watched floodSetup (floodState k) :=
  fun _ h => List.mem_append_left _ (List.mem_append_right _ h)

private theorem insertFd_floodList (k : ℕ) :
    insertFd ((6 + k : ℕ) : ℤ) (floodList k) = floodList (k + 1) := by
  have happend : ∀ (l : List ℤ) (fd : ℤ), (∀ fd' ∈ l, 6 ≤ fd') → insertFd fd l = l ++ [fd] := by
    intro l fd hl
    induction l with
    | nil => rfl
    | cons fd' l ih =>
        obtain ⟨hfd', hl⟩ := List.forall_mem_cons.mp hl
        rw [insertFd, if_neg (by omega), ih hl]
        rfl
  rw [happend _ _ fun fd hfd => mem_floodList hfd, floodList, floodList, List.range_succ,
    List.map_append]
  rfl

private theorem logSelectFrom_idle {fds : FdSet} {l : List ℤ}
    (h : ∀ fd ∈ l, fdsIsset fds fd = false) (count i total : ℕ) :
    logSelectFrom fds count i l total = .ret (l, total) := by
  induction count generalizing i with
  | zero => rfl
  | succ count ih =>
      have hidle : fdsIsset fds (l.getD i (-1)) = false := by
        by_cases hi : i < l.length
        · rw [List.getD_eq_getElem l (-1) hi]
          exact h _ (List.getElem_mem hi)
        · rw [List.getD_eq_default l (-1) (by omega)]
          rfl
      rw [logSelectFrom, if_neg (by rw [hidle]; exact Bool.false_ne_true), ih]

/-- Where only the log socket is ready, only a connection to it is handled. -/
private theorem handleReady_flood (k : ℕ) :
    handleReady floodSetup [3] [] (floodState k) =
      (logHandleNew 3 [3] (floodList k)).bind fun fdList =>
        .ret (some { floodState k with fdList := fdList }) := by
  have hidle : logHandleSelect [3] (floodList k) 0 = .ret (floodList k, 0) := by
    apply logSelectFrom_idle
    intro fd hfd
    have hlow := mem_floodList hfd
    obtain ⟨n, rfl⟩ := Int.eq_ofNat_of_zero_le (by omega : 0 ≤ fd)
    apply Bool.eq_false_iff.mpr
    intro hset
    have hmem := fdsIsset_natCast.mp hset
    simp at hmem
    omega
  change (logHandleSelect [3] (floodList k) 0).bind (fun r =>
    (logHandleNew 3 [3] r.1).bind fun fdList =>
      .ret (some { floodState k with fdList := fdList, totalBytesWritten := r.2 })) = _
  rw [hidle]
  rfl

private theorem same_below (limit : ℕ) {t : Table} :
    ∀ n, t.files n = none → (t.files n).isSome → n < limit ∧ ∀ m < n, (t.files m).isSome := by
  intro n hfree hopen
  rw [hfree] at hopen
  cases hopen

private theorem exec_same {limit : ℕ} {α : Type} {t t' : Table} {tr : List (Step Table IoRes)}
    {out : Outcome α} (o : IoOp) (r : IoRes o) {next : IoRes o → IoProg α} (ho : Answers o t r t)
    (h : Exec (· = ·) (AnswersBelow limit) (next r) t tr out t') :
    Exec (· = ·) (AnswersBelow limit) (.call o next) t (⟨t, ⟨o, r⟩, t⟩ :: tr) out t' :=
  .call rfl ⟨ho, same_below limit⟩ h

private theorem flood_turn {limit k : ℕ} (hk : 6 + k < limit) :
    ∃ tr, Exec (· = ·) (AnswersBelow limit) (turn floodSetup (floodState k)) (floodTable k) tr
      (.returned (.inl (floodState (k + 1)))) (floodTable (k + 1)) := by
  have hfree : (floodTable k).files (6 + k) = none := by
    apply Option.not_isSome_iff_eq_none.mp
    rw [floodTable_open]
    omega
  have haccepted : AnswersBelow limit (.accept 3) (floodTable k) (some (6 + k))
      (floodTable (k + 1)) := by
    refine ⟨⟨hfree, rfl⟩, ?_⟩
    intro n hn hopen
    have hnew : n = 6 + k := by
      by_contra hne
      rw [floodTable, Table.opened_of_ne hne, hn] at hopen
      cases hopen
    subst hnew
    refine ⟨hk, fun m hm => ?_⟩
    rw [floodTable_open]
    omega
  let sets := (fdsAddLog (floodList k) ((({} : Sets).addRead 4).addRead 5)).addRead (-1) |>.addRead 3
    |>.addRead (-1) |>.addRead (-1)
  have hasked : [3] ⊆ sets.reads := by
    intro n hn
    rw [List.mem_singleton.mp hn]
    simp [sets, Sets.mem_addRead]
  have hready : ∀ next : Option State → IoProg (State ⊕ Unit),
      (∀ s, next (some s) = .ret (.inl s)) → Exec (· = ·) (AnswersBelow limit)
        ((handleReady floodSetup [3] [] (floodState k)).bind next) (floodTable k)
        [⟨floodTable k, ⟨.accept 3, some (6 + k)⟩, floodTable (k + 1)⟩,
          ⟨floodTable (k + 1), ⟨.unblockFd ((6 + k : ℕ) : ℤ), true⟩, floodTable (k + 1)⟩]
        (.returned (.inl (floodState (k + 1)))) (floodTable (k + 1)) := by
    intro next hnext
    rw [handleReady_flood]
    refine .call rfl haccepted ?_
    apply exec_same (.unblockFd ((6 + k : ℕ) : ℤ)) true rfl
    change Exec _ _ (next (some
      { floodState k with fdList := insertFd ((6 + k : ℕ) : ℤ) (floodList k) })) _ _ _ _
    rw [hnext, insertFd_floodList]
    exact .ret _ _
  apply Exists.intro
  apply exec_same .sigalrmArrived false rfl
  apply exec_same .sigwinchArrived false rfl
  apply exec_same .childPid true rfl
  exact exec_same (.pselect sets.reads sets.writes 0)
    (.ready ⟨[3], hasked⟩ ⟨[], List.nil_subset _⟩) rfl (hready _ fun _ => rfl)

private theorem flood_turns {limit : ℕ} (k : ℕ) (hk : 6 + k ≤ limit) :
    ∃ turns, Turns (AnswersBelow limit) (turn floodSetup) (floodState 0) (floodTable 0) turns
      (floodState k) (floodTable k) := by
  induction k with
  | zero => exact ⟨[], .none _ _⟩
  | succ k ih =>
      obtain ⟨turns, hturns⟩ := ih (by omega)
      obtain ⟨tr, hturn⟩ := @flood_turn limit k (by omega)
      exact ⟨_, hturns.snoc hturn⟩

theorem not_alwaysFits {limit : ℕ} (hlimit : fdSetsize < limit) : ¬ AlwaysFits limit := by
  intro h
  have hsize : fdSetsize = 1024 := rfl
  have hapart : Apart floodSetup (floodState 0) (floodTable 0) := ⟨⟨by decide, by decide⟩, by decide⟩
  obtain ⟨turns, hturns⟩ := @flood_turns limit 1019 (by omega)
  obtain ⟨hfit, -⟩ := h floodSetup none 4 5 (-1) (floodTable 0) hapart (by decide) turns _ _ hturns
  have hmem : (1024 : ℤ) ∈ floodList 1019 := by
    apply List.mem_map.mpr
    exact ⟨1018, List.mem_range.mpr (by omega), by norm_num⟩
  have hlast := hfit 1024 (floodList_subset 1019 hmem)
  omega

/-- The limit after `set_rlimits`, with any values of the configuration and of the server, and
whether every descriptor of every run fits. -/
theorem descriptors_fit_iff (p : Rlimit) (inherited : Rlim) :
    AlwaysFits (setRlimits p inherited).cur ↔ (setRlimits p inherited).cur ≤ fdSetsize := by
  constructor
  · intro h
    by_contra hhigh
    exact not_alwaysFits (by omega) h
  · exact alwaysFits_of_le

/-- With `rlimit_hard_nofile=4096` and `rlimit_soft_nofile=4096` there are runs in which a
descriptor does not fit. -/
theorem configured_limit_overflows : ∃ (table : List Rlimit) (p : Rlimit),
    (setRlim (str "nofile") (str "4096") true (str "rlimit_hard_nofile") (str "system")
        ({} : Settings).changeRlimit >>=
      setRlim (str "nofile") (str "4096") false (str "rlimit_soft_nofile") (str "system")) =
        .ok table ∧
    p ∈ table ∧ p.name = str "nofile" ∧ ¬ AlwaysFits (setRlimits p ⟨1024, 4096⟩).cur := by
  refine ⟨_, ⟨str "nofile", some 4096, some 4096⟩, rfl, ?_, rfl, not_alwaysFits (by decide)⟩
  decide

end HasherPriv.IoLoop.DescriptorLimit
