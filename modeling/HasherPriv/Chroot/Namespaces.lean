/- GID: HasherPriv/Chroot/Namespaces
   layer: chroot
   source: ns.c
   digest: The namespaces that a job continues in are those of its client, unless an open fails. -/

import HasherPriv.Foundations.ByteString
import HasherPriv.Foundations.Program

set_option autoImplicit false
set_option relaxedAutoImplicit false

namespace HasherPriv.Chroot.Namespaces

open Foundations.ByteString
open Foundations.Program (bind_eq_ok)

/-- The namespaces that are allowed to differ. -/
inductive Ns
  | mnt
  | ipc
  | uts
  | net
  deriving DecidableEq

/-- `enter_ns`, in its order. -/
def enterNs : List Ns := [.mnt, .ipc, .uts, .net]

def Ns.name : Ns → Bytes
  | .mnt => str "mnt"
  | .ipc => str "ipc"
  | .uts => str "uts"
  | .net => str "net"

/-- `CLONE_NEWNS`, `CLONE_NEWIPC`, `CLONE_NEWUTS` and `CLONE_NEWNET`. -/
def Ns.nstype : Ns → ℕ
  | .mnt => 0x00020000
  | .ipc => 0x08000000
  | .uts => 0x04000000
  | .net => 0x40000000

/-- `st_dev` and `st_ino`. -/
structure Stat where
  dev : ℕ
  ino : ℕ
  deriving DecidableEq

/-- An entry of `/proc/self/ns`; `link` is `d_type == DT_LNK`. -/
structure Dirent where
  name : Bytes
  link : Bool
  deriving DecidableEq

/-- What the kernel answers: the entries of `/proc/self/ns`, `fstatat` in the directory of the
server and in that of the client, `openat` in the latter, `setns`, and whether the two
directories can be opened. -/
structure Answers where
  openProcNsFd : Bool := true
  opendir : Bool := true
  entries : List Dirent
  selfStat : Bytes → Option Stat
  pidStat : Bytes → Option Stat
  openat : Bytes → Option ℕ
  setns : ℕ → ℕ → Bool

/-- The column `fd` of `enter_ns`. -/
abbrev Descriptors := Ns → ℤ

/-- The value of an `open` call. -/
def fdOf : Option ℕ → ℤ
  | none => -1
  | some fd => fd

/-- The body of the loop over the entries. -/
def checkLink (k : Answers) (fds : Descriptors) (dent : Dirent) : Except String Descriptors :=
  if ¬ dent.link then .ok fds
  else
    match k.selfStat dent.name, k.pidStat dent.name with
    | none, _ => .error s!"fstatat: /proc/self/ns/{text dent.name}"
    | some _, none => .error s!"fstatat: ns/{text dent.name}"
    | some self, some pid =>
        if self = pid then .ok fds
        else
          match enterNs.find? (·.name = dent.name) with
          | none => .error s!"{text dent.name} namespace mismatch"
          -- a failed openat leaves the -1 that means "no need to enter"
          | some ns => .ok (Function.update fds ns (fdOf (k.openat dent.name)))

/-- The second loop; it gives the calls of `setns` that have succeeded. -/
def enterAll (k : Answers) (fds : Descriptors) : List Ns → Except String (List (ℕ × ℕ))
  | [] => .ok []
  | ns :: rest =>
      if fds ns < 0 then enterAll k fds rest
      else if k.setns (fds ns).toNat ns.nstype then do
        let entered ← enterAll k fds rest
        return ((fds ns).toNat, ns.nstype) :: entered
      else .error s!"setns: {text ns.name}"

def setupNs (k : Answers) : Except String (List (ℕ × ℕ)) :=
  if ¬ k.openProcNsFd then .error "open: ns"
  else if ¬ k.opendir then .error "opendir: /proc/self/ns"
  else do
    let fds ← k.entries.foldlM (checkLink k) fun _ => -1
    enterAll k fds enterNs

/-! Agreement. -/

/-- The links of the server and of the client are the same. -/
def Identical (k : Answers) (name : Bytes) : Prop :=
  ∃ st, k.selfStat name = some st ∧ k.pidStat name = some st

/-- It is one of the four, and the client's has been entered. -/
def Entered (k : Answers) (entered : List (ℕ × ℕ)) (name : Bytes) : Prop :=
  ∃ ns : Ns, ns.name = name ∧ ∃ fd, k.openat name = some fd ∧ (fd, ns.nstype) ∈ entered

/-- The job continues in the namespaces of its client. -/
def Agrees (k : Answers) (entered : List (ℕ × ℕ)) : Prop :=
  ∀ dent ∈ k.entries, dent.link → Identical k dent.name ∨ Entered k entered dent.name

/-- Every link of the client that has to be opened can be. -/
def Opens (k : Answers) : Prop :=
  ∀ dent ∈ k.entries, dent.link → ¬ Identical k dent.name → (k.openat dent.name).isSome

private theorem find_name {name : Bytes} {ns : Ns} (h : enterNs.find? (·.name = name) = some ns) :
    ns.name = name := by simpa using List.find?_some h

/-- What a body that does not die has found out and noted. -/
private theorem checkLink_ok {k : Answers} {fds fds' : Descriptors} {dent : Dirent}
    (h : checkLink k fds dent = .ok fds') :
    ((dent.link = false ∨ Identical k dent.name) ∧ fds' = fds) ∨
      (dent.link = true ∧ ¬ Identical k dent.name ∧ ∃ ns : Ns, ns.name = dent.name ∧
        fds' = Function.update fds ns (fdOf (k.openat dent.name))) := by
  unfold checkLink at h
  cases hlink : dent.link with
  | false =>
      simp only [hlink, Bool.false_eq_true, not_false_eq_true, if_true] at h
      exact .inl ⟨.inl rfl, (Except.ok.inj h).symm⟩
  | true =>
      simp only [hlink, not_true_eq_false, if_false] at h
      cases hself : k.selfStat dent.name with
      | none => simp [hself] at h
      | some self =>
          cases hpid : k.pidStat dent.name with
          | none => simp [hself, hpid] at h
          | some pid =>
              simp only [hself, hpid] at h
              split_ifs at h with heq
              · subst heq
                exact .inl ⟨.inr ⟨self, hself, hpid⟩, (Except.ok.inj h).symm⟩
              · cases hfind : enterNs.find? (·.name = dent.name) with
                | none => simp [hfind] at h
                | some ns =>
                    simp only [hfind] at h
                    refine .inr ⟨rfl, ?_, ns, find_name hfind, (Except.ok.inj h).symm⟩
                    rintro ⟨st, hst, hst'⟩
                    rw [hself] at hst
                    rw [hpid] at hst'
                    exact heq (Option.some.inj (hst.trans hst'.symm))

/-- The first loop notes the descriptor of every link that differs. -/
private theorem checkLinks_ok {k : Answers} {entries : List Dirent} {fds fds' : Descriptors}
    (h : entries.foldlM (checkLink k) fds = .ok fds') :
    (∀ dent ∈ entries, dent.link → ¬ Identical k dent.name → ∃ ns : Ns, ns.name = dent.name ∧
      fds' ns = fdOf (k.openat dent.name)) ∧
    ∀ ns : Ns, fds' ns = fds ns ∨ fds' ns = fdOf (k.openat ns.name) := by
  induction entries generalizing fds with
  | nil =>
      obtain rfl := Except.ok.inj h
      exact ⟨nofun, fun _ => .inl rfl⟩
  | cons dent entries ih =>
      rw [List.foldlM_cons] at h
      obtain ⟨mid, hfirst, hrest⟩ := bind_eq_ok h
      obtain ⟨hlater, hkept⟩ := ih hrest
      rcases checkLink_ok hfirst with ⟨hsame, rfl⟩ | ⟨hlink, hdiffer, ns, hname, rfl⟩
      · refine ⟨fun dent' hmem hlink hdiffer => ?_, hkept⟩
        rcases List.mem_cons.mp hmem with rfl | hmem
        · rcases hsame with hno | hid
          · simp [hno] at hlink
          · exact absurd hid hdiffer
        · exact hlater dent' hmem hlink hdiffer
      · refine ⟨fun dent' hmem hlink' hdiffer' => ?_, fun ns' => ?_⟩
        · rcases List.mem_cons.mp hmem with rfl | hmem
          · refine ⟨ns, hname, ?_⟩
            rcases hkept ns with heq | heq
            · rw [heq, Function.update_self]
            · rw [heq, hname]
          · exact hlater dent' hmem hlink' hdiffer'
        · by_cases hns : ns' = ns
          · subst hns
            refine .inr ?_
            rcases hkept ns' with heq | heq
            · rw [heq, Function.update_self, hname]
            · exact heq
          · have heq := hkept ns'
            rwa [Function.update_of_ne hns] at heq

/-- The second loop enters everything that has a descriptor. -/
private theorem enterAll_ok {k : Answers} {fds : Descriptors} {l : List Ns}
    {entered : List (ℕ × ℕ)} (h : enterAll k fds l = .ok entered) {ns : Ns} (hmem : ns ∈ l)
    (hfd : 0 ≤ fds ns) : ((fds ns).toNat, ns.nstype) ∈ entered := by
  induction l generalizing entered with
  | nil => cases hmem
  | cons x l ih =>
      rw [enterAll] at h
      split_ifs at h with hneg hset
      · refine ih h ((List.mem_cons.mp hmem).resolve_left ?_)
        rintro rfl
        omega
      · obtain ⟨rest, hrest, he⟩ := bind_eq_ok h
        obtain rfl := Except.ok.inj he
        rcases List.mem_cons.mp hmem with rfl | hmem
        · exact List.mem_cons_self
        · exact List.mem_cons_of_mem _ (ih hrest hmem)

theorem setup_ns_agrees_iff {k : Answers} {entered : List (ℕ × ℕ)} (h : setupNs k = .ok entered) :
    Agrees k entered ↔ Opens k := by
  constructor
  · intro hagrees dent hmem hlink hdiffer
    obtain ⟨ns, -, fd, hopen, -⟩ := (hagrees dent hmem hlink).resolve_left hdiffer
    simp [hopen]
  · intro hopens dent hmem hlink
    by_cases hid : Identical k dent.name
    · exact .inl hid
    refine .inr ?_
    unfold setupNs at h
    split_ifs at h
    obtain ⟨fds, hlinks, henter⟩ := bind_eq_ok h
    obtain ⟨ns, hname, hfd⟩ := (checkLinks_ok hlinks).1 dent hmem hlink hid
    obtain ⟨fd, hopen⟩ := Option.isSome_iff_exists.mp (hopens dent hmem hlink hid)
    rw [hopen] at hfd
    have hpos : fds ns = fd := hfd
    have hns : ns ∈ enterNs := by cases ns <;> decide
    have hin := enterAll_ok henter hns (by omega)
    rw [hpos, Int.toNat_natCast] at hin
    exact ⟨ns, hname, fd, hopen, hin⟩

/-- A client in a mount namespace and a network namespace of its own. -/
def sampleAnswers (openat : Bytes → Option ℕ) : Answers where
  entries := [⟨str ".", false⟩, ⟨str "mnt", true⟩, ⟨str "net", true⟩, ⟨str "pid", true⟩]
  selfStat _ := some ⟨4, 1⟩
  pidStat name := some (if name = str "pid" then ⟨4, 1⟩ else ⟨4, 2⟩)
  openat := openat
  setns _ _ := true

theorem setup_ns_agrees_iff_sample :
    Agrees (sampleAnswers fun name => some (if name = str "mnt" then 5 else 6))
      [(5, 0x00020000), (6, 0x40000000)] := by
  refine (setup_ns_agrees_iff rfl).mpr ?_
  intro dent hmem hlink hdiffer
  rfl

/-- A client whose links cannot be opened: the job continues in the namespaces of the server. -/
theorem open_failure_ignored :
    ¬ ∀ k entered, setupNs k = .ok entered → Agrees k entered := by
  intro hclaim
  have hagrees := hclaim (sampleAnswers fun _ => none) [] rfl
  rcases hagrees ⟨str "mnt", true⟩ (by decide) rfl with ⟨st, hself, hpid⟩ | ⟨ns, -, fd, hopen, -⟩
  · obtain rfl : ⟨4, 1⟩ = st := Option.some.inj hself
    exact absurd hpid (by decide)
  · cases hopen

end HasherPriv.Chroot.Namespaces
