/- GID: HasherPriv/Chroot/Mountpoints
   layer: chroot
   source: mount.c, makedev.c, caller_config.c
   digest: What is mounted and which devices are made, for any request and configuration. -/

import HasherPriv.Chroot.Notable

set_option autoImplicit false
set_option relaxedAutoImplicit false

namespace HasherPriv.Chroot.Mountpoints

open Foundations.ByteString
open Foundations.Program
open Config.CallerData
open Config.ListOptions
open Syscall
open Chdiruid
open Mount
open Notable

/-- What an item has to be like, `/dev` and `/dev/shm` apart. -/
structure Fits (s : Settings) (item : Bytes) : Prop where
  leading : item.head? = some slash
  single : item.tail.head? ≠ some slash
  listed : Xor (item ∈ s.allowedDevices.items) (item ∈ s.allowedMountpoints.items)
  device : item ∈ s.allowedDevices.items → str "/dev/" <+: item

def wantsDevice (s : Settings) (item : Bytes) : Bool :=
  ! unconditional item && isAllowed item s.allowedDevices

def wantsMount (s : Settings) (item : Bytes) : Bool :=
  ! unconditional item && isAllowed item s.allowedMountpoints

/-- The vectors with more items sorted into them. -/
def collect (s : Settings) (r : Requested) (items : List Bytes) : Requested where
  devVec := r.devVec ++ items.filter (wantsDevice s)
  mpointVec := r.mpointVec ++ items.filter (wantsMount s)
  devPtsMounted := r.devPtsMounted || items.any fun i => wantsMount s i && i = str "/dev/pts"

private theorem strncmpEq_iff {item : Bytes} :
    strncmpEq item (str "/dev/") 5 ↔ str "/dev/" <+: item := by
  have hlen : (str "/dev/").length = 5 := rfl
  rw [List.prefix_iff_eq_take, hlen]
  simp [strncmpEq, eq_comm, str]

theorem sortItem_ok {s : Settings} {r r' : Requested} {item : Bytes} :
    sortItem s r item = .ok r' ↔
      (unconditional item = false → Fits s item) ∧ r' = collect s r [item] := by
  rw [sortItem]
  by_cases hu : unconditional item
  · have hsame : collect s r [item] = r := by simp [collect, wantsDevice, wantsMount, hu]
    simp [hu, hsame, eq_comm]
  · rw [if_neg hu]
    by_cases hslash : item.head? ≠ some slash ∨ item.tail.head? = some slash
    · rw [if_pos hslash]
      constructor
      · nofun
      · rintro ⟨hfits, -⟩
        obtain ⟨hlead, hsingle, -, -⟩ := hfits (by simpa using hu)
        exact (hslash.elim (· hlead) hsingle).elim
    · rw [if_neg hslash]
      rw [not_or, not_not] at hslash
      obtain ⟨hlead, hsingle⟩ := hslash
      have hunc : unconditional item = false := by simpa using hu
      have hdev : item ∈ s.allowedDevices.items ↔ isAllowed item s.allowedDevices = true :=
        isAllowed_iff.symm
      have hmnt : item ∈ s.allowedMountpoints.items ↔
          isAllowed item s.allowedMountpoints = true := isAllowed_iff.symm
      have hfits : Fits s item ↔ Xor (isAllowed item s.allowedDevices = true)
          (isAllowed item s.allowedMountpoints = true) ∧
          (isAllowed item s.allowedDevices = true → str "/dev/" <+: item) := by
        rw [← hdev, ← hmnt]
        exact ⟨fun h => ⟨h.listed, h.device⟩, fun h => ⟨hlead, hsingle, h.1, h.2⟩⟩
      rw [hfits]
      cases hd : isAllowed item s.allowedDevices <;>
        cases hm : isAllowed item s.allowedMountpoints
      · simp [hunc, Xor]
      · simp [hunc, Xor, collect, wantsDevice, wantsMount, hd, hm, eq_comm]
      · by_cases hpre : str "/dev/" <+: item
        · have hcmp : strncmpEq item (str "/dev/") 5 = true := strncmpEq_iff.mpr hpre
          simp [hunc, Xor, collect, wantsDevice, wantsMount, hd, hm, hpre, hcmp, eq_comm]
        · have hcmp : ¬ strncmpEq item (str "/dev/") 5 = true := fun h =>
            hpre (strncmpEq_iff.mp h)
          simp [hunc, Xor, hpre, hcmp]
      · refine ⟨nofun, ?_⟩
        rintro ⟨hxor, -⟩
        rcases (hxor hunc).1 with ⟨-, h⟩ | ⟨-, h⟩ <;> exact (h rfl).elim

private theorem collect_append (s : Settings) (r : Requested) (xs ys : List Bytes) :
    collect s (collect s r xs) ys = collect s r (xs ++ ys) := by
  simp [collect, Bool.or_assoc]

/-- The first loop passes exactly the lists of items that fit, and sorts them. -/
theorem sortItems_ok {s : Settings} {slots : List (Option Bytes)} {r r' : Requested} :
    sortItems s slots r = .ok r' ↔
      (∀ item ∈ slots.filterMap id, unconditional item = false → Fits s item) ∧
        r' = collect s r (slots.filterMap id) := by
  induction slots generalizing r with
  | nil =>
      have hsame : collect s r [] = r := by simp [collect]
      constructor
      · intro h
        exact ⟨by simp, (Except.ok.inj h).symm.trans hsame.symm⟩
      · rintro ⟨-, rfl⟩
        exact congrArg Except.ok hsame.symm
  | cons slot slots ih =>
      rcases slot with _ | item
      · simpa [sortItems] using ih
      · rw [sortItems]
        change (sortItem s r item).bind (fun r => sortItems s slots r) = .ok r' ↔ _
        simp only [List.filterMap_cons_some (rfl : id (some item) = some item),
          List.forall_mem_cons]
        constructor
        · intro h
          cases hr : sortItem s r item with
          | error why =>
              rw [hr] at h
              cases h
          | ok r₁ =>
              rw [hr] at h
              obtain ⟨hitem, rfl⟩ := sortItem_ok.mp hr
              obtain ⟨hrest, rfl⟩ := ih.mp h
              exact ⟨⟨hitem, hrest⟩, collect_append s r [item] _⟩
        · rintro ⟨⟨hitem, hrest⟩, rfl⟩
          rw [sortItem_ok.mpr ⟨hitem, rfl⟩]
          exact ih.mpr ⟨hrest, (collect_append s r [item] _).symm⟩

/-! The order of path names. -/

/-- An absolute path name without empty components. -/
structure Proper (path : Bytes) : Prop where
  absolute : path.head? = some slash
  pieces : [] ∉ path.tail.splitOnP (· = slash)

theorem Proper.joined_components {path : Bytes} (h : Proper path) :
    joined (components path) = path := by
  obtain ⟨habs, hpieces⟩ := h
  obtain ⟨rest, rfl⟩ := List.head?_eq_some_iff.mp habs
  exact Foundations.ByteString.joined_components hpieces

/-- Of two proper paths the upper one is a prefix of the lower one. -/
theorem Proper.prefix_of_components {a b : Bytes} (ha : Proper a) (hb : Proper b)
    (h : components b <+: components a) : b <+: a := by
  obtain ⟨below, hbelow⟩ := h
  rw [← ha.joined_components, ← hb.joined_components, ← hbelow, joined, joined, List.flatMap_append]
  exact List.prefix_append _ _

/-- In increasing order no path comes after one that it is above, or after itself. -/
theorem not_above_of_strLt {a b : Bytes} (ha : Proper a) (hb : Proper b) (h : strLt a b) :
    ¬ components b <+: components a := by
  intro habove
  obtain ⟨below, rfl⟩ := ha.prefix_of_components hb habove
  by_cases hnil : below = []
  · rw [hnil, List.append_nil] at h
    exact strLt_irrefl b h
  · exact strLt_asymm h (strLt_append b hnil)

/-! The theorem. -/

/-- `parse_env` with a value for `requested_mountpoints`. -/
def requesting (s : Settings) (value : Bytes) : Settings :=
  { s with requestedMountpoints := parseStrList value s.requestedMountpoints }

def xmountDir : Sys → Option Bytes
  | .enter (.xmount dir) => some dir
  | _ => none

def copyDevSrc : Sys → Option Bytes
  | .enter (.copyDev src) => some src
  | _ => none

/-- The directories that `xmount` was entered with, in order. -/
def mounted (tr : List (Event SysRes)) : List Bytes := tr.filterMap fun e => xmountDir e.1

/-- The device names that `copy_dev` was entered with, in order. -/
def copied (tr : List (Event SysRes)) : List Bytes := tr.filterMap fun e => copyDevSrc e.1

private theorem mounted_eq (tr : List (Event SysRes)) :
    mounted tr = (tr.filterMap fun e => notable e.1).filterMap xmountDir := by
  rw [List.filterMap_filterMap]
  refine List.filterMap_congr fun e _ => ?_
  rcases e with ⟨o, r⟩
  cases o <;> rfl

private theorem copied_eq (tr : List (Event SysRes)) :
    copied tr = (tr.filterMap fun e => notable e.1).filterMap copyDevSrc := by
  rw [List.filterMap_filterMap]
  refine List.filterMap_congr fun e _ => ?_
  rcases e with ⟨o, r⟩
  cases o <;> rfl

private theorem calls_xmountDir (r : Requested) :
    (Requested.calls r).filterMap xmountDir = str "/dev" :: str "/dev/shm" :: r.mpointVec := by
  have hdevs : (r.devVec.map fun src => Sys.enter (.copyDev src)).filterMap xmountDir = [] := by
    simp [List.filterMap_map, xmountDir, Function.comp_def]
  have hmounts : (r.mpointVec.map fun m => Sys.enter (.xmount m)).filterMap xmountDir =
      r.mpointVec := by
    simp [List.filterMap_map, xmountDir, Function.comp_def]
  rw [Requested.calls, List.filterMap_append, List.filterMap_cons, hdevs, List.filterMap_cons,
    hmounts]
  rfl

private theorem calls_copyDevSrc (r : Requested) :
    (Requested.calls r).filterMap copyDevSrc = r.devVec := by
  have hdevs : (r.devVec.map fun src => Sys.enter (.copyDev src)).filterMap copyDevSrc =
      r.devVec := by
    simp [List.filterMap_map, copyDevSrc, Function.comp_def]
  have hmounts : (r.mpointVec.map fun m => Sys.enter (.xmount m)).filterMap copyDevSrc = [] := by
    simp [List.filterMap_map, copyDevSrc, Function.comp_def]
  rw [Requested.calls, List.filterMap_append, List.filterMap_cons, hdevs, List.filterMap_cons,
    hmounts]
  simp [copyDevSrc]

/-- Either an item is not as it has to be and the process dies at once, or the items are
sorted out and the mounts begin. -/
private theorem setupMountpoints_cases (c : Caller) (s : Settings) (chrootFd : ℤ)
    (value : Bytes) :
    (∃ item ∈ tokens isItemDelim value, unconditional item = false ∧ ¬ Fits s item) ∧
      (∃ why, setupMountpoints c (requesting s value) chrootFd = .die why) ∨
    (∀ item ∈ tokens isItemDelim value, unconditional item = false → Fits s item) ∧
      (setupMountpoints c (requesting s value) chrootFd).Emits notable
        (Requested.calls (collect s {} (requesting s value).requestedMountpoints.items)) := by
  generalize ht : requesting s value = t
  have hmem (item : Bytes) : item ∈ t.requestedMountpoints.items ↔
      item ∈ tokens isItemDelim value := by
    rw [← ht]
    exact mem_items_parseStrList
  have hfits (item : Bytes) : Fits t item ↔ Fits s item := by
    rw [← ht]
    exact ⟨fun h => ⟨h.leading, h.single, h.listed, h.device⟩,
      fun h => ⟨h.leading, h.single, h.listed, h.device⟩⟩
  rcases hsort : sortItems t (t.requestedMountpoints.slots.take t.requestedMountpoints.len) {}
    with why | r
  · left
    refine ⟨?_, why, by rw [setupMountpoints, hsort]⟩
    by_contra hnone
    have hall : ∀ item ∈ t.requestedMountpoints.items,
        unconditional item = false → Fits t item := by
      intro item hitem hu
      by_contra hbad
      exact hnone ⟨item, (hmem item).mp hitem, hu, fun h => hbad ((hfits item).mpr h)⟩
    have hok := (sortItems_ok (r := {})).mpr ⟨hall, rfl⟩
    rw [hsort] at hok
    cases hok
  · right
    obtain ⟨hall, rfl⟩ := sortItems_ok.mp hsort
    refine ⟨fun item hitem hu => (hfits item).mp (hall item ((hmem item).mpr hitem) hu), ?_⟩
    have hsame : collect t {} t.requestedMountpoints.items =
        collect s {} t.requestedMountpoints.items := by
      rw [← ht]
      rfl
    rw [← hsame]
    exact setupMountpoints_emits c t chrootFd hsort

/-- No mount point of the list comes after one that lies below it. -/
private theorem mounts_ordered {ms : List Bytes} (hsorted : ms.Pairwise strLt)
    (hother : ∀ m ∈ ms, unconditional m = false) :
    (str "/dev" :: str "/dev/shm" :: ms).Pairwise fun earlier later =>
      Proper earlier → Proper later → ¬ components later <+: components earlier := by
  have hnot {m : Bytes} (hm : m ∈ ms) (hp : Proper m) {cs : List Bytes}
      (hcs : joined cs = str "/dev" ∨ joined cs = str "/dev/shm") : components m ≠ cs := by
    intro hc
    have hpath := hp.joined_components
    rw [hc] at hpath
    have hu := hother m hm
    rcases hcs with h | h <;> simp [unconditional, ← hpath, h] at hu
  have hnonempty {m : Bytes} (hp : Proper m) : components m ≠ [] := by
    intro hc
    have hpath := hp.joined_components
    rw [hc] at hpath
    have habs := hp.absolute
    rw [← hpath] at habs
    cases habs
  have hdev : components (str "/dev") = [str "dev"] := by decide
  have hshm : components (str "/dev/shm") = [str "dev", str "shm"] := by decide
  refine List.pairwise_cons.mpr ⟨?_, List.pairwise_cons.mpr ⟨?_, ?_⟩⟩
  · intro m hm _ hp habove
    rw [hdev] at habove
    rcases List.mem_cons.mp hm with rfl | hm
    · exact absurd habove (by decide)
    · rcases List.prefix_cons_iff.mp habove with h | ⟨rest, h, hrest⟩
      · exact hnonempty hp h
      · rw [List.prefix_nil.mp hrest] at h
        exact hnot hm hp (.inl (by decide)) h
  · intro m hm _ hp habove
    rw [hshm] at habove
    rcases List.prefix_cons_iff.mp habove with h | ⟨rest, h, hrest⟩
    · exact hnonempty hp h
    · rcases List.prefix_cons_iff.mp hrest with rfl | ⟨rest', rfl, hrest'⟩
      · exact hnot hm hp (.inl (by decide)) h
      · rw [List.prefix_nil.mp hrest'] at h
        exact hnot hm hp (.inr (by decide)) h
  · exact hsorted.imp fun hlt ha hb => not_above_of_strLt ha hb hlt

/-- For any request, any configuration and any fstab: nothing at all is done unless every item
fits; a run that completes mounts `/dev`, `/dev/shm` and then each other requested allowed mount
point once, in increasing order, and makes each other requested allowed device once; and in
every run no mount point comes after one that lies below it. -/
theorem mounts_gated (c : Caller) (s : Settings) (chrootFd : ℤ) (value : Bytes) :
    (∀ tr out, Runs (setupMountpoints c (requesting s value) chrootFd) tr out → tr ≠ [] →
      ∀ item ∈ tokens isItemDelim value, unconditional item = false → Fits s item) ∧
    ((∃ item ∈ tokens isItemDelim value, unconditional item = false ∧ ¬ Fits s item) →
      ∃ why, setupMountpoints c (requesting s value) chrootFd = .die why) ∧
    (∀ tr b, Runs (setupMountpoints c (requesting s value) chrootFd) tr (.returned b) →
      ∃ ms, mounted tr = str "/dev" :: str "/dev/shm" :: ms ∧ ms.Pairwise strLt ∧
        (∀ m, m ∈ ms ↔ m ∈ tokens isItemDelim value ∧ unconditional m = false ∧
          m ∈ s.allowedMountpoints.items) ∧
        (copied tr).Nodup ∧
        ∀ d, d ∈ copied tr ↔ d ∈ tokens isItemDelim value ∧ unconditional d = false ∧
          d ∈ s.allowedDevices.items) ∧
    ∀ tr out, Runs (setupMountpoints c (requesting s value) chrootFd) tr out →
      (mounted tr).Pairwise fun earlier later =>
        Proper earlier → Proper later → ¬ components later <+: components earlier := by
  have hsorted := sorted_items_parseStrList value s.requestedMountpoints
  have hmem (item : Bytes) : item ∈ (requesting s value).requestedMountpoints.items ↔
      item ∈ tokens isItemDelim value := mem_items_parseStrList
  rcases setupMountpoints_cases c s chrootFd value with ⟨hbad, why, hdie⟩ | ⟨hall, hemits⟩
  · have hnothing {tr : List (Event SysRes)} {out : Outcome Bool}
        (h : Runs (setupMountpoints c (requesting s value) chrootFd) tr out) : tr = [] := by
      rw [hdie] at h
      cases h <;> rfl
    refine ⟨?_, fun _ => ⟨why, hdie⟩, ?_, ?_⟩
    · intro tr out h hne
      exact (hne (hnothing h)).elim
    · intro tr b h
      rw [hdie] at h
      exact (returns_die h).elim
    · intro tr out h
      rw [hnothing h]
      exact List.Pairwise.nil
  · have hms := mounts_ordered (hsorted.filter (wantsMount s)) fun m hm => by
      have hw := (List.mem_filter.mp hm).2
      simp only [wantsMount, Bool.and_eq_true, Bool.not_eq_true'] at hw
      exact hw.1
    refine ⟨fun _ _ _ _ => hall, ?_, ?_, ?_⟩
    · rintro ⟨item, hitem, hu, hnot⟩
      exact (hnot (hall item hitem hu)).elim
    · intro tr b h
      have hcalls := (h.emits hemits).2 b rfl
      refine ⟨(requesting s value).requestedMountpoints.items.filter (wantsMount s), ?_,
        hsorted.filter _, ?_, ?_, ?_⟩
      · rw [mounted_eq, hcalls, calls_xmountDir]
        rfl
      · intro m
        rw [List.mem_filter, hmem]
        simp [wantsMount, isAllowed_iff]
      · rw [copied_eq, hcalls, calls_copyDevSrc]
        have hdistinct : (requesting s value).requestedMountpoints.items.Nodup :=
          hsorted.imp (S := (· ≠ ·)) fun hlt heq => strLt_irrefl _ (heq ▸ hlt)
        exact hdistinct.filter _
      · intro d
        rw [copied_eq, hcalls, calls_copyDevSrc]
        change d ∈ List.filter (wantsDevice s) _ ↔ _
        rw [List.mem_filter, hmem]
        simp [wantsDevice, isAllowed_iff]
    · intro tr out h
      have hpre := ((h.emits hemits).1.filterMap xmountDir)
      rw [← mounted_eq, calls_xmountDir] at hpre
      exact hms.sublist hpre.sublist

/-! A request for `/dev` itself, which is allowed as a mount point, and for `/dev/shm`, which is
allowed as a device. -/

def sampleCaller : Caller := ⟨str "user", str "/home/user", 500, 500, 0⟩

def sampleSettings : Settings :=
  { changeUid1 := 600, changeGid1 := 600
    allowedMountpoints := parseStrList (str "/dev") {}
    allowedDevices := parseStrList (str "/dev/shm") {} }

/-- The owners of the working directory and of the directory `dev` below it. -/
structure SampleWorld where
  cwd : UInt32 := 500
  dev : UInt32 := 500

def sampleStat (uid : UInt32) : Stat := ⟨1, 2, 0, 0o040755, 1, 0, uid, 600⟩

/-- A machine on which every call succeeds. A file is root's, a directory in the chroot the
caller's until something is mounted on it. -/
def sampleAnswer (w : SampleWorld) : (o : Sys) → Option (SysRes o × SampleWorld)
  | .lstat name =>
      let owner := if name = str "." then w.cwd else if name = str "dev" then w.dev else 0
      some (some (sampleStat owner), w)
  | .fstat fd =>
      some (some (if fd = 9 then sampleStat 500 else { sampleStat 0 with mode := 0o100644 }), w)
  | .chdir name => some (true, { w with cwd := if name = str "dev" then w.dev else 0 })
  | .fchdir _ => some (true, { w with cwd := 500 })
  | .getcwd => some (some (str "/"), w)
  | .setfsuid uid => some (uid, w)
  | .setfsgid gid => some (gid, w)
  | .initgroups _ _ | .setgroups _ | .mknod _ _ _ _ | .symlink _ _ => some (true, w)
  | .mount _ _ type _ _ => some (.ok, if type.isSome then { w with dev := 0 } else w)
  | .mkdir _ _ => some (.ok, w)
  | .umask _ => some (0o22, w)
  | .openFile _ => some (some 3, w)
  | .fdopen _ | .fclose _ => some (true, w)
  | .getmntents _ => some ([], w)
  | .helper _ => some (some 0, w)
  | .enter _ => some ((), w)
  | _ => none

/-- The two items are requested and allowed, and neither is treated as other items are. -/
theorem unconditional_not_repeated : ∃ tr b,
    Runs (setupMountpoints sampleCaller (requesting sampleSettings (str "/dev,/dev/shm")) 9) tr
      (.returned b) ∧
    mounted tr = [str "/dev", str "/dev/shm"] ∧ copied tr = [] ∧
    str "/dev" ∈ sampleSettings.allowedMountpoints.items ∧
    str "/dev/shm" ∈ sampleSettings.allowedDevices.items := by
  generalize hp : setupMountpoints sampleCaller
    (requesting sampleSettings (str "/dev,/dev/shm")) 9 = p
  have hret : (p.drive sampleAnswer {}).2 = .returned false := by
    rw [← hp]
    decide
  refine ⟨(p.drive sampleAnswer {}).1, false, Prog.runs_of_drive hret, ?_, ?_, ?_, ?_⟩
  · rw [← hp]
    decide
  · rw [← hp]
    decide
  · decide
  · decide

end HasherPriv.Chroot.Mountpoints
