/- GID: HasherPriv/Chroot/Prefix
   layer: chroot
   source: chdiruid.c, caller_config.c
   digest: The chroot prefix check is containment of path components. -/

import HasherPriv.Chroot.Chdiruid

set_option autoImplicit false
set_option relaxedAutoImplicit false

namespace HasherPriv.Chroot.Prefix

open Foundations.ByteString
open Foundations.Program
open Config.CallerData
open Config.ListOptions
open Syscall
open Chdiruid

/-! Accepted prefix lists. -/

private theorem parsePrefix_ok {home filename name value pre : Bytes}
    (h : parsePrefix home filename name value = .ok pre) :
    pre = (if value ≠ str "~" then value else home).rdropWhile (· = slash) ∧
      (pre = [] ∨ pre.head? = some slash) := by
  unfold parsePrefix at h
  dsimp only at h
  split_ifs at h with h₁ h₂ h₂
  · obtain rfl := Except.ok.inj h
    exact ⟨by rw [if_pos h₁], h₂⟩
  · obtain rfl := Except.ok.inj h
    exact ⟨by rw [if_neg h₁], h₂⟩

private theorem mapM_ok {α β : Type} {f : α → Except String β} {g : α → β} {P : β → Prop}
    (hf : ∀ {a b}, f a = .ok b → b = g a ∧ P b) {xs : List α} {ys : List β}
    (h : xs.mapM f = .ok ys) : ys = xs.map g ∧ ∀ y ∈ ys, P y := by
  induction xs generalizing ys with
  | nil =>
      obtain rfl := Except.ok.inj h
      simp
  | cons x xs ih =>
      rw [List.mapM_cons] at h
      cases hx : f x with
      | error e =>
          rw [hx] at h
          cases h
      | ok y =>
          rw [hx] at h
          cases hxs : xs.mapM f with
          | error e =>
              simp only [hxs] at h
              cases h
          | ok zs =>
              simp only [hxs] at h
              obtain rfl := Except.ok.inj h
              obtain ⟨rfl, hy⟩ := hf hx
              obtain ⟨rfl, hzs⟩ := ih hxs
              refine ⟨rfl, ?_⟩
              intro z hz
              rcases List.mem_cons.mp hz with rfl | hz
              · exact hy
              · exact hzs z hz

/-- An accepted option becomes the list of its elements, each of them empty or absolute. -/
theorem parsePrefixList_ok {home filename name value : Bytes} {list : PrefixList}
    (h : parsePrefixList home filename name value = .ok list) :
    list.list = (if (prefixElements home value).isEmpty then none
      else some (prefixElements home value)) ∧
      list.path = value ∧
      ∀ e ∈ prefixElements home value, e = [] ∨ e.head? = some slash := by
  unfold parsePrefixList at h
  rw [strtokLoop_eq_tokens _ (Nat.lt_succ_self _)] at h
  cases hl : (tokens (· = 58) value).mapM (parsePrefix home filename name) with
  | error e =>
      simp only [hl] at h
      cases h
  | ok paths =>
      simp only [hl] at h
      obtain rfl := Except.ok.inj h
      obtain ⟨rfl, hall⟩ := mapM_ok parsePrefix_ok hl
      exact ⟨rfl, rfl, hall⟩

/-! Component-wise containment. -/

/-- What may follow a prefix: nothing, or a slash. -/
def Boundary (rest : Bytes) : Prop := rest = [] ∨ rest.head? = some slash

private theorem next_byte (pre rest : Bytes) :
    (pre ++ rest ++ [0]).getD pre.length 0 = rest.headD 0 := by
  rw [List.append_assoc, List.getD_eq_getElem?_getD, List.getElem?_append_right (le_refl _)]
  cases rest <;> simp

/-- `is_prefix` holds exactly if the sample continues the prefix at a boundary. -/
theorem isPrefix_iff {pre sample : Bytes} (hnul : 0 ∉ sample) :
    isPrefix pre sample ↔ ∃ rest, sample = pre ++ rest ∧ Boundary rest := by
  unfold isPrefix strncmpEq Boundary
  simp only [List.take_length, Bool.and_eq_true, Bool.or_eq_true, decide_eq_true_eq]
  constructor
  · rintro ⟨htake, hnext⟩
    have hsplit : sample = pre ++ sample.drop pre.length := by
      conv_lhs => rw [← List.take_append_drop pre.length sample, htake]
    refine ⟨_, hsplit, ?_⟩
    rcases hrest : sample.drop pre.length with _ | ⟨c, rest⟩
    · exact .inl rfl
    · right
      rw [hsplit, hrest, next_byte, List.headD_cons] at hnext
      rcases hnext with rfl | rfl
      · refine (hnul ?_).elim
        rw [hsplit, hrest]
        simp
      · rfl
  · rintro ⟨rest, rfl, hrest⟩
    refine ⟨by simp, ?_⟩
    rw [next_byte]
    rcases hrest with rfl | hrest
    · simp
    · cases rest with
      | nil => cases hrest
      | cons c rest =>
          obtain rfl := Option.some.inj hrest
          simp

private theorem joined_append (xs ys : List Bytes) : joined (xs ++ ys) = joined xs ++ joined ys :=
  List.flatMap_append

private theorem boundary_joined (cs : List Bytes) : Boundary (joined cs) := by
  cases cs with
  | nil => exact .inl rfl
  | cons c cs => exact .inr (by simp)

/-- A path continued at a boundary is made of leading components. -/
private theorem eq_joined_take {cs : List Component} {pre rest : Bytes}
    (h : joined (cs.map Component.bytes) = pre ++ rest) (hrest : Boundary rest) :
    ∃ k, pre = joined ((cs.map Component.bytes).take k) := by
  induction cs generalizing pre with
  | nil =>
      refine ⟨0, ?_⟩
      exact (List.append_eq_nil_iff.mp h.symm).1
  | cons c cs ih =>
      rw [List.map_cons, joined_cons] at h
      cases pre with
      | nil => exact ⟨0, rfl⟩
      | cons p pre =>
          obtain ⟨rfl, htail⟩ := List.cons.inj h
          rcases List.append_eq_append_iff.mp htail with ⟨more, rfl, hmore⟩ | ⟨more, hc, rfl⟩
          · obtain ⟨k, rfl⟩ := ih hmore
            exact ⟨k + 1, by simp⟩
          · -- The boundary cannot lie inside a component.
            cases more with
            | nil =>
                rw [List.append_nil] at hc
                exact ⟨1, by simp [hc]⟩
            | cons d more =>
                rcases hrest with hnil | hhead
                · cases hnil
                · obtain rfl := Option.some.inj hhead
                  exact (c.slashFree (by simp [hc])).elim

/-- The components of the element lead those of the working directory. -/
def Contains (e : Bytes) (cs : List Component) : Prop :=
  components e <+: cs.map Component.bytes

/-- The element has no empty component behind its leading slash. -/
def ProperInside (e : Bytes) : Prop := e = [] ∨ [] ∉ (e.drop 1).splitOnP (· = slash)

instance (e : Bytes) (cs : List Component) : Decidable (Contains e cs) :=
  inferInstanceAs (Decidable (_ <+: _))
instance (e : Bytes) : Decidable (ProperInside e) := inferInstanceAs (Decidable (_ ∨ _))

private theorem nulFree_absolute (cs : List Component) : 0 ∉ absolute cs := by
  unfold absolute joined
  split_ifs
  · decide
  · simp only [List.mem_flatMap, List.mem_map, List.mem_cons, not_exists, not_and, not_or]
    rintro _ ⟨c, -, rfl⟩
    exact ⟨by decide, c.nulFree⟩

private theorem components_take (cs : List Component) (k : ℕ) :
    components (joined ((cs.map Component.bytes).take k)) = (cs.map Component.bytes).take k := by
  refine components_joined fun b hb => ?_
  obtain ⟨c, -, rfl⟩ := List.mem_map.mp (List.mem_of_mem_take hb)
  exact ⟨c.ne_nil, c.slashFree⟩

/-- An element that passes leads the working directory component by component. -/
theorem contains_of_isPrefix {e : Bytes} {cs : List Component}
    (hlast : ∀ h : e ≠ [], e.getLast h ≠ slash) (h : isPrefix e (absolute cs)) :
    Contains e cs := by
  obtain ⟨rest, hsplit, hrest⟩ := (isPrefix_iff (nulFree_absolute cs)).mp h
  unfold absolute at hsplit
  split_ifs at hsplit with hempty
  · -- In the root directory only the stripped `/` fits.
    have hnil : e = [] := by
      rcases List.append_eq_singleton_iff.mp hsplit.symm with ⟨he, -⟩ | ⟨rfl, -⟩
      · exact he
      · exact (hlast (by simp) rfl).elim
    rw [hnil]
    exact List.nil_prefix
  · obtain ⟨k, rfl⟩ := eq_joined_take hsplit hrest
    unfold Contains
    rw [components_take]
    exact List.take_prefix k _

/-- An element without empty inner components passes wherever it leads. -/
theorem isPrefix_of_contains {e : Bytes} {cs : List Component}
    (hroot : e = [] ∨ e.head? = some slash) (hproper : ProperInside e) (h : Contains e cs) :
    isPrefix e (absolute cs) := by
  rw [isPrefix_iff (nulFree_absolute cs)]
  have hjoined : e = joined (components e) := by
    rcases hroot with rfl | hroot
    · rfl
    · cases e with
      | nil => rfl
      | cons c e =>
          obtain rfl := Option.some.inj hroot
          rcases hproper with hnil | hproper
          · cases hnil
          · exact (joined_components hproper).symm
  obtain ⟨more, hmore⟩ := h
  unfold absolute
  split_ifs with hempty
  · have hnil : components e = [] := by
      rw [List.isEmpty_iff.mp hempty] at hmore
      exact (List.append_eq_nil_iff.mp hmore).1
    rw [hnil] at hjoined
    exact ⟨[slash], by simp [hjoined], .inr rfl⟩
  · refine ⟨joined more, ?_, boundary_joined more⟩
    rw [← hmore, joined_append, ← hjoined]

/-! The check. -/

/-- `check_cwd` returns in this directory. -/
def Passes (s : Settings) (cs : List Component) : Prop :=
  Runs (checkCwd s) [⟨.getcwd, some (absolute cs)⟩] (.returned ())

theorem passes_iff {s : Settings} {cs : List Component} :
    Passes s cs ↔ prefixMismatch s.prefixes.list (absolute cs) = false := by
  unfold Passes checkCwd
  rw [bind_eq_bind, returns_op_bind]
  constructor
  · rintro ⟨r, rest, he, h⟩
    obtain ⟨heq, rfl⟩ := List.cons.inj he
    obtain rfl : some (absolute cs) = r := by simpa using heq
    change Runs (ite _ _ _) _ _ at h
    split_ifs at h with hm
    · cases h
    · simpa using hm
  · intro h
    refine ⟨some (absolute cs), [], rfl, ?_⟩
    change Runs (ite _ _ _) _ _
    rw [h, if_neg (by decide)]
    exact .ret ()

private theorem getLast_rdropWhile (b : Bytes) (h : b.rdropWhile (· = slash) ≠ []) :
    (b.rdropWhile (· = slash)).getLast h ≠ slash := by
  simpa using List.rdropWhile_last_not (· = slash) b h

private theorem passes_iff_any {home filename name value : Bytes} {s : Settings}
    (h : parsePrefixList home filename name value = .ok s.prefixes)
    (hne : prefixElements home value ≠ []) {cs : List Component} :
    Passes s cs ↔ ∃ e ∈ prefixElements home value, isPrefix e (absolute cs) := by
  rw [passes_iff, (parsePrefixList_ok h).1, if_neg (by simpa using hne)]
  simp [prefixMismatch]

/-- The component of a path name in an example. -/
def home : Component := ⟨str "home", by decide, by decide, by decide⟩
def user : Component := ⟨str "u", by decide, by decide, by decide⟩
def user2 : Component := ⟨str "u2", by decide, by decide, by decide⟩

/-- The chroot prefix check is component-wise containment: it passes only below some element
of the prefix option, and below every element without empty inner components. -/
theorem check_cwd_componentwise {callerHome filename name value : Bytes} {s : Settings}
    (h : parsePrefixList callerHome filename name value = .ok s.prefixes)
    (hne : prefixElements callerHome value ≠ []) (cs : List Component) :
    (Passes s cs → ∃ e ∈ prefixElements callerHome value, Contains e cs) ∧
    ((∃ e ∈ prefixElements callerHome value, Contains e cs ∧ ProperInside e) → Passes s cs) ∧
    (value = str "/home/u" → ¬ Passes s [home, user2]) ∧
    (value = str "/" ∨ value = str "~" ∧ callerHome = str "/" → Passes s cs) := by
  have hroot := (parsePrefixList_ok h).2.2
  have honly {cs : List Component} (hp : Passes s cs) :
      ∃ e ∈ prefixElements callerHome value, Contains e cs := by
    obtain ⟨e, he, hpre⟩ := (passes_iff_any h hne).mp hp
    refine ⟨e, he, contains_of_isPrefix (fun hnil => ?_) hpre⟩
    obtain ⟨t, -, rfl⟩ := List.mem_map.mp he
    exact getLast_rdropWhile _ hnil
  have hwhenever (hex : ∃ e ∈ prefixElements callerHome value, Contains e cs ∧ ProperInside e) :
      Passes s cs := by
    obtain ⟨e, he, hc, hproper⟩ := hex
    exact (passes_iff_any h hne).mpr ⟨e, he, isPrefix_of_contains (hroot e he) hproper hc⟩
  refine ⟨honly, hwhenever, ?_, ?_⟩
  · rintro rfl hp
    obtain ⟨e, he, hc⟩ := honly hp
    have helem : prefixElements callerHome (str "/home/u") = [str "/home/u"] := rfl
    obtain rfl := List.mem_singleton.mp (helem ▸ he)
    exact absurd hc (by decide)
  · intro hvalue
    refine hwhenever ⟨[], ?_, List.nil_prefix, .inl rfl⟩
    rcases hvalue with rfl | ⟨rfl, rfl⟩
    · exact List.mem_singleton.mpr rfl
    · exact List.mem_singleton.mpr rfl

/-- The prefixes `/home/u` and `~`, the home being `/srv//x/`. -/
theorem check_cwd_componentwise_sample :
    Passes { prefixes := ⟨some [str "/home/u", str "/srv//x"], str "/home/u/:~"⟩ } [home, user] ∧
      ¬ Passes { prefixes := ⟨some [str "/home/u", str "/srv//x"], str "/home/u/:~"⟩ }
        [home, user2] := by
  have hparse : parsePrefixList (str "/srv//x/") [] [] (str "/home/u/:~") =
      .ok ⟨some [str "/home/u", str "/srv//x"], str "/home/u/:~"⟩ := rfl
  refine ⟨(check_cwd_componentwise (s := { prefixes := _ }) hparse (by decide) _).2.1 ?_, ?_⟩
  · exact ⟨str "/home/u", by decide, by decide, .inr (by decide)⟩
  · intro hp
    have hex := (check_cwd_componentwise (s := { prefixes := _ }) hparse (by decide) _).1 hp
    exact absurd hex (by decide)

end HasherPriv.Chroot.Prefix
