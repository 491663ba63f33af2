/- GID: HasherPriv/Config/ListOptions
   layer: configuration
   source: caller_config.c, xmalloc.c
   digest: Options whose value is a list: the allowed and requested items, the chroot prefixes. -/

import HasherPriv.Foundations.ByteString
import Mathlib.Data.List.DropRight

set_option autoImplicit false
set_option relaxedAutoImplicit false

namespace HasherPriv.Config.ListOptions

open Foundations.ByteString

/-! `str_list_t`. -/

/-- `str_list_t`: the slots are the allocated array, the first `len` of them are in use. -/
structure StrList where
  slots : List (Option Bytes) := []
  len : ℕ := 0
  deriving DecidableEq

/-- The number of members after `xgrowarray`, for members of eight bytes: an array that was
never allocated gets room for 16, any other grows by half and one. -/
def growCount (nmemb : ℕ) : ℕ := if nmemb = 0 then 16 else nmemb + (nmemb / 2 + 1)

/-- Store one more item, growing the array when it is full. -/
def StrList.store (s : StrList) (item : Bytes) : StrList where
  slots :=
    let slots :=
      if s.len < s.slots.length then s.slots
      else s.slots ++ List.replicate (growCount s.slots.length - s.slots.length) none
    slots.set s.len (some item)
  len := s.len + 1

/-- The pass that clears each entry followed by an equal one. -/
def clearDuplicates : List Bytes → List (Option Bytes)
  | [] => []
  | [a] => [some a]
  | a :: b :: rest => (if a = b then none else some a) :: clearDuplicates (b :: rest)

/-- The delimiters of list items. -/
def isItemDelim (c : UInt8) : Bool := c = 32 ∨ c = 9 ∨ c = 44

/-- `parse_str_list`. -/
def parseStrList (value : Bytes) (s : StrList) : StrList :=
  let cleared : StrList := ⟨List.replicate s.len none ++ s.slots.drop s.len, 0⟩
  let items := strtokLoop isItemDelim (value.length + 1) value
  let stored := items.foldl StrList.store cleared
  let used := clearDuplicates (((stored.slots.take stored.len).filterMap id).insertionSort strLe)
  ⟨used ++ stored.slots.drop stored.len, stored.len⟩

/-- The entries still in place, in order. -/
def StrList.items (s : StrList) : List Bytes := (s.slots.take s.len).filterMap id

/-- `is_allowed`. -/
def isAllowed (item : Bytes) (allowed : StrList) : Bool :=
  (allowed.slots.take allowed.len).any fun e => e = some item

theorem isAllowed_iff {item : Bytes} {allowed : StrList} :
    isAllowed item allowed ↔ item ∈ allowed.items := by
  simp [isAllowed, StrList.items]

/-- The used part of the array is exactly what was stored. -/
structure StrList.Holds (s : StrList) (items : List Bytes) : Prop where
  len : s.len = items.length
  used : s.slots.take s.len = items.map some

theorem StrList.Holds.store {s : StrList} {items : List Bytes} (h : s.Holds items)
    (item : Bytes) : (s.store item).Holds (items ++ [item]) := by
  obtain ⟨hlen, hused⟩ := h
  have hle : s.len ≤ s.slots.length := by
    have := congrArg List.length hused
    simp only [List.length_take, List.length_map] at this
    omega
  refine ⟨by simp [StrList.store, hlen], ?_⟩
  have hgrow : s.len < s.slots.length ∨ s.slots.length < growCount s.slots.length := by
    right
    unfold growCount
    split_ifs <;> omega
  simp only [StrList.store, List.map_append, List.map_cons, List.map_nil]
  generalize hslots : (if s.len < s.slots.length then s.slots
    else s.slots ++ List.replicate (growCount s.slots.length - s.slots.length) none) = slots
  have htake : slots.take s.len = items.map some := by
    rw [← hslots, ← hused]
    split_ifs
    · rfl
    · rw [List.take_append_of_le_length hle]
  have hlt : s.len < slots.length := by
    rw [← hslots]
    split_ifs with hc
    · exact hc
    · rw [List.length_append, List.length_replicate]
      omega
  rw [List.take_add_one, List.take_set_of_le (le_refl _), htake]
  simp [hlt]

private theorem holds_foldl {s : StrList} {old : List Bytes} (h : s.Holds old)
    (items : List Bytes) : (items.foldl StrList.store s).Holds (old ++ items) := by
  induction items generalizing s old with
  | nil => simpa using h
  | cons a items ih => simpa using ih (h.store a)

private theorem clearDuplicates_length (xs : List Bytes) :
    (clearDuplicates xs).length = xs.length := by
  induction xs using clearDuplicates.induct with
  | case1 => rfl
  | case2 a => rfl
  | case3 a b rest ih => simp [clearDuplicates, ih]

/-- The part of the array that is in use. -/
def StrList.inUse (s : StrList) : StrList := ⟨s.slots.take s.len, s.len⟩

theorem isAllowed_inUse (item : Bytes) (allowed : StrList) :
    isAllowed item allowed.inUse = isAllowed item allowed := by
  rw [isAllowed, isAllowed, StrList.inUse, List.take_take, min_self]

/-- What was in the array before leaves no trace in the part that is in use. -/
theorem inUse_parseStrList (value : Bytes) (s : StrList) :
    (parseStrList value s).inUse =
      ⟨clearDuplicates ((tokens isItemDelim value).insertionSort strLe),
        (tokens isItemDelim value).length⟩ := by
  have hcleared : StrList.Holds
      ⟨List.replicate s.len none ++ s.slots.drop s.len, 0⟩ [] := ⟨rfl, rfl⟩
  have hstored := holds_foldl hcleared (tokens isItemDelim value)
  unfold parseStrList StrList.inUse
  rw [strtokLoop_eq_tokens _ (Nat.lt_succ_self _)]
  dsimp only
  rw [hstored.used, hstored.len, List.nil_append, List.filterMap_map]
  change StrList.mk (List.take _ (clearDuplicates (List.insertionSort strLe
    ((tokens isItemDelim value).filterMap some)) ++ _)) _ = _
  rw [List.filterMap_some, List.take_left']
  rw [clearDuplicates_length, List.length_insertionSort]

theorem items_parseStrList (value : Bytes) (s : StrList) :
    (parseStrList value s).items =
      (clearDuplicates ((tokens isItemDelim value).insertionSort strLe)).filterMap id := by
  have hslots := congrArg StrList.slots (inUse_parseStrList value s)
  rw [StrList.items]
  exact congrArg (List.filterMap id) hslots

private theorem mem_clearDuplicates {a : Bytes} (xs : List Bytes) :
    some a ∈ clearDuplicates xs ↔ a ∈ xs := by
  induction xs using clearDuplicates.induct with
  | case1 => simp [clearDuplicates]
  | case2 b => simp [clearDuplicates]
  | case3 b c rest ih =>
      rw [clearDuplicates, List.mem_cons, ih]
      split_ifs with h
      · subst h
        simp
      · simp

/-- The entries are the distinct items of the value. -/
theorem mem_items_parseStrList {value a : Bytes} {s : StrList} :
    a ∈ (parseStrList value s).items ↔ a ∈ tokens isItemDelim value := by
  rw [items_parseStrList]
  simp [mem_clearDuplicates]

private theorem sorted_clearDuplicates {xs : List Bytes} (h : xs.Pairwise strLe) :
    ((clearDuplicates xs).filterMap id).Pairwise strLt := by
  induction xs using clearDuplicates.induct with
  | case1 => simp [clearDuplicates]
  | case2 a => simp [clearDuplicates]
  | case3 a b rest ih =>
      obtain ⟨hab, hrest⟩ := List.pairwise_cons.mp h
      rw [clearDuplicates]
      split_ifs with heq
      · exact ih hrest
      · refine List.pairwise_cons.mpr ⟨fun c hc => ?_, ih hrest⟩
        obtain ⟨e, he, rfl⟩ := List.mem_filterMap.mp hc
        have hmem := (mem_clearDuplicates _).mp he
        refine strLt_of_strLe_of_ne (hab c hmem) fun hac => ?_
        -- An equal entry further on would have to equal its neighbour as well.
        subst hac
        rcases List.mem_cons.mp hmem with hb | hb
        · exact heq hb
        · have hba := (List.pairwise_cons.mp hrest).1 a hb
          exact heq (strLe_antisymm (hab b (by simp)) hba)

/-- The entries are in strictly increasing order. -/
theorem sorted_items_parseStrList (value : Bytes) (s : StrList) :
    (parseStrList value s).items.Pairwise strLt := by
  rw [items_parseStrList]
  exact sorted_clearDuplicates (List.pairwise_insertionSort strLe _)

/-! Chroot prefixes. -/

/-- `parse_prefix`: `~` stands for the caller's home, trailing slashes are stripped. -/
def parsePrefix (callerHome filename name value : Bytes) : Except String Bytes :=
  let stripped := (if value ≠ str "~" then value else callerHome).rdropWhile (· = slash)
  if stripped = [] ∨ stripped.head? = some slash then .ok stripped
  else
    let file := text filename
    let val := text value
    let opt := text name
    .error s!"{file}: invalid value \"{val}\" for \"{opt}\" option"

/-- `chroot_prefix_list` (`none` is the null pointer) and `chroot_prefix_path`. -/
structure PrefixList where
  list : Option (List Bytes)
  path : Bytes
  deriving DecidableEq

/-- `parse_prefix_list`. -/
def parsePrefixList (callerHome filename name value : Bytes) : Except String PrefixList := do
  let paths := strtokLoop (· = 58) (value.length + 1) value
  let list ← paths.mapM (parsePrefix callerHome filename name)
  return ⟨if list.isEmpty then none else some list, value⟩

/-- The elements of a prefix option, as the list holds them. -/
def prefixElements (callerHome value : Bytes) : List Bytes :=
  (tokens (· = 58) value).map fun t =>
    (if t ≠ str "~" then t else callerHome).rdropWhile (· = slash)

end HasherPriv.Config.ListOptions
