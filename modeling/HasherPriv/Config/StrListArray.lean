/- GID: HasherPriv/Config/StrListArray
   layer: configuration
   source: caller_config.c, mount.c, xmalloc.c
   digest: A list option in memory: the array that is reused, and the sorted set that it holds. -/

import HasherPriv.Config.ListOptions
import HasherPriv.Config.Xmalloc
import HasherPriv.Foundations.Answers
import HasherPriv.Foundations.Contracts
import HasherPriv.Foundations.Memory

set_option autoImplicit false
set_option relaxedAutoImplicit false

namespace HasherPriv.Config.StrListArray

open Foundations.ByteString
open Foundations.Program
open Foundations.Answers
open Foundations.Contracts
open Foundations.Memory
open ListOptions
open Xmalloc

/-- A pointer into a buffer of tokens, and the string that is there. -/
structure Token where
  buf : ℕ
  text : Bytes
  deriving DecidableEq

/-- `str_list_t`; `none` is a null pointer. -/
structure StrListT where
  list : Option (List (Option Token)) := none
  allocated : UInt64 := 0
  len : ℕ := 0
  buf : Option ℕ := none

inductive ListCall
  /-- The answer is a name for the new buffer. -/
  | strdup (value : Bytes)
  | realloc (list : Option (List (Option Token))) (bytes : UInt64)
  | qsort (items : List Token)
  /-- An access outside the array, through a null pointer or to a buffer that was freed. -/
  | fault
  deriving DecidableEq

@[reducible] def ListRes : ListCall → Type
  | .strdup _ => Option ℕ
  | .realloc _ _ => Option (List (Option Token))
  | .qsort _ => List Token
  | .fault => Unit

abbrev ListProg := Prog ListCall ListRes

abbrev listCall (o : ListCall) : ListProg (ListRes o) := .op o

/-- The answers of the C library. A pointer has eight bytes; what `realloc` adds is arbitrary. -/
def ListSem : (o : ListCall) → Unit → ListRes o → Unit → Prop
  | .strdup _, _, _, _ => True
  | .realloc list bytes, _, r, _ =>
      ∀ new ∈ r, Reallocated (list.getD []) (bytes.toNat / 8) new
  | .qsort items, _, r, _ => r.Perm items ∧ r.Pairwise fun a b => strLe a.text b.text
  | .fault, _, _, _ => True

/-- No call is a fault. -/
def NoFault (o : ListCall) (_ : Unit) (_ : ListRes o) (_ : Unit) : Prop := o ≠ .fault

def access {α : Type} (a : Option α) : ListProg α :=
  match a with
  | some a => .ret a
  | none => do
      listCall .fault
      .die "fault"

/-- The string that a pointer points to, while its buffer is there. -/
def deref (s : StrListT) (t : Option Token) : Option Bytes :=
  t.bind fun t => if s.buf = some t.buf then some t.text else none

/-! `parse_str_list`. -/

/-- The start: clear what was in use, replace the buffer. -/
def startList (value : Bytes) (s : StrListT) : ListProg (StrListT × ℕ) := do
  let list ← access (if s.len ≠ 0 then
      (s.list.bind fun l => store l 0 (List.replicate s.len none)).map some
    else some s.list)
  match ← listCall (.strdup value) with
  | some buf => return ({ s with list, len := 0, buf := some buf }, buf)
  | none => .die "Out of memory"

/-- Make room for one more item. -/
def growList (s : StrListT) : ListProg StrListT :=
  if s.allocated.toNat ≤ s.len then do
    let (list, allocated) ← xgrowarray (fun l n => listCall (.realloc l n)) s.list s.allocated 8
    return { s with list := some list, allocated }
  else .ret s

/-- `s->list[s->len++] = item`. -/
def putItem (item : Token) (s : StrListT) : ListProg StrListT := do
  let list ← access (s.list.bind fun l => store l s.len [some item])
  return { s with list := some list, len := s.len + 1 }

/-- The loop over the tokens. -/
def storeItems : List Token → StrListT → ListProg StrListT
  | [], s => .ret s
  | item :: items, s => do
      let s ← growList s
      let s ← putItem item s
      storeItems items s

/-- `qsort` of the part in use. -/
def sortList (s : StrListT) : ListProg StrListT :=
  if s.len ≠ 0 then do
    let items ← access (s.list.bind fun l => (slice l 0 s.len).bind fun l => l.mapM id)
    let sorted ← listCall (.qsort items)
    let list ← access (s.list.bind fun l => store l 0 (sorted.map some))
    return { s with list := some list }
  else .ret s

/-- One turn of the loop that clears duplicates. -/
def clearStep (i : ℕ) (s : StrListT) : ListProg StrListT := do
  let a ← access (s.list.bind fun l => l[i - 1]?.bind (deref s))
  let b ← access (s.list.bind fun l => l[i]?.bind (deref s))
  if a = b then do
    let list ← access (s.list.bind fun l => store l (i - 1) [none])
    return { s with list := some list }
  else return s

/-- The turns for `i` and the indices behind it. -/
def clearLoop : ℕ → ℕ → StrListT → ListProg StrListT
  | 0, _, s => .ret s
  | left + 1, i, s => do
      let s ← clearStep i s
      clearLoop left (i + 1) s

/-- `parse_str_list`. -/
def parseStrListIn (value : Bytes) (s : StrListT) : ListProg StrListT := do
  let (s, buf) ← startList value s
  let s ← storeItems ((strtokLoop isItemDelim (value.length + 1) value).map (Token.mk buf)) s
  let s ← sortList s
  clearLoop (s.len - 1) 1 s

/-- Calls of `parse_str_list`, one after the other. -/
def parseEach : List Bytes → StrListT → ListProg StrListT
  | [], s => .ret s
  | value :: values, s => do
      let s ← parseStrListIn value s
      parseEach values s

/-- The loop of `is_allowed`. -/
def allowedLoop (item : Bytes) (s : StrListT) : ℕ → ℕ → ListProg Bool
  | 0, _ => .ret false
  | left + 1, i => do
      let entry ← access (s.list.bind fun l => l[i]?)
      match entry with
      | none => allowedLoop item s left (i + 1)
      | some t => do
          let text ← access (deref s (some t))
          if item = text then return true else allowedLoop item s left (i + 1)

/-- `is_allowed`. -/
def isAllowedIn (item : Bytes) (s : StrListT) : ListProg Bool := allowedLoop item s s.len 0

/-! What each part does to the array. -/

/-- The array has as many members as were allocated, and those in use are among them. -/
structure Valid (s : StrListT) : Prop where
  null : s.list = none → s.allocated = 0
  size : ∀ l ∈ s.list, l.length = s.allocated.toNat
  fits : s.len ≤ s.allocated.toNat

/-- These entries are in use. -/
structure Stored (s : StrListT) (buf : ℕ) (entries : List (Option Token)) : Prop extends
    Valid s where
  buf : s.buf = some buf
  len : s.len = entries.length
  used : ∃ back, s.list.getD [] = entries ++ back

section Parts

variable {s : StrListT} {buf : ℕ} {entries : List (Option Token)}

theorem valid_empty : Valid {} := ⟨fun _ => rfl, nofun, Nat.le_refl 0⟩

theorem Stored.array (h : Stored s buf entries) (hroom : 0 < s.allocated.toNat) :
    ∃ back, s.list = some (entries ++ back) ∧
      (entries ++ back).length = s.allocated.toNat := by
  obtain ⟨⟨hnull, hsize, -⟩, -, -, back, hback⟩ := h
  cases hlist : s.list with
  | none =>
      rw [hnull hlist] at hroom
      exact (Nat.lt_irrefl 0 hroom).elim
  | some l =>
      rw [hlist] at hback
      obtain rfl : l = entries ++ back := hback
      exact ⟨back, rfl, hsize _ hlist⟩

/-- Another content of the same array. -/
theorem Stored.update {entries' back' : List (Option Token)} {l : List (Option Token)}
    (h : Stored s buf entries) (hlist : s.list = some l)
    (hlength : (entries' ++ back').length = l.length) {len : ℕ} (hlen : len = entries'.length) :
    Stored { s with list := some (entries' ++ back'), len } buf entries' := by
  have hsize := h.size l hlist
  refine ⟨⟨nofun, ?_, ?_⟩, h.buf, hlen, back', rfl⟩
  · intro l' hl'
    obtain rfl := Option.some.inj hl'
    rw [hlength, hsize]
  · change len ≤ s.allocated.toNat
    rw [List.length_append] at hlength
    omega

theorem ensures_access {α β : Type} {a : Option α} {x : α} {f : α → ListProg β}
    {post : β → Unit → Prop} (ha : a = some x) (hf : Ensures ListSem NoFault (f x) post ()) :
    Ensures ListSem NoFault ((access a).bind f) post () := by
  subst ha
  exact hf

theorem startList_ensures (value : Bytes) (h : Valid s) :
    Ensures ListSem NoFault (startList value s) (fun r _ => Stored r.1 r.2 []) () := by
  have hcleared : ∃ list, (if s.len ≠ 0 then
      (s.list.bind fun l => store l 0 (List.replicate s.len none)).map some
      else some s.list) = some list ∧ (list = none → s.allocated = 0) ∧
        ∀ l ∈ list, l.length = s.allocated.toNat := by
    by_cases hlen : s.len = 0
    · rw [if_neg (not_not.mpr hlen)]
      exact ⟨s.list, rfl, h.null, h.size⟩
    · rw [if_pos hlen]
      have hfits := h.fits
      cases hlist : s.list with
      | none =>
          have hnone : s.allocated.toNat = 0 := by rw [h.null hlist]; rfl
          omega
      | some l =>
          have hsize := h.size l hlist
          have hroom : 0 + (List.replicate s.len (none : Option Token)).length ≤ l.length := by
            rw [List.length_replicate]
            omega
          have hstore := store_eq hroom
          rw [Option.bind_some, hstore]
          refine ⟨_, rfl, nofun, ?_⟩
          intro l' hl'
          obtain rfl := Option.some.inj hl'
          rw [store_length hstore, hsize]
  obtain ⟨list, hlist, hnull, hsize⟩ := hcleared
  refine ensures_access hlist ?_
  intro r _ _
  refine ⟨nofun, ?_⟩
  cases r with
  | none => trivial
  | some buf =>
      exact ⟨⟨hnull, hsize, Nat.zero_le _⟩, rfl, rfl, list.getD [], rfl⟩

theorem growList_ensures (h : Stored s buf entries) :
    Ensures ListSem NoFault (growList s)
      (fun s' _ => Stored s' buf entries ∧ s'.len < s'.allocated.toNat) () := by
  unfold growList
  split_ifs with hfull
  · have height : 1 ≤ (8 : UInt64).toNat ∧ (8 : UInt64).toNat ≤ 2 ^ 63 := by decide
    rcases xgrowarray_cases (fun l n => listCall (.realloc l n)) s.list s.allocated height.1
      height.2 with
      hdies | ⟨grown, bytes, ⟨hcount, hlarger, hexact⟩, hcall⟩
    · rw [hdies]
      trivial
    · rw [hcall]
      intro r _ hsem
      refine ⟨nofun, ?_⟩
      cases r with
      | none => trivial
      | some new =>
          have hbytes : bytes.toNat / 8 = grown.toNat := by
            rw [hexact]
            exact Nat.mul_div_cancel _ (Nat.succ_pos 7)
          have hnew := hsem new rfl
          rw [hbytes] at hnew
          have hroom : s.list.isSome ∨ s.allocated = 0 := by
            cases hlist : s.list with
            | none => exact Or.inr (h.null hlist)
            | some l => exact Or.inl rfl
          have hlt := hlarger hroom
          have hfits := h.fits
          have hold : (s.list.getD []).length ≤ grown.toNat := by
            cases hlist : s.list with
            | none => exact Nat.zero_le _
            | some l =>
                have hsize := h.size l hlist
                change l.length ≤ _
                omega
          obtain ⟨back, hback⟩ := h.used
          have htake := hnew.take_eq hold
          refine ⟨⟨⟨nofun, ?_, ?_⟩, h.buf, h.len, back ++ new.drop (s.list.getD []).length, ?_⟩, ?_⟩
          · intro l hl
            obtain rfl := Option.some.inj hl
            exact hnew.1
          · change s.len ≤ grown.toNat
            omega
          · calc new = new.take (s.list.getD []).length ++ new.drop (s.list.getD []).length :=
                  (List.take_append_drop _ _).symm
              _ = entries ++ (back ++ new.drop (s.list.getD []).length) := by
                  rw [htake, hback, List.append_assoc]
          · change s.len < grown.toNat
            omega
  · exact ⟨h, Nat.not_le.mp hfull⟩

theorem putItem_ensures (h : Stored s buf entries) (hroom : s.len < s.allocated.toNat)
    (item : Token) :
    Ensures ListSem NoFault (putItem item s)
      (fun s' _ => Stored s' buf (entries ++ [some item])) () := by
  obtain ⟨back, hlist, hlength⟩ := h.array (Nat.zero_lt_of_lt hroom)
  have hlen := h.len
  obtain ⟨old, back, rfl⟩ : ∃ old rest, back = old :: rest := by
    cases back with
    | nil =>
        rw [List.append_nil] at hlength
        omega
    | cons old rest => exact ⟨old, rest, rfl⟩
  have hstore : store (entries ++ old :: back) s.len [some item] =
      some (entries ++ [some item] ++ back) := by
    rw [hlen, List.append_cons]
    exact store_middle entries rfl
  have hput : (s.list.bind fun l => store l s.len [some item]) =
      some (entries ++ [some item] ++ back) := by
    rw [hlist]
    exact hstore
  refine ensures_access hput ?_
  refine h.update hlist (store_length hstore) ?_
  rw [List.length_append, hlen]
  rfl

theorem storeItems_ensures (items : List Token) (h : Stored s buf entries) :
    Ensures ListSem NoFault (storeItems items s)
      (fun s' _ => Stored s' buf (entries ++ items.map some)) () := by
  induction items generalizing s entries with
  | nil =>
      rw [List.map_nil, List.append_nil]
      exact h
  | cons item items ih =>
      refine (growList_ensures h).bind fun s₁ _ h₁ => ?_
      refine (putItem_ensures h₁.1 h₁.2 item).bind fun s₂ _ h₂ => ?_
      refine (ih h₂).mono fun s₃ _ h₃ => ?_
      rw [List.append_assoc] at h₃
      exact h₃

/-- The entries for these strings. -/
def pointers (buf : ℕ) (texts : List Bytes) : List (Option Token) :=
  texts.map fun text => some ⟨buf, text⟩

theorem sortList_ensures {texts : List Bytes} (h : Stored s buf (pointers buf texts)) :
    Ensures ListSem NoFault (sortList s)
      (fun s' _ => Stored s' buf (pointers buf (texts.insertionSort strLe))) () := by
  have hlength : (pointers buf texts).length = texts.length := List.length_map _
  unfold sortList
  split_ifs with hlen
  · have hfits := h.fits
    obtain ⟨back, hlist, -⟩ := h.array (by omega)
    have hread : (s.list.bind fun l => (slice l 0 s.len).bind fun l => l.mapM id) =
        some (texts.map (Token.mk buf)) := by
      have hslice : slice (pointers buf texts ++ back) 0 s.len = some (pointers buf texts) := by
        rw [slice_eq (by rw [h.len, List.length_append]; omega), List.drop_zero, h.len,
          List.take_left]
      rw [hlist, Option.bind_some, hslice, Option.bind_some]
      clear hslice hlist h hlength
      induction texts with
      | nil => rfl
      | cons text texts ih =>
          rw [pointers, List.map_cons, List.mapM_cons]
          change (pointers buf texts).mapM id >>= _ = _
          rw [ih]
          rfl
    refine ensures_access hread ?_
    intro sorted _ hsem
    refine ⟨nofun, ?_⟩
    obtain ⟨hperm, hsorted⟩ := hsem
    have htexts : sorted.map Token.text = texts.insertionSort strLe := by
      have hback : (texts.map (Token.mk buf)).map Token.text = texts := by
        rw [List.map_map]
        exact List.map_id texts
      have hmap := hperm.map Token.text
      rw [hback] at hmap
      refine (hmap.trans (List.perm_insertionSort strLe texts).symm).eq_of_pairwise ?_ ?_
        (List.pairwise_insertionSort strLe texts)
      · exact fun a b _ _ hab hba => strLe_antisymm hab hba
      · exact List.pairwise_map.mpr hsorted
    have hsame : sorted.map some = pointers buf (texts.insertionSort strLe) := by
      rw [← htexts, pointers, List.map_map]
      apply List.map_congr_left
      intro t ht
      obtain ⟨text, -, rfl⟩ := List.mem_map.mp (hperm.mem_iff.mp ht)
      rfl
    have hsize : (sorted.map some).length = (pointers buf texts).length := by
      rw [hsame, pointers, List.length_map, List.length_insertionSort, hlength]
    have hstore : store (pointers buf texts ++ back) 0 (sorted.map some) =
        some (sorted.map some ++ back) := store_middle [] hsize
    have hput : (s.list.bind fun l => store l 0 (sorted.map some)) =
        some (sorted.map some ++ back) := by
      rw [hlist]
      exact hstore
    refine ensures_access hput ?_
    rw [hsame] at hstore hsize ⊢
    exact h.update hlist (store_length hstore) (h.len.trans hsize.symm)
  · have hnil : texts = [] := by
      rw [not_not, h.len, hlength] at hlen
      exact List.length_eq_zero_iff.mp hlen
    subst hnil
    exact h

theorem deref_pointer (h : s.buf = some buf) (text : Bytes) :
    deref s (some ⟨buf, text⟩) = some text := by
  rw [deref, Option.bind_some, if_pos h]

theorem clearStep_ensures {done : List (Option Token)} {a b : Bytes} {rest : List Bytes}
    (h : Stored s buf (done ++ pointers buf (a :: b :: rest))) :
    Ensures ListSem NoFault (clearStep (done.length + 1) s)
      (fun s' _ => Stored s' buf (done ++ [if a = b then none else some ⟨buf, a⟩] ++
        pointers buf (b :: rest))) () := by
  have hlen := h.len
  have hfits := h.fits
  obtain ⟨back, hlist, hlength⟩ := h.array (by
    rw [List.length_append, pointers, List.length_map, List.length_cons] at hlen
    omega)
  have hparts : done ++ pointers buf (a :: b :: rest) ++ back =
      done ++ some ⟨buf, a⟩ :: some ⟨buf, b⟩ :: (pointers buf rest ++ back) := by
    rw [List.append_assoc]
    rfl
  rw [hparts] at hlist
  have ha : (s.list.bind fun l => l[done.length + 1 - 1]?.bind (deref s)) = some a := by
    rw [hlist, Option.bind_some, Nat.add_sub_cancel, getElem?_middle, Option.bind_some,
      deref_pointer h.buf]
  have hb : (s.list.bind fun l => l[done.length + 1]?.bind (deref s)) = some b := by
    have hat := getElem?_middle (done ++ [some ⟨buf, a⟩]) (pointers buf rest ++ back)
      (some ⟨buf, b⟩ : Option Token)
    rw [List.length_append, List.length_singleton, List.append_assoc, List.singleton_append] at hat
    rw [hlist, Option.bind_some, hat, Option.bind_some, deref_pointer h.buf]
  refine ensures_access ha (ensures_access hb ?_)
  split_ifs with heq
  · have hstore : store (done ++ some ⟨buf, a⟩ :: some ⟨buf, b⟩ :: (pointers buf rest ++ back))
        (done.length + 1 - 1) [none] =
        some (done ++ [none] ++ some ⟨buf, b⟩ :: (pointers buf rest ++ back)) := by
      rw [Nat.add_sub_cancel, List.append_cons done]
      exact store_middle done rfl
    have hput : (s.list.bind fun l => store l (done.length + 1 - 1) [none]) =
        some (done ++ [none] ++ some ⟨buf, b⟩ :: (pointers buf rest ++ back)) := by
      rw [hlist]
      exact hstore
    refine ensures_access hput ?_
    have hsame : done ++ [none] ++ some ⟨buf, b⟩ :: (pointers buf rest ++ back) =
        done ++ [none] ++ pointers buf (b :: rest) ++ back := by
      rw [List.append_assoc (done ++ [none])]
      rfl
    rw [hsame] at hstore ⊢
    refine h.update hlist (store_length hstore) ?_
    rw [hlen, List.append_assoc done, List.length_append, List.length_append]
    rfl
  · rw [List.append_assoc done]
    exact h

theorem clearLoop_ensures {done : List (Option Token)} {a : Bytes} {texts : List Bytes}
    (h : Stored s buf (done ++ pointers buf (a :: texts))) :
    Ensures ListSem NoFault (clearLoop texts.length (done.length + 1) s)
      (fun s' _ => Stored s' buf
        (done ++ (clearDuplicates (a :: texts)).map (Option.map (Token.mk buf)))) () := by
  induction texts generalizing done a s with
  | nil => exact h
  | cons b texts ih =>
      refine (clearStep_ensures h).bind fun s₁ _ h₁ => ?_
      have hrest := ih h₁
      rw [List.length_append, List.length_singleton] at hrest
      refine hrest.mono fun s₂ _ h₂ => ?_
      rw [clearDuplicates, List.map_cons]
      rw [List.append_assoc, List.singleton_append] at h₂
      split_ifs at h₂ ⊢ with heq
      · exact h₂
      · exact h₂

/-- The entries that a value leaves. -/
def parsedEntries (buf : ℕ) (value : Bytes) : List (Option Token) :=
  (clearDuplicates ((tokens isItemDelim value).insertionSort strLe)).map
    (Option.map (Token.mk buf))

theorem parseStrListIn_ensures (value : Bytes) (h : Valid s) :
    Ensures ListSem NoFault (parseStrListIn value s)
      (fun s' _ => ∃ buf, Stored s' buf (parsedEntries buf value)) () := by
  refine (startList_ensures value h).bind fun r _ h₁ => ?_
  obtain ⟨s₁, buf⟩ := r
  rw [strtokLoop_eq_tokens _ (Nat.lt_succ_self _)]
  refine (storeItems_ensures _ h₁).bind fun s₂ _ h₂ => ?_
  rw [List.nil_append, List.map_map] at h₂
  refine (sortList_ensures h₂).bind fun s₃ _ h₃ => ?_
  have hlen := h₃.len
  unfold parsedEntries
  cases hsorted : (tokens isItemDelim value).insertionSort strLe with
  | nil =>
      rw [hsorted] at h₃ hlen
      rw [hlen]
      exact ⟨buf, h₃⟩
  | cons a texts =>
      rw [hsorted] at h₃ hlen
      have hturns : s₃.len - 1 = texts.length := by
        rw [hlen, pointers, List.length_map, List.length_cons, Nat.add_sub_cancel]
      rw [hturns]
      have hclear := @clearLoop_ensures s₃ buf [] a texts h₃
      exact hclear.mono fun s₄ _ h₄ => ⟨buf, h₄⟩

theorem parseEach_ensures (values : List Bytes) (value : Bytes) (h : Valid s) :
    Ensures ListSem NoFault (parseEach (values ++ [value]) s)
      (fun s' _ => ∃ buf, Stored s' buf (parsedEntries buf value)) () := by
  induction values generalizing s with
  | nil => exact (parseStrListIn_ensures value h).bind fun s₁ _ h₁ => h₁
  | cons first values ih =>
      refine (parseStrListIn_ensures first h).bind fun s₁ _ h₁ => ?_
      obtain ⟨buf, hstored⟩ := h₁
      exact ih hstored.toValid

/-- The loop of `is_allowed` makes no call: it comes to its result. -/
theorem allowedLoop_returns {done : List (Option Token)} {texts : List (Option Bytes)}
    (h : Stored s buf (done ++ texts.map (Option.map (Token.mk buf)))) (item : Bytes) :
    ∃ b, allowedLoop item s texts.length done.length = .ret b ∧ (b = true ↔ some item ∈ texts) := by
  induction texts generalizing done with
  | nil => exact ⟨false, rfl, nofun, nofun⟩
  | cons text texts ih =>
      have hlen := h.len
      have hfits := h.fits
      obtain ⟨back, hlist, -⟩ := h.array (by
        rw [List.length_append, List.map_cons, List.length_cons] at hlen
        omega)
      have hread : (s.list.bind fun l => l[done.length]?) = some (text.map (Token.mk buf)) := by
        rw [hlist, Option.bind_some, List.map_cons, List.append_assoc, List.cons_append,
          getElem?_middle]
      obtain ⟨b, hrest, hb⟩ := @ih (done ++ [text.map (Token.mk buf)]) (by
        rw [List.append_assoc, List.singleton_append]
        exact h)
      rw [List.length_append, List.length_singleton] at hrest
      rw [List.length_cons, allowedLoop, hread]
      cases text with
      | none =>
          refine ⟨b, hrest, hb.trans ⟨List.mem_cons_of_mem _, fun hmem => ?_⟩⟩
          rcases List.mem_cons.mp hmem with heq | hmem
          · cases heq
          · exact hmem
      | some text =>
          change ∃ b, (access (deref s (some ⟨buf, text⟩))).bind _ = _ ∧ _
          rw [deref_pointer h.buf text]
          change ∃ b, ite _ _ _ = _ ∧ _
          by_cases heq : item = text
          · rw [if_pos heq, heq]
            exact ⟨true, rfl, fun _ => List.mem_cons_self, fun _ => rfl⟩
          · rw [if_neg heq]
            refine ⟨b, hrest, hb.trans ⟨List.mem_cons_of_mem _, fun hmem => ?_⟩⟩
            rcases List.mem_cons.mp hmem with hsame | hmem
            · exact (heq (Option.some.inj hsame)).elim
            · exact hmem

theorem isAllowedIn_returns {value : Bytes} (h : Stored s buf (parsedEntries buf value))
    (item : Bytes) :
    ∃ b, isAllowedIn item s = .ret b ∧ (b = true ↔ item ∈ tokens isItemDelim value) := by
  obtain ⟨b, hloop, hb⟩ := @allowedLoop_returns s buf [] _ h item
  have hturns : s.len = (clearDuplicates ((tokens isItemDelim value).insertionSort strLe)).length :=
    h.len.trans (List.length_map _)
  rw [← hturns] at hloop
  refine ⟨b, hloop, hb.trans ?_⟩
  rw [← @mem_items_parseStrList value item {}, items_parseStrList]
  simp

end Parts

/-! The theorem. -/

/-- The non-null entries in use, in order. -/
def entries (s : StrListT) : List Bytes :=
  ((s.list.getD []).take s.len).filterMap (Option.map Token.text)

/-- The array and its entries are those of the list that the other modules work with. -/
theorem Stored.entries_eq {s : StrListT} {buf : ℕ} {value : Bytes}
    (h : Stored s buf (parsedEntries buf value)) (old : StrList) :
    entries s = (parseStrList value old).items := by
  obtain ⟨back, hback⟩ := h.used
  rw [entries, hback, h.len, List.take_left, parsedEntries, List.filterMap_map,
    items_parseStrList]
  apply List.filterMap_congr
  intro text _
  cases text <;> rfl

/-- What the array holds after a call with this value. -/
structure HoldsSet (value : Bytes) (s : StrListT) : Prop extends Valid s where
  increasing : (entries s).Pairwise strLt
  mem : ∀ a, a ∈ entries s ↔ a ∈ tokens isItemDelim value

private def firstArray : List (Option Token) := List.replicate 16 none

private def inOrder (a b : Bytes) (buf : ℕ) : List Token := [⟨buf, a⟩, ⟨buf, b⟩, ⟨buf, b⟩]

private def sampleCalls : List (Event ListRes) :=
  [⟨.strdup (str "a"), some 0⟩, ⟨.realloc none 128, some firstArray⟩,
    ⟨.qsort [⟨0, str "a"⟩], [⟨0, str "a"⟩]⟩, ⟨.strdup (str "b a b"), some 1⟩,
    ⟨.qsort [⟨1, str "b"⟩, ⟨1, str "a"⟩, ⟨1, str "b"⟩], inOrder (str "a") (str "b") 1⟩]

private def sampleSteps : List (Step Unit ListRes) := sampleCalls.map fun e => ⟨(), e, ()⟩

private def sampleList : StrListT where
  list := some ([some ⟨1, str "a"⟩, none, some ⟨1, str "b"⟩] ++ List.replicate 13 none)
  allocated := 16
  len := 3
  buf := some 1

end HasherPriv.Config.StrListArray
