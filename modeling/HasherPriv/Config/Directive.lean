/- GID: HasherPriv/Config/Directive
   layer: configuration
   source: file_config.c
   digest: The pointer loops over a configuration line on checked memory, and the grammar of a line. -/

import HasherPriv.Config.Lines
import HasherPriv.Foundations.Memory

set_option autoImplicit false
set_option relaxedAutoImplicit false

namespace HasherPriv.Config.Directive

open Foundations.ByteString
open Foundations.Memory
open Foundations.Numerals
open FileConfig
open Lines (Blank blank_iff)

/-! The functions on strings, as they read memory. -/

def strlen (m : Bytes) (p : ℕ) : Option ℕ := (seek (· = 0) m p).map (· - p)

/-- The inner option is the result, the outer one is for the accesses. -/
def strchr (m : Bytes) (p : ℕ) (c : UInt8) : Option (Option ℕ) := do
  let q ← seek (fun b => b = c ∨ b = 0) m p
  return if (← m[q]?) = c then some q else none

/-- What a function that is given the pointer finds there. -/
def stringAt (m : Bytes) (p : ℕ) : Option Bytes := do
  slice m p (← strlen m p)

/-! The body of the loop of `fread_config_name_value`, up to the call of `func`. -/

/-- `for (start = buf; *start && isspace (*start); ++start)` -/
def skipBlanks : Bytes → ℕ → ℕ → Option ℕ := advance fun b => b ≠ 0 ∧ isSpace b

/-- From `end = right + strlen (right)` to `*end = 0`: the buffer and `right` after the loops. -/
def cutValue (fuel : ℕ) (buf : Bytes) (right : ℕ) : Option (Bytes × ℕ) := do
  let stop := right + (← strlen buf right)
  let right ← advanceTo isSpace buf stop fuel right
  let stop ← retreat isSpace buf right stop
  return (← store buf stop [0], right)

def parseBuffer (fuel : ℕ) (buf : Bytes) : Option Line := do
  let start ← skipBlanks buf fuel 0
  let first ← buf[start]?
  if first = 0 ∨ first = 35 then return .blank
  else
    match ← strchr buf start 61 with
    | none => return .syntaxError
    | some eq =>
        let left := start
        let right := eq + 1
        let eq ← retreat isSpace buf left eq
        if left = eq then return .syntaxError
        else
          let (buf, right) ← cutValue fuel (← store buf eq [0]) right
          return .option (← stringAt buf left) (← stringAt buf right)

section Strings

variable {s u : Bytes} (pre : Bytes)

theorem strlen_middle (h : 0 ∉ s) : strlen (pre ++ s ++ 0 :: u) pre.length = some s.length := by
  have hseek : seek (· = 0) (pre ++ s ++ 0 :: u) pre.length = some (pre.length + s.length) := by
    apply seek_middle
    · intro b hb
      apply decide_eq_false
      rintro rfl
      exact h hb
    · exact decide_eq_true rfl
  rw [strlen, hseek, Option.map_some, Nat.add_sub_cancel_left]

theorem stringAt_middle (h : 0 ∉ s) : stringAt (pre ++ s ++ 0 :: u) pre.length = some s := by
  have hfits : pre.length + s.length ≤ (pre ++ s ++ 0 :: u).length := by
    simp only [List.length_append]
    omega
  rw [stringAt, strlen_middle pre h, Option.bind_eq_bind, Option.bind_some, slice_eq hfits,
    List.append_assoc, List.drop_left, List.take_left]

theorem strchr_middle {c d : UInt8} (h : 0 ∉ s) (hc : c ∉ s) (hd : d = c ∨ d = 0) :
    strchr (pre ++ s ++ d :: u) pre.length c =
      some (if d = c then some (pre.length + s.length) else none) := by
  have hseek : seek (fun b => b = c ∨ b = 0) (pre ++ s ++ d :: u) pre.length =
      some (pre.length + s.length) := by
    apply seek_middle
    · intro b hb
      apply decide_eq_false
      rintro (rfl | rfl)
      · exact hc hb
      · exact h hb
    · exact decide_eq_true hd
  have hat : (pre ++ s ++ d :: u)[pre.length + s.length]? = some d := by
    rw [← List.length_append, getElem?_middle]
  rw [strchr, hseek, Option.bind_eq_bind, Option.bind_some, hat]
  rfl

theorem skipBlanks_eq {a : Bytes} {x : UInt8} {fuel : ℕ} (ha : Blank a)
    (hx : x = 0 ∨ isSpace x = false) (hfuel : a.length < fuel) :
    skipBlanks (a ++ x :: u) fuel 0 = some a.length := by
  have hblank : ∀ b ∈ a, decide (b ≠ 0 ∧ isSpace b = true) = true := by
    intro b hb
    apply decide_eq_true
    constructor
    · rintro rfl
      have hzero := ha 0 hb
      revert hzero
      decide
    · exact ha b hb
  have hstop : decide (x ≠ 0 ∧ isSpace x = true) = false := by
    apply decide_eq_false
    rintro ⟨hne, hspace⟩
    rcases hx with rfl | hx
    · exact hne rfl
    · rw [hx] at hspace
      cases hspace
  have hskip := @advance_middle _ (fun b => b ≠ 0 ∧ isSpace b) a u x [] fuel hblank hstop hfuel
  rw [List.nil_append, List.length_nil, Nat.zero_add] at hskip
  exact hskip

end Strings

/-! Blanks around a text. -/

/-- No blank at either end. -/
structure Trimmed (t : Bytes) : Prop where
  first : ∀ c ∈ t.head?, isSpace c = false
  last : ∀ c ∈ t.getLast?, isSpace c = false

/-- The text without the blanks around it. -/
def trim (s : Bytes) : Bytes := (s.dropWhile isSpace).rdropWhile isSpace

private theorem rdropWhile_last {s : Bytes} {c : UInt8}
    (h : c ∈ (s.rdropWhile isSpace).getLast?) : isSpace c = false := by
  have hne : s.rdropWhile isSpace ≠ [] := by
    intro hnil
    rw [hnil] at h
    cases h
  have hlast := List.rdropWhile_last_not isSpace s hne
  rw [List.getLast?_eq_some_getLast hne] at h
  rw [Option.mem_some_iff.mp h, Bool.not_eq_true] at hlast
  exact hlast

theorem trim_trimmed (s : Bytes) : Trimmed (trim s) := by
  constructor
  · intro c hc
    obtain ⟨t, ht⟩ := List.head?_eq_some_iff.mp hc
    obtain ⟨rest, hrest⟩ := List.rdropWhile_prefix isSpace (s.dropWhile isSpace)
    rw [trim] at ht
    rw [ht, List.cons_append] at hrest
    exact head_of_dropWhile isSpace hrest.symm
  · intro c hc
    exact rdropWhile_last hc

/-- What is around it is blank; where nothing is left, all blanks are in front. -/
theorem trim_parts (s : Bytes) :
    ∃ a b, Blank a ∧ Blank b ∧ s = a ++ trim s ++ b ∧ (trim s = [] → b = []) := by
  refine ⟨s.takeWhile isSpace, (s.dropWhile isSpace).rtakeWhile isSpace, ?_, ?_, ?_, ?_⟩
  · intro b hb
    exact List.mem_takeWhile_imp hb
  · exact Lines.blank_of_rdropWhile _
  · rw [trim, List.append_assoc, List.rdropWhile_append_rtakeWhile, List.takeWhile_append_dropWhile]
  · intro hnil
    cases hd : s.dropWhile isSpace with
    | nil => rfl
    | cons c rest =>
        rw [trim, hd, List.rdropWhile_eq_nil_iff] at hnil
        have hspace := hnil c List.mem_cons_self
        rw [head_of_dropWhile isSpace hd] at hspace
        cases hspace

private theorem rdropWhile_append {t b : Bytes} (hb : Blank b)
    (ht : ∀ c ∈ t.getLast?, isSpace c = false) : (t ++ b).rdropWhile isSpace = t := by
  induction b using List.reverseRecOn with
  | nil =>
      rw [List.append_nil, List.rdropWhile_eq_self_iff]
      intro hne
      rw [ht _ (List.getLast?_eq_some_getLast hne)]
      decide
  | append_singleton b x ih =>
      have hx : isSpace x = true := hb x (List.mem_append_right _ (List.mem_singleton_self x))
      rw [← List.append_assoc, List.rdropWhile_concat_pos _ _ _ hx]
      exact ih fun y hy => hb y (List.mem_append_left _ hy)

theorem trim_eq {a t b : Bytes} (ha : Blank a) (hb : Blank b) (ht : Trimmed t) :
    trim (a ++ t ++ b) = t := by
  rw [trim, List.append_assoc, Lines.dropWhile_of_blank ha]
  cases t with
  | nil =>
      rw [List.nil_append, blank_iff.mp hb]
      rfl
  | cons c t =>
      have hc : ¬ isSpace c = true := by
        rw [ht.first c rfl]
        decide
      rw [List.cons_append, List.dropWhile_cons_of_neg hc, ← List.cons_append]
      exact rdropWhile_append hb ht.last

/-! The grammar. -/

/-- What a line is, by its parts. -/
inductive Reads : Bytes → Line → Prop
  | blank {a : Bytes} (ha : Blank a) : Reads a .blank
  | comment {a : Bytes} (ha : Blank a) (rest : Bytes) : Reads (a ++ 35 :: rest) .blank
  | noSign {a rest : Bytes} {c : UInt8} (ha : Blank a) (hc : isSpace c = false) (hhash : c ≠ 35)
      (hsign : 61 ∉ c :: rest) : Reads (a ++ c :: rest) .syntaxError
  | noName {a : Bytes} (ha : Blank a) (rest : Bytes) : Reads (a ++ 61 :: rest) .syntaxError
  | option {a b c d name value : Bytes} (ha : Blank a) (hb : Blank b) (hc : Blank c) (hd : Blank d)
      (hne : name ≠ []) (hname : Trimmed name) (hhash : name.head? ≠ some 35) (hsign : 61 ∉ name)
      (hvalue : Trimmed value) (hempty : value = [] → d = []) :
      Reads (a ++ name ++ b ++ 61 :: (c ++ value ++ d)) (.option name value)

/-- Every line is one of these, as the model of the loop says. -/
theorem reads_parseLine (s : Bytes) : Reads s (parseLine s) := by
  have hblank : Blank (s.takeWhile isSpace) := fun b hb => List.mem_takeWhile_imp hb
  have hparts : s.takeWhile isSpace ++ s.dropWhile isSpace = s := List.takeWhile_append_dropWhile
  unfold parseLine
  cases hs : s.dropWhile isSpace with
  | nil => exact .blank (blank_iff.mpr hs)
  | cons c rest =>
      have hc : isSpace c = false := head_of_dropWhile isSpace hs
      rw [hs] at hparts
      dsimp only
      split_ifs with hhash hsign hleft
      · rw [← hparts, hhash]
        exact .comment hblank rest
      · -- only blanks before the sign, and the line does not start with a blank here
        have hsame : c = 61 := by
          by_contra hne
          have hcons : (c :: rest).takeWhile (· ≠ 61) = c :: rest.takeWhile (· ≠ 61) :=
            List.takeWhile_cons_of_pos (decide_eq_true hne)
          rw [hcons, List.rdropWhile_eq_nil_iff] at hleft
          have hspace := hleft c List.mem_cons_self
          rw [hc] at hspace
          cases hspace
        rw [← hparts, hsame]
        exact .noName hblank rest
      · obtain ⟨l, r, hline, hl⟩ := List.eq_append_cons_of_mem hsign
        have htake : (c :: rest).takeWhile (· ≠ 61) = l := by
          rw [hline, List.takeWhile_append_of_pos (fun b hb => decide_eq_true ?_),
            List.takeWhile_cons_of_neg (by decide), List.append_nil]
          rintro rfl
          exact hl hb
        have hdrop : ((c :: rest).dropWhile (· ≠ 61)).tail = r := by
          rw [hline, List.dropWhile_append_of_pos (fun b hb => decide_eq_true ?_),
            List.dropWhile_cons_of_neg (by decide), List.tail_cons]
          rintro rfl
          exact hl hb
        rw [htake] at hleft
        rw [htake, hdrop]
        obtain ⟨b₁, b₂, hb₁, hb₂, hr, hempty⟩ := trim_parts r
        have hname : l.rdropWhile isSpace ++ l.rtakeWhile isSpace = l :=
          List.rdropWhile_append_rtakeWhile
        obtain ⟨x, name, hx⟩ := List.exists_cons_of_ne_nil hleft
        have hsame : x = c := by
          rw [← hname, hx] at hline
          exact (List.cons.inj hline).1.symm
        have hhead : (l.rdropWhile isSpace).head? = some c := by rw [hx, hsame, List.head?_cons]
        have hwhole : s = s.takeWhile isSpace ++ l.rdropWhile isSpace ++ l.rtakeWhile isSpace ++
            61 :: (b₁ ++ trim r ++ b₂) := by
          rw [List.append_assoc _ (l.rdropWhile isSpace), hname, ← hr, List.append_assoc, ← hline,
            hparts]
        have hreads : Reads (s.takeWhile isSpace ++ l.rdropWhile isSpace ++ l.rtakeWhile isSpace ++
            61 :: (b₁ ++ trim r ++ b₂)) (.option (l.rdropWhile isSpace) (trim r)) := by
          refine .option hblank (Lines.blank_of_rdropWhile l) hb₁ hb₂ hleft ⟨?_, ?_⟩ ?_ ?_
            (trim_trimmed r) hempty
          · intro y hy
            rw [hhead] at hy
            rw [← Option.some.inj hy]
            exact hc
          · intro y hy
            exact rdropWhile_last hy
          · rw [hhead]
            intro heq
            exact hhash (Option.some.inj heq)
          · intro hmem
            exact hl ((List.rdropWhile_prefix isSpace l).subset hmem)
        rw [← hwhole] at hreads
        exact hreads
      · rw [← hparts]
        exact .noSign hblank hc hhash hsign

/-! The loops find the parts. -/

/-- The terminator takes the place of the first blank, or of what follows where there is none. -/
private theorem store_terminator (pre b rest : Bytes) (x : UInt8) :
    ∃ w : Bytes, w.length = b.length ∧
      store (pre ++ b ++ x :: rest) pre.length [0] = some (pre ++ 0 :: (w ++ rest)) := by
  cases b with
  | nil =>
      refine ⟨[], rfl, ?_⟩
      have hstore := @store_middle _ rest pre [x] [0] rfl
      rw [List.append_assoc pre [x], List.append_assoc pre [0]] at hstore
      rw [List.append_nil]
      exact hstore
  | cons y b =>
      refine ⟨b ++ [x], by rw [List.length_append]; rfl, ?_⟩
      have hstore := @store_middle _ (b ++ x :: rest) pre [y] [0] rfl
      rw [List.append_assoc pre [y], List.append_assoc pre [0]] at hstore
      rw [List.append_assoc pre, List.append_assoc b]
      exact hstore

private theorem sign_notMem {b : Bytes} (hb : Blank b) : 61 ∉ b := by
  intro hmem
  have hspace := hb 61 hmem
  revert hspace
  decide

section Loops

variable {a u : Bytes} {fuel : ℕ}

theorem parseBuffer_blank (ha : Blank a) (hfuel : a.length < fuel) :
    parseBuffer fuel (a ++ 0 :: u) = some .blank := by
  rw [parseBuffer, skipBlanks_eq ha (Or.inl rfl) hfuel]
  simp only [Option.bind_eq_bind, Option.bind_some]
  rw [getElem?_middle]
  rfl

theorem parseBuffer_comment (ha : Blank a) (hfuel : a.length < fuel) :
    parseBuffer fuel (a ++ 35 :: u) = some .blank := by
  rw [parseBuffer, skipBlanks_eq ha (Or.inr (by decide)) hfuel]
  simp only [Option.bind_eq_bind, Option.bind_some]
  rw [getElem?_middle]
  rfl

theorem parseBuffer_noSign {c : UInt8} {rest : Bytes} (ha : Blank a) (hc : isSpace c = false)
    (hhash : c ≠ 35) (hsign : 61 ∉ c :: rest) (hfree : 0 ∉ c :: rest) (hfuel : a.length < fuel) :
    parseBuffer fuel (a ++ (c :: rest) ++ 0 :: u) = some .syntaxError := by
  have hzero : c ≠ 0 := fun h => hfree (h ▸ List.mem_cons_self)
  have hstart : skipBlanks (a ++ (c :: rest) ++ 0 :: u) fuel 0 = some a.length := by
    rw [List.append_assoc]
    exact skipBlanks_eq ha (Or.inr hc) hfuel
  have hfirst : (a ++ (c :: rest) ++ 0 :: u)[a.length]? = some c := by
    rw [List.append_assoc]
    exact getElem?_middle _ _ _
  rw [parseBuffer, hstart]
  simp only [Option.bind_eq_bind, Option.bind_some]
  rw [hfirst, Option.bind_some, if_neg (not_or.mpr ⟨hzero, hhash⟩),
    strchr_middle a hfree hsign (Or.inr rfl)]
  rfl

theorem parseBuffer_noName (ha : Blank a) (hfuel : a.length < fuel) :
    parseBuffer fuel (a ++ 61 :: u) = some .syntaxError := by
  have hsign : strchr (a ++ 61 :: u) a.length 61 = some (some a.length) := by
    have hfound := @strchr_middle [] u a 61 61 List.not_mem_nil List.not_mem_nil (Or.inl rfl)
    rw [List.append_nil] at hfound
    exact hfound
  have hback : retreat isSpace (a ++ 61 :: u) a.length a.length = some a.length := by
    have hstay := @retreat_middle _ isSpace (61 :: u) a [] a.length
      (fun y hy => (List.not_mem_nil hy).elim) (Or.inl rfl)
    rw [List.append_nil] at hstay
    exact hstay
  rw [parseBuffer, skipBlanks_eq ha (Or.inr (by decide)) hfuel]
  simp only [Option.bind_eq_bind, Option.bind_some]
  rw [getElem?_middle, Option.bind_some, if_neg (by decide), hsign, Option.bind_some]
  dsimp only
  rw [hback, Option.bind_some, if_pos rfl]
  rfl

/-- The loops over the value, where it starts behind `pre`. -/
theorem cutValue_eq (pre : Bytes) {c d value : Bytes} (hc : Blank c) (hd : Blank d)
    (hvalue : Trimmed value) (hempty : value = [] → d = []) (hfree : 0 ∉ c ++ value ++ d)
    (hfuel : c.length < fuel) :
    ∃ w, cutValue fuel (pre ++ (c ++ value ++ d) ++ 0 :: u) pre.length =
      some (pre ++ c ++ value ++ 0 :: w, (pre ++ c).length) := by
  have hlen : strlen (pre ++ (c ++ value ++ d) ++ 0 :: u) pre.length =
      some (c ++ value ++ d).length := strlen_middle pre hfree
  have hsplit : pre ++ (c ++ value ++ d) ++ 0 :: u =
      pre ++ c ++ (value ++ (d ++ 0 :: u)) := by simp only [List.append_assoc]
  have hsplit' : pre ++ (c ++ value ++ d) ++ 0 :: u =
      (pre ++ c ++ value) ++ d ++ 0 :: u := by simp only [List.append_assoc]
  have hstop : pre.length + (c ++ value ++ d).length =
      (pre ++ c ++ value).length + d.length := by
    simp only [List.length_append]
    omega
  have hright : advanceTo isSpace (pre ++ (c ++ value ++ d) ++ 0 :: u)
      (pre.length + (c ++ value ++ d).length) fuel pre.length = some (pre ++ c).length := by
    have hpre : (pre ++ c).length = pre.length + c.length := List.length_append
    rw [hsplit, hpre]
    refine advanceTo_middle pre hc ?_ hfuel
    cases value with
    | nil =>
        left
        rw [hempty rfl, List.append_nil, List.append_nil]
    | cons x value =>
        right
        refine ⟨?_, x, _, rfl, hvalue.first x rfl⟩
        simp only [List.length_append, List.length_cons]
        omega
  have hend : retreat isSpace (pre ++ (c ++ value ++ d) ++ 0 :: u) (pre ++ c).length
      (pre.length + (c ++ value ++ d).length) = some (pre ++ c ++ value).length := by
    rw [hsplit', hstop]
    apply retreat_middle _ hd
    cases value with
    | nil =>
        left
        rw [List.append_nil]
    | cons x value =>
        right
        constructor
        · simp only [List.length_append, List.length_cons]
          omega
        · intro y hy
          apply hvalue.last
          rw [List.getLast?_append, List.getLast?_cons] at hy
          rw [List.getLast?_cons]
          exact hy
  obtain ⟨w, -, hstore⟩ := store_terminator (pre ++ c ++ value) d u 0
  refine ⟨w ++ u, ?_⟩
  rw [cutValue, hlen]
  simp only [Option.bind_eq_bind, Option.bind_some]
  rw [hright, Option.bind_some, hend, Option.bind_some, hsplit', hstore]
  rfl

theorem parseBuffer_option {b c d name value : Bytes} (ha : Blank a) (hb : Blank b)
    (hc : Blank c) (hd : Blank d) (hne : name ≠ []) (hname : Trimmed name)
    (hhash : name.head? ≠ some 35) (hsign : 61 ∉ name) (hvalue : Trimmed value)
    (hempty : value = [] → d = []) (hfree : 0 ∉ a ++ name ++ b ++ 61 :: (c ++ value ++ d))
    (hfuel : (a ++ name ++ b ++ 61 :: (c ++ value ++ d)).length < fuel) :
    parseBuffer fuel (a ++ name ++ b ++ 61 :: (c ++ value ++ d) ++ 0 :: u) =
      some (.option name value) := by
  simp only [List.mem_append, List.mem_cons, not_or] at hfree
  simp only [List.length_append, List.length_cons] at hfuel
  obtain ⟨x, rest, hx⟩ := List.exists_cons_of_ne_nil hne
  have hspace : isSpace x = false := hname.first x (by rw [hx]; rfl)
  have hzero : x ≠ 0 := by
    rintro rfl
    exact hfree.1.1.2 (hx ▸ List.mem_cons_self)
  have hnumber : x ≠ 35 := by
    rintro rfl
    exact hhash (by rw [hx]; rfl)
  -- the start of the name
  have hstart : a ++ name ++ b ++ 61 :: (c ++ value ++ d) ++ 0 :: u =
      a ++ x :: (rest ++ b ++ 61 :: (c ++ value ++ d) ++ 0 :: u) := by
    rw [hx]
    simp only [List.append_assoc, List.cons_append]
  have hskip : skipBlanks (a ++ name ++ b ++ 61 :: (c ++ value ++ d) ++ 0 :: u) fuel 0 =
      some a.length := by
    rw [hstart]
    exact skipBlanks_eq ha (Or.inr hspace) (by omega)
  have hfirst : (a ++ name ++ b ++ 61 :: (c ++ value ++ d) ++ 0 :: u)[a.length]? = some x := by
    rw [hstart]
    exact getElem?_middle a _ x
  -- the sign
  have hmiddle : a ++ name ++ b ++ 61 :: (c ++ value ++ d) ++ 0 :: u =
      a ++ (name ++ b) ++ 61 :: ((c ++ value ++ d) ++ 0 :: u) := by
    simp only [List.append_assoc, List.cons_append]
  have hat : strchr (a ++ name ++ b ++ 61 :: (c ++ value ++ d) ++ 0 :: u) a.length 61 =
      some (some (a.length + (name ++ b).length)) := by
    rw [hmiddle]
    apply strchr_middle
    · rw [List.mem_append, not_or]
      exact ⟨hfree.1.1.2, hfree.1.2⟩
    · rw [List.mem_append, not_or]
      exact ⟨hsign, sign_notMem hb⟩
    · exact Or.inl rfl
  -- the end of the name
  have hblanks : a ++ name ++ b ++ 61 :: (c ++ value ++ d) ++ 0 :: u =
      (a ++ name) ++ b ++ 61 :: ((c ++ value ++ d) ++ 0 :: u) := by
    simp only [List.append_assoc, List.cons_append]
  have hleft : a.length < (a ++ name).length := by
    rw [List.length_append, hx, List.length_cons]
    omega
  have hend : retreat isSpace (a ++ name ++ b ++ 61 :: (c ++ value ++ d) ++ 0 :: u) a.length
      (a.length + (name ++ b).length) = some (a ++ name).length := by
    have hsum : a.length + (name ++ b).length = (a ++ name).length + b.length := by
      simp only [List.length_append]
      omega
    rw [hsum, hblanks]
    refine retreat_middle (a ++ name) hb (Or.inr ⟨hleft, ?_⟩)
    intro y hy
    apply hname.last
    rw [List.getLast?_append, hx, List.getLast?_cons] at hy
    rw [hx, List.getLast?_cons]
    exact hy
  obtain ⟨w, hw, hstore⟩ := store_terminator (a ++ name) b ((c ++ value ++ d) ++ 0 :: u) 61
  rw [← hblanks] at hstore
  -- the value
  have hvalueFree : 0 ∉ c ++ value ++ d := by
    simp only [List.mem_append, not_or]
    exact hfree.2.2
  obtain ⟨w', hcut⟩ := @cutValue_eq u fuel (a ++ name ++ 0 :: w) c d value hc hd hvalue hempty
    hvalueFree (by omega)
  have hright : a.length + (name ++ b).length + 1 = (a ++ name ++ 0 :: w).length := by
    simp only [List.length_append, List.length_cons, hw]
    omega
  have hbuf : a ++ name ++ 0 :: (w ++ ((c ++ value ++ d) ++ 0 :: u)) =
      a ++ name ++ 0 :: w ++ (c ++ value ++ d) ++ 0 :: u := by
    simp only [List.append_assoc, List.cons_append]
  -- the strings that `func` is given
  have hfound : stringAt (a ++ name ++ 0 :: w ++ c ++ value ++ 0 :: w') a.length = some name := by
    have hat' := @stringAt_middle name (w ++ c ++ value ++ 0 :: w') a hfree.1.1.2
    simp only [List.append_assoc, List.cons_append] at hat' ⊢
    exact hat'
  have hfound' : stringAt (a ++ name ++ 0 :: w ++ c ++ value ++ 0 :: w')
      (a ++ name ++ 0 :: w ++ c).length = some value :=
    stringAt_middle _ hfree.2.2.1.2
  rw [parseBuffer, hskip]
  simp only [Option.bind_eq_bind, Option.bind_some]
  rw [hfirst, Option.bind_some, if_neg (not_or.mpr ⟨hzero, hnumber⟩), hat, Option.bind_some]
  dsimp only
  rw [hend, Option.bind_some, if_neg (Nat.ne_of_lt hleft), hstore, Option.bind_some, hright, hbuf,
    hcut, Option.bind_some]
  dsimp only
  rw [hfound, Option.bind_some, hfound']
  rfl

/-- The loops stay inside the buffer and come to what the line is. -/
theorem Reads.parseBuffer {s : Bytes} {l : Line} (h : Reads s l) (hfree : 0 ∉ s)
    (hfuel : s.length < fuel) : parseBuffer fuel (s ++ 0 :: u) = some l := by
  cases h with
  | blank ha => exact parseBuffer_blank ha hfuel
  | comment ha rest =>
      rw [List.length_append] at hfuel
      rw [List.append_assoc, List.cons_append]
      exact parseBuffer_comment ha (by omega)
  | noSign ha hc hhash hsign =>
      rw [List.length_append] at hfuel
      rw [List.mem_append, not_or] at hfree
      exact parseBuffer_noSign ha hc hhash hsign hfree.2 (by omega)
  | noName ha rest =>
      rw [List.length_append] at hfuel
      rw [List.append_assoc, List.cons_append]
      exact parseBuffer_noName ha (by omega)
  | option ha hb hc hd hne hname hhash hsign hvalue hempty =>
      exact parseBuffer_option ha hb hc hd hne hname hhash hsign hvalue hempty hfree hfuel

end Loops

/-! What decides. -/

/-- The first character that is not blank. -/
def firstText (s : Bytes) : Option UInt8 := (s.dropWhile isSpace).head?

/-- A blank line or a comment. -/
def Skipped (s : Bytes) : Prop := Blank s ∨ firstText s = some 35

def Malformed (s : Bytes) : Prop := 61 ∉ s ∨ firstText s = some 61

private theorem firstText_cons {a rest : Bytes} {c : UInt8} (ha : Blank a)
    (hc : isSpace c = false) : firstText (a ++ c :: rest) = some c := by
  rw [firstText, Lines.dropWhile_of_blank ha, List.dropWhile_cons_of_neg (by rw [hc]; decide),
    List.head?_cons]

private theorem not_blank {a rest : Bytes} {c : UInt8} (hc : isSpace c = false) :
    ¬ Blank (a ++ c :: rest) := by
  intro h
  have hspace := h c (List.mem_append_right _ List.mem_cons_self)
  rw [hc] at hspace
  cases hspace

/-- Each line with the conditions on its text. -/
theorem Reads.conditions {s : Bytes} {l : Line} (h : Reads s l) :
    (l = .blank ∧ Skipped s) ∨ (l = .syntaxError ∧ ¬ Skipped s ∧ Malformed s) ∨
      (l = .option (trim (s.takeWhile (· ≠ 61))) (trim (s.dropWhile (· ≠ 61)).tail) ∧
        ¬ Skipped s ∧ ¬ Malformed s) := by
  cases h with
  | blank ha => exact Or.inl ⟨rfl, Or.inl ha⟩
  | comment ha rest => exact Or.inl ⟨rfl, Or.inr (firstText_cons ha (by decide))⟩
  | noSign ha hc hhash hsign =>
      refine Or.inr (Or.inl ⟨rfl, not_or.mpr ⟨not_blank hc, ?_⟩, Or.inl ?_⟩)
      · rw [firstText_cons ha hc]
        intro heq
        exact hhash (Option.some.inj heq)
      · rw [List.mem_append, not_or]
        exact ⟨sign_notMem ha, hsign⟩
  | noName ha rest =>
      refine Or.inr (Or.inl ⟨rfl, not_or.mpr ⟨not_blank (by decide), ?_⟩, Or.inr ?_⟩)
      · rw [firstText_cons ha (by decide)]
        decide
      · exact firstText_cons ha (by decide)
  | @option a b c d name value ha hb hc hd hne hname hhash hsign hvalue hempty =>
      right
      right
      have hbefore : ∀ x ∈ a ++ name ++ b, decide (x ≠ 61) = true := by
        intro x hx
        apply decide_eq_true
        rintro rfl
        rw [List.mem_append, List.mem_append] at hx
        rcases hx with (hx | hx) | hx
        · exact sign_notMem ha hx
        · exact hsign hx
        · exact sign_notMem hb hx
      have htake : (a ++ name ++ b ++ 61 :: (c ++ value ++ d)).takeWhile (· ≠ 61) =
          a ++ name ++ b := by
        rw [List.takeWhile_append_of_pos hbefore, List.takeWhile_cons_of_neg (by decide),
          List.append_nil]
      have hdrop : (a ++ name ++ b ++ 61 :: (c ++ value ++ d)).dropWhile (· ≠ 61) =
          61 :: (c ++ value ++ d) := by
        rw [List.dropWhile_append_of_pos hbefore, List.dropWhile_cons_of_neg (by decide)]
      obtain ⟨x, rest, hx⟩ := List.exists_cons_of_ne_nil hne
      have hspace : isSpace x = false := hname.first x (by rw [hx]; rfl)
      have hform : a ++ name ++ b ++ 61 :: (c ++ value ++ d) =
          a ++ x :: (rest ++ b ++ 61 :: (c ++ value ++ d)) := by
        rw [hx]
        simp only [List.append_assoc, List.cons_append]
      refine ⟨?_, not_or.mpr ⟨?_, ?_⟩, not_or.mpr ⟨?_, ?_⟩⟩
      · rw [htake, hdrop, List.tail_cons, trim_eq ha hb hname, trim_eq hc hd hvalue]
      · rw [hform]
        exact not_blank hspace
      · rw [hform, firstText_cons ha hspace]
        rw [hx, List.head?_cons] at hhash
        exact hhash
      · rw [not_not]
        exact List.mem_append_right _ List.mem_cons_self
      · rw [hform, firstText_cons ha hspace]
        intro heq
        apply hsign
        rw [hx, ← Option.some.inj heq]
        exact List.mem_cons_self

/-- With an empty value all blanks can be counted as those before it. -/
theorem reads_padded {a b c d name value : Bytes} (ha : Blank a) (hb : Blank b) (hc : Blank c)
    (hd : Blank d) (hne : name ≠ []) (hname : Trimmed name) (hhash : name.head? ≠ some 35)
    (hsign : 61 ∉ name) (hvalue : Trimmed value) :
    Reads (a ++ name ++ b ++ 61 :: (c ++ value ++ d)) (.option name value) := by
  cases value with
  | nil =>
      have hcd : Blank (c ++ d) := fun x hx => (List.mem_append.mp hx).elim (hc x) (hd x)
      have hreads : Reads (a ++ name ++ b ++ 61 :: (c ++ d ++ [] ++ [])) (.option name []) :=
        .option ha hb hcd (fun x hx => (List.not_mem_nil hx).elim) hne hname hhash hsign hvalue
          fun _ => rfl
      rw [List.append_nil, List.append_nil] at hreads
      rw [List.append_nil]
      exact hreads
  | cons x value =>
      exact .option ha hb hc hd hne hname hhash hsign hvalue fun h => by cases h

/-- What the loop does with a line. -/
theorem eachOption_singleton {σ : Type} (func : Bytes → Bytes → σ → Except String σ)
    (fname : Bytes) (line : ℕ) (s : Bytes) (t : σ) :
    eachOption func fname line [s] t =
      match parseLine s with
      | .blank => .ok t
      | .syntaxError =>
          let file := text fname
          .error s!"{file}: syntax error at line {line}"
      | .option name value => func name value t := by
  rw [eachOption]
  cases parseLine s with
  | blank => rfl
  | syntaxError => rfl
  | option name value =>
      dsimp only
      cases func name value t with
      | error why => rfl
      | ok t => rfl

/-- What each line is, with no access outside the buffer; names and values are recovered whatever
blanks are put around them. -/
theorem directive_grammar :
    (∀ s unused : Bytes, 0 ∉ s → ∃ l,
      (∀ fuel, s.length < fuel → parseBuffer fuel (s ++ 0 :: unused) = some l) ∧
      (∀ (σ : Type) (func : Bytes → Bytes → σ → Except String σ) (fname : Bytes) (line : ℕ) (t : σ),
        eachOption func fname line [s] t =
          match l with
          | .blank => .ok t
          | .syntaxError =>
              let file := text fname
              .error s!"{file}: syntax error at line {line}"
          | .option name value => func name value t) ∧
      (l = .blank ↔ Skipped s) ∧
      (l = .syntaxError ↔ ¬ Skipped s ∧ Malformed s) ∧
      ∀ name value, l = .option name value ↔ ¬ Skipped s ∧ ¬ Malformed s ∧
        name = trim (s.takeWhile (· ≠ 61)) ∧ value = trim (s.dropWhile (· ≠ 61)).tail) ∧
    (∀ name value a b c d unused : Bytes, 0 ∉ name → 0 ∉ value →
      name ≠ [] → 61 ∉ name → name.head? ≠ some 35 → Trimmed name → Trimmed value →
      Blank a → Blank b → Blank c → Blank d →
      ∀ fuel, (a ++ name ++ b ++ 61 :: (c ++ value ++ d)).length < fuel →
        parseBuffer fuel (a ++ name ++ b ++ 61 :: (c ++ value ++ d) ++ 0 :: unused) =
          some (.option name value)) := by
  constructor
  · intro s unused hfree
    have hreads := reads_parseLine s
    refine ⟨parseLine s, fun fuel hfuel => hreads.parseBuffer hfree hfuel,
      fun σ func fname line t => eachOption_singleton func fname line s t, ?_⟩
    rcases hreads.conditions with ⟨hl, hskip⟩ | ⟨hl, hskip, hbad⟩ | ⟨hl, hskip, hgood⟩
    · rw [hl]
      refine ⟨⟨fun _ => hskip, fun _ => rfl⟩, ⟨fun h => (Line.noConfusion h), fun h => ?_⟩, ?_⟩
      · exact absurd hskip h.1
      · intro name value
        exact ⟨fun h => (Line.noConfusion h), fun h => absurd hskip h.1⟩
    · rw [hl]
      refine ⟨⟨fun h => (Line.noConfusion h), fun h => absurd h hskip⟩, ⟨fun _ => ⟨hskip, hbad⟩,
        fun _ => rfl⟩, ?_⟩
      intro name value
      exact ⟨fun h => (Line.noConfusion h), fun h => absurd hbad h.2.1⟩
    · rw [hl]
      refine ⟨⟨fun h => (Line.noConfusion h), fun h => absurd h hskip⟩,
        ⟨fun h => (Line.noConfusion h), fun h => absurd h.2 hgood⟩, ?_⟩
      intro name value
      constructor
      · intro h
        obtain ⟨hname, hvalue⟩ := Line.option.inj h
        exact ⟨hskip, hgood, hname.symm, hvalue.symm⟩
      · rintro ⟨-, -, rfl, rfl⟩
        rfl
  · intro name value a b c d unused hname0 hvalue0 hne hsign hhash hname hvalue ha hb hc hd fuel
      hfuel
    have hblank : ∀ {x : Bytes}, Blank x → 0 ∉ x := by
      intro x hx hmem
      have hspace := hx 0 hmem
      revert hspace
      decide
    refine (reads_padded ha hb hc hd hne hname hhash hsign hvalue).parseBuffer ?_ hfuel
    simp only [List.mem_append, List.mem_cons, not_or]
    exact ⟨⟨⟨hblank ha, hname0⟩, hblank hb⟩, by decide, ⟨hblank hc, hvalue0⟩, hblank hd⟩

theorem directive_grammar_sample :
    (∃ l, parseBuffer 10 (str " a = b=c" ++ 0 :: [7, 7]) = some l ∧
      (l = .syntaxError ↔ ¬ Skipped (str " a = b=c") ∧ Malformed (str " a = b=c"))) ∧
    parseBuffer 10 (str " a" ++ 61 :: str "b " ++ [0]) = some (.option (str "a") (str "b")) := by
  constructor
  · obtain ⟨l, hparse, -, -, hsyntax, -⟩ := directive_grammar.1 (str " a = b=c") [7, 7] (by decide)
    exact ⟨l, hparse 10 (by decide), hsyntax⟩
  · have htrimmed : ∀ x : UInt8, isSpace x = false → Trimmed [x] := by
      intro x hx
      constructor
      · intro y hy
        rw [← Option.some.inj hy]
        exact hx
      · intro y hy
        rw [← Option.some.inj hy]
        exact hx
    have hspace : Blank [32] := by
      intro x hx
      rw [List.mem_singleton.mp hx]
      decide
    have hnone : Blank [] := fun x hx => (List.not_mem_nil hx).elim
    exact directive_grammar.2 (str "a") (str "b") [32] [] [] [32] [] (by decide) (by decide)
      (by decide) (by decide) (by decide) (htrimmed _ (by decide)) (htrimmed _ (by decide)) hspace
      hnone hnone hspace 10 (by decide)

/-- An empty name is a syntax error. -/
theorem empty_name_not_recovered :
    ¬ ∀ name value : Bytes, 0 ∉ name → 0 ∉ value → 61 ∉ name → name.head? ≠ some 35 →
      Trimmed name → Trimmed value → ∀ fuel, (name ++ 61 :: value).length < fuel →
        parseBuffer fuel (name ++ 61 :: value ++ [0]) = some (.option name value) := by
  intro h
  have hnil : Trimmed [] := by
    constructor
    · intro c hc
      cases hc
    · intro c hc
      cases hc
  have hsyntax : parseBuffer 2 ([] ++ 61 :: [] ++ [0]) = some .syntaxError := by decide
  rw [h [] [] (by decide) (by decide) (by decide) (by decide) hnil hnil 2 (by decide)] at hsyntax
  cases hsyntax

end HasherPriv.Config.Directive
