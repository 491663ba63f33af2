/- GID: HasherPriv/IoLoop/X11Key
   layer: input and output loop
   source: parent.c, child.c, caller_config.c
   digest: Which keys the parent decodes, against the keys that the child encodes. -/

import HasherPriv.Config.Environment
import HasherPriv.Foundations.Memory
import HasherPriv.Foundations.Scanning
import HasherPriv.IoLoop.Parent

set_option autoImplicit false
set_option relaxedAutoImplicit false

namespace HasherPriv.IoLoop.X11Key

open Foundations.ByteString (Bytes)
open Foundations.Memory
open Foundations.Numerals
open Foundations.Program
open Foundations.Scanning
open Config.Environment (x11Setup x11ParseDisplay)
open Calls
open Parent

/-! The two loops. -/

/-- The loop of `handle_x11_ctl` over the block for `x11_saved_data`. -/
def decodeLoop (scan : Bytes → Option UInt8) (key : Bytes) : ℕ → ℕ → Bytes → Except String Bytes
  | 0, _, saved => .ok saved
  | k + 1, i, saved =>
      match scan (key.drop (2 * i)) with
      | none => .error "Invalid X11 authentication data\r"
      | some value => decodeLoop scan key k (i + 1) (saved.set i value)

def decodeKey (c : Setup) (saved : Bytes) : Except String Bytes :=
  decodeLoop c.scanHex c.x11Key c.x11DataLen 0 saved

/-- `snprintf` of `"%02x"` into what is left of a buffer. -/
def snprintf02x (size : ℕ) (b : UInt8) : Bytes :=
  if size = 0 then [] else (twoDigits b).take (size - 1) ++ [0]

/-- The loop of `xauth_gen_fake` over the block for `new_key`. -/
def encodeLoop (data : Bytes) : ℕ → ℕ → Bytes → Option Bytes
  | 0, _, newKey => some newKey
  | k + 1, i, newKey => do
      let text := snprintf02x (newKey.length - 2 * i) (← data[i]?)
      encodeLoop data k (i + 1) (← store newKey (2 * i) text)

def encodeKey (data newKey : Bytes) : Option Bytes := encodeLoop data data.length 0 newKey

/-! What they compute. -/

/-- The block is filled from its front, whatever was in it. -/
theorem decodeLoop_eq {scan : Bytes → Option UInt8} {key saved : Bytes} {k i : ℕ}
    (hlen : saved.length = i + k) : decodeLoop scan key k i saved =
      match (List.range' i k).mapM fun j => scan (key.drop (2 * j)) with
      | none => .error "Invalid X11 authentication data\r"
      | some values => .ok (saved.take i ++ values) := by
  induction k generalizing i saved with
  | zero =>
      rw [Nat.add_zero] at hlen
      show Except.ok saved = Except.ok (saved.take i ++ [])
      rw [List.append_nil, ← hlen, List.take_length]
  | succ k ih =>
      rw [decodeLoop, List.range'_succ, List.mapM_cons]
      cases hscan : scan (key.drop (2 * i)) with
      | none => rfl
      | some value =>
          have hset : (saved.set i value).length = i + 1 + k := by
            rw [List.length_set]
            omega
          have hlt : i < saved.length := by omega
          have hfront : (saved.set i value).take (i + 1) = saved.take i ++ [value] := by
            rw [List.take_add_one, List.getElem?_set_self hlt, List.take_set_of_le le_rfl]
            rfl
          show decodeLoop scan key k (i + 1) (saved.set i value) = _
          rw [ih hset]
          cases hrest : (List.range' (i + 1) k).mapM fun j => scan (key.drop (2 * j)) with
          | none => simp
          | some values => simp [hfront]

/-- The loop gives what the handler of the control descriptor goes on with. -/
theorem decodeKey_eq {c : Setup} {saved : Bytes} (hlen : saved.length = c.x11DataLen) :
    decodeKey c saved =
      match savedData c with
      | none => .error "Invalid X11 authentication data\r"
      | some values => .ok values := by
  rw [decodeKey, decodeLoop_eq (by rw [hlen, Nat.zero_add]), savedData, List.range_eq_range']
  rfl

theorem handleX11Ctl_invalid {c : Setup} {saved : Bytes} {message : String} (ctlFd : ℤ)
    (hlen : saved.length = c.x11DataLen) (h : decodeKey c saved = .error message) :
    handleX11Ctl c ctlFd = .ret (-1, none) := by
  rw [decodeKey_eq hlen] at h
  unfold handleX11Ctl
  split
  · rfl
  · next values hvalues =>
      rw [hvalues] at h
      cases h

theorem twoDigits_length (data : Bytes) : (data.flatMap twoDigits).length = 2 * data.length := by
  induction data with
  | nil => rfl
  | cons b data ih =>
      rw [List.flatMap_cons, List.length_append, ih, List.length_cons]
      show 2 + 2 * data.length = 2 * (data.length + 1)
      omega

/-- Before the byte `i` there are the digits of the bytes before it; behind the last digits there is
the end of the string. -/
theorem encodeLoop_eq {data rest : Bytes} {k i : ℕ} (hi : data.length = i + k)
    (hrest : rest.length = 2 * k + 1) (hend : k = 0 → rest = [0]) :
    encodeLoop data k i ((data.take i).flatMap twoDigits ++ rest) =
      some (data.flatMap twoDigits ++ [0]) := by
  induction k generalizing i rest with
  | zero =>
      rw [encodeLoop, hend rfl, ← Nat.add_zero i, ← hi, List.take_length]
  | succ k ih =>
      have hlt : i < data.length := by omega
      have hfront : ((data.take i).flatMap twoDigits).length = 2 * i := by
        rw [twoDigits_length, List.length_take_of_le (Nat.le_of_lt hlt)]
      obtain ⟨x, y, z, rest, rfl⟩ : ∃ x y z rest', rest = x :: y :: z :: rest' := by
        match rest with
        | [] => cases hrest
        | [x] => simp at hrest
        | [x, y] => simp at hrest
        | x :: y :: z :: rest => exact ⟨x, y, z, rest, rfl⟩
      rw [List.length_cons, List.length_cons, List.length_cons] at hrest
      have htext : snprintf02x (((data.take i).flatMap twoDigits ++ x :: y :: z :: rest).length -
          2 * i) data[i] = twoDigits data[i] ++ [0] := by
        have hsize : ((data.take i).flatMap twoDigits ++ x :: y :: z :: rest).length - 2 * i =
            2 * k + 2 + 1 := by
          rw [List.length_append, hfront, List.length_cons, List.length_cons, List.length_cons]
          omega
        rw [snprintf02x, hsize, if_neg (Nat.succ_ne_zero _), Nat.add_sub_cancel,
          List.take_of_length_le (Nat.le_add_left 2 _)]
      have hstore : store ((data.take i).flatMap twoDigits ++ [x, y, z] ++ rest) (2 * i)
          (twoDigits data[i] ++ [0]) =
          some ((data.take i).flatMap twoDigits ++ (twoDigits data[i] ++ [0]) ++ rest) := by
        rw [← hfront]
        exact store_middle _ rfl
      have hnext : (data.take i).flatMap twoDigits ++ (twoDigits data[i] ++ [0]) ++ rest =
          (data.take (i + 1)).flatMap twoDigits ++ (0 :: rest) := by
        rw [List.take_succ_eq_append_getElem hlt, List.flatMap_append]
        simp
      rw [encodeLoop, List.getElem?_eq_getElem hlt]
      simp only [Option.bind_eq_bind, Option.bind_some]
      rw [htext]
      have hsame : (data.take i).flatMap twoDigits ++ x :: y :: z :: rest =
          (data.take i).flatMap twoDigits ++ [x, y, z] ++ rest := by
        rw [List.append_assoc]
        rfl
      rw [hsame, hstore, Option.bind_some, hnext]
      apply ih
      · omega
      · rw [List.length_cons]
        omega
      · intro hk
        rw [List.eq_nil_of_length_eq_zero (show rest.length = 0 by omega)]

/-- The digits of all bytes and the end of the string, whatever was in the block. -/
theorem encodeKey_eq {data newKey : Bytes} (hne : data ≠ [])
    (hlen : newKey.length = 2 * data.length + 1) :
    encodeKey data newKey = some (data.flatMap twoDigits ++ [0]) := by
  apply encodeLoop_eq (i := 0)
  · exact (Nat.zero_add _).symm
  · exact hlen
  · intro hzero
    exact absurd (List.eq_nil_of_length_eq_zero hzero) hne

/-! Keys. -/

def Hexadecimal (key : Bytes) : Prop := ∀ d ∈ key, isHex d = true

/-- `sscanf` with `"%2x"` stores an `unsigned`, of which the low byte is kept. -/
def Conforming (scan : Bytes → Option UInt8) : Prop :=
  ∀ s b, scan s = some b ↔ ∃ v, Stores 2 s v ∧ b = UInt8.ofNat (v % 2 ^ 32).toNat

/-- The key is decoded just when it is hexadecimal, into what the encoder makes it from, and is
refused otherwise. -/
def DecodesExactly (c : Setup) : Prop :=
  ∀ saved, saved.length = c.x11DataLen →
    ((∃ values, decodeKey c saved = .ok values) ↔ Hexadecimal c.x11Key) ∧
    (∀ values, decodeKey c saved = .ok values → values.length = c.x11DataLen ∧
      ∀ newKey, newKey.length = 2 * values.length + 1 →
        encodeKey values newKey = some (c.x11Key.map toLower ++ [0])) ∧
    (¬ Hexadecimal c.x11Key → decodeKey c saved = .error "Invalid X11 authentication data\r")

section Keys

variable {scan : Bytes → Option UInt8}

theorem Conforming.eq_none (h : Conforming scan) {s : Bytes} :
    scan s = none ↔ scansTwo s = false := by
  rw [← scanHex_two_isSome, Option.isSome_eq_false_iff, Option.isNone_iff_eq_none]
  constructor
  · intro hnone
    apply Option.eq_none_iff_forall_ne_some.mpr
    intro v hv
    have hsome := (h s _).mpr ⟨v, scanHex_iff.mp hv, rfl⟩
    rw [hnone] at hsome
    cases hsome
  · intro hnone
    apply Option.eq_none_iff_forall_ne_some.mpr
    intro b hb
    obtain ⟨v, hv, -⟩ := (h s b).mp hb
    rw [← scanHex_iff, hnone] at hv
    cases hv

theorem Conforming.digits (h : Conforming scan) {a b : UInt8} {m n : ℕ} (ha : hexValue a = some m)
    (hb : hexValue b = some n) (rest : Bytes) :
    scan (a :: b :: rest) = some (UInt8.ofNat (16 * m + n)) := by
  apply (h _ _).mpr
  refine ⟨_, scanHex_iff.mp (scanHex_digits ha hb rest), ?_⟩
  have hm := (lowerDigit_hexValue ha).1
  have hn := (lowerDigit_hexValue hb).1
  congr 1
  omega

theorem mapM_eq_none {f : ℕ → Option UInt8} {l : List ℕ} :
    l.mapM f = none ↔ ∃ i ∈ l, f i = none := by
  induction l with
  | nil =>
      apply iff_of_false
      · intro h
        cases h
      · rintro ⟨i, hi, -⟩
        cases hi
  | cons i l ih =>
      rw [List.mapM_cons]
      cases hf : f i with
      | none => exact iff_of_true rfl ⟨i, List.mem_cons_self, hf⟩
      | some b =>
          have hrest : (do let rest ← l.mapM f; pure (b :: rest)) = none ↔ l.mapM f = none := by
            cases l.mapM f with
            | none => exact iff_of_true rfl rfl
            | some rest => exact iff_of_false (fun h => by cases h) (fun h => by cases h)
          rw [Option.bind_eq_bind, Option.bind_some, hrest, ih, List.exists_mem_cons_iff, hf]
          exact (or_iff_right (fun h => by cases h)).symm

/-- Two digits after the other. -/
theorem decodes_of_hexadecimal (h : Conforming scan) {n : ℕ} {key : Bytes}
    (hlen : key.length = 2 * n) (hhex : Hexadecimal key) :
    ∃ values, (List.range n).mapM (fun i => scan (key.drop (2 * i))) = some values ∧
      values.flatMap twoDigits = key.map toLower := by
  induction n generalizing key with
  | zero =>
      refine ⟨[], rfl, ?_⟩
      rw [List.eq_nil_of_length_eq_zero hlen]
      rfl
  | succ n ih =>
      match key with
      | [] => cases hlen
      | [a] =>
          rw [List.length_singleton] at hlen
          omega
      | a :: b :: rest =>
          obtain ⟨ha, htail⟩ := List.forall_mem_cons.mp hhex
          obtain ⟨hb, hrest⟩ := List.forall_mem_cons.mp htail
          obtain ⟨m, hm⟩ := Option.isSome_iff_exists.mp ha
          obtain ⟨k, hk⟩ := Option.isSome_iff_exists.mp hb
          have hlen' : rest.length = 2 * n := by
            rw [List.length_cons, List.length_cons] at hlen
            omega
          obtain ⟨values, hvalues, hencoded⟩ := ih hlen' hrest
          refine ⟨UInt8.ofNat (16 * m + k) :: values, ?_, ?_⟩
          · have hscan : scan ((a :: b :: rest).drop (2 * 0)) = some (UInt8.ofNat (16 * m + k)) :=
              h.digits hm hk rest
            have hmap : ((List.range n).map Nat.succ).mapM
                (fun i => scan ((a :: b :: rest).drop (2 * i))) = some values := by
              rw [List.mapM_map]
              exact hvalues
            rw [List.range_succ_eq_map, List.mapM_cons, hscan, hmap]
            rfl
          · rw [List.flatMap_cons, twoDigits_pair hm hk, hencoded]
            rfl

theorem decodeKey_ok {c : Setup} {saved values : Bytes} (hlen : saved.length = c.x11DataLen) :
    decodeKey c saved = .ok values ↔ savedData c = some values := by
  rw [decodeKey_eq hlen]
  cases savedData c with
  | none => exact iff_of_false (fun h => by cases h) (fun h => by cases h)
  | some decoded =>
      constructor
      · intro h
        rw [Except.ok.inj h]
      · intro h
        rw [Option.some.inj h]

theorem decodeKey_error {c : Setup} {saved : Bytes} (hscan : Conforming c.scanHex)
    (hlen : saved.length = c.x11DataLen) :
    decodeKey c saved = .error "Invalid X11 authentication data\r" ↔
      ∃ i < c.x11DataLen, scansTwo (c.x11Key.drop (2 * i)) = false := by
  have hnone : savedData c = none ↔
      ∃ i < c.x11DataLen, scansTwo (c.x11Key.drop (2 * i)) = false := by
    simp only [savedData, mapM_eq_none, List.mem_range, hscan.eq_none]
  rw [decodeKey_eq hlen, ← hnone]
  cases savedData c with
  | none => exact iff_of_true rfl rfl
  | some values => exact iff_of_false (fun h => by cases h) (fun h => by cases h)

end Keys

/-- With a display that is accepted the key is kept, and half of its length. -/
theorem x11Setup_accepted {x : Config.Environment.X11} {display key : Bytes} {n : ℕ}
    (hdisplay : x.display = some display) (hkey : x.key = some key) (hlen : key.length = 2 * n)
    (hn : 0 < n) (haccepted : (x11ParseDisplay { x with dataLen := n }).2 = .ok ()) :
    (x11Setup x).1.key = some key ∧ (x11Setup x).1.dataLen = n := by
  have heven : ¬ key.length % 2 = 1 := by omega
  have hhalf : key.length / 2 = n := by omega
  cases hparse : x11ParseDisplay { x with dataLen := n } with
  | mk y r =>
      have hr : r = .ok () := by
        rw [hparse] at haccepted
        exact haccepted
      subst hr
      obtain ⟨-, hkey', hlen', -⟩ := Config.Environment.x11ParseDisplay_ok hparse
      have hpositive : y.dataLen ≠ 0 := by
        rw [hlen']
        exact Nat.ne_of_gt hn
      have hsetup : x11Setup x = (y, []) := by
        unfold x11Setup
        simp only [hdisplay, hkey] at hparse ⊢
        rw [if_neg heven, hhalf, hparse]
        show (if y.dataLen = 0 then _ else y, _) = (y, [])
        rw [if_neg hpositive]
      rw [hsetup]
      exact ⟨hkey'.trans hkey, hlen'⟩

/-- For every key of even length that is not empty, with a display that is accepted, and every
`sscanf` that behaves as in the standard: the key is decoded as `DecodesExactly` says just when it
is hexadecimal, or the text from some pair on does not convert. That is when there is neither a
digit behind its blanks, but for the one of a `0x`, nor a sign with a digit. Where the key is
refused, `handle_x11_ctl` makes no call. -/
theorem key_decoding_iff {x : Config.Environment.X11} {display key : Bytes} {n : ℕ} {c : Setup}
    (hscan : Conforming c.scanHex) (hdisplay : x.display = some display) (hkey : x.key = some key)
    (hlen : key.length = 2 * n) (hn : 0 < n)
    (haccepted : (x11ParseDisplay { x with dataLen := n }).2 = .ok ())
    (hc : (x11Setup x).1.key = some c.x11Key ∧ (x11Setup x).1.dataLen = c.x11DataLen) :
    (DecodesExactly c ↔
      Hexadecimal key ∨ ∃ i < n, scansTwo (key.drop (2 * i)) = false) ∧
    ∀ saved message ctlFd, saved.length = c.x11DataLen → decodeKey c saved = .error message →
      handleX11Ctl c ctlFd = .ret (-1, none) := by
  obtain ⟨hkept, hdataLen⟩ := x11Setup_accepted hdisplay hkey hlen hn haccepted
  have hckey : c.x11Key = key := Option.some.inj (hc.1.symm.trans hkept)
  have hclen : c.x11DataLen = n := hc.2.symm.trans hdataLen
  rw [← hckey, ← hclen]
  rw [← hckey, ← hclen] at hlen
  refine ⟨?_, fun _ _ ctlFd => handleX11Ctl_invalid ctlFd⟩
  constructor
  · intro hexact
    by_cases hhex : Hexadecimal c.x11Key
    · exact Or.inl hhex
    · have hblock : (List.replicate c.x11DataLen (0 : UInt8)).length = c.x11DataLen :=
        List.length_replicate
      obtain ⟨-, -, hrefused⟩ := hexact _ hblock
      exact Or.inr ((decodeKey_error hscan hblock).mp (hrefused hhex))
  · intro hcondition saved hblock
    by_cases hhex : Hexadecimal c.x11Key
    · obtain ⟨values, hvalues, hencoded⟩ := decodes_of_hexadecimal hscan hlen hhex
      have hok : decodeKey c saved = .ok values := (decodeKey_ok hblock).mpr hvalues
      refine ⟨iff_of_true ⟨values, hok⟩ hhex, ?_, fun hnot => absurd hhex hnot⟩
      intro values' hok'
      have hsame : values' = values := Except.ok.inj (hok'.symm.trans hok)
      have hlength : values.length = c.x11DataLen := savedData_length hvalues
      rw [hsame]
      refine ⟨hlength, ?_⟩
      intro newKey hnew
      have hne : values ≠ [] := by
        rintro rfl
        rw [List.length_nil] at hlength
        omega
      rw [encodeKey_eq hne hnew, hencoded]
    · have herror := (decodeKey_error hscan hblock).mpr (hcondition.resolve_left hhex)
      refine ⟨iff_of_false ?_ hhex, ?_, fun _ => herror⟩
      · rintro ⟨values, hok⟩
        rw [herror] at hok
        cases hok
      · intro values hok
        rw [herror] at hok
        cases hok

/-! The key `a7`, and the key `+7`. -/

def scanByte (s : Bytes) : Option UInt8 :=
  (scanHex 2 s).map fun v => UInt8.ofNat (v % 2 ^ 32).toNat

theorem scanByte_conforming : Conforming scanByte := by
  intro s b
  rw [scanByte, Option.map_eq_some_iff]
  constructor
  · rintro ⟨v, hv, rfl⟩
    exact ⟨v, scanHex_iff.mp hv, rfl⟩
  · rintro ⟨v, hv, rfl⟩
    exact ⟨v, scanHex_iff.mpr hv, rfl⟩

private def display0 : Bytes := [58, 48]

private def keyed (key : Bytes) : Config.Environment.X11 :=
  { display := some display0, key := some key }

private def keySetup (key : Bytes) : Setup :=
  { wlimit := {}, usePty := false, ptyFd := -1, logFd := -1, x11Key := key, x11DataLen := 1
    scanHex := scanByte }

theorem key_decoding_iff_sample : DecodesExactly (keySetup [97, 55]) := by
  have hiff := key_decoding_iff (c := keySetup [97, 55]) (x := keyed [97, 55]) (n := 1)
    scanByte_conforming rfl rfl rfl Nat.one_pos (by decide) (by decide)
  apply hiff.1.mpr
  apply Or.inl
  exact List.forall_mem_cons.mpr ⟨rfl, List.forall_mem_singleton.mpr rfl⟩

/-- The second key is decoded as well. -/
theorem key_decoding_counterexample :
    ((x11Setup (keyed [43, 55])).1.key = some (keySetup [43, 55]).x11Key ∧
      (x11Setup (keyed [43, 55])).1.dataLen = (keySetup [43, 55]).x11DataLen) ∧
    Conforming (keySetup [43, 55]).scanHex ∧ ¬ DecodesExactly (keySetup [43, 55]) := by
  refine ⟨by decide, scanByte_conforming, ?_⟩
  intro h
  obtain ⟨hiff, -, -⟩ := h [0] rfl
  have hhex : Hexadecimal [43, 55] := hiff.mp ⟨[7], rfl⟩
  have hsign := hhex 43 List.mem_cons_self
  cases hsign

end HasherPriv.IoLoop.X11Key
