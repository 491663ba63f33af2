/- GID: HasherPriv/Foundations/StringBuffer
   layer: library
   source: none
   digest: C strings inside allocated blocks: their length, concatenation and reallocation. -/

import HasherPriv.Foundations.ByteString
import HasherPriv.Foundations.Memory

set_option autoImplicit false
set_option relaxedAutoImplicit false

namespace HasherPriv.Foundations.StringBuffer

open ByteString (Bytes)
open Memory

/-- The block starts with this string and its terminator. -/
def Holds (block s : Bytes) : Prop := 0 ∉ s ∧ ∃ rest, block = s ++ 0 :: rest

/-- `strlen`; `none` where it runs out of the block. -/
def strlen (block : Bytes) : Option ℕ := seek (· = 0) block 0

/-- `strcat`; `none` where it accesses anything outside the block. -/
def strcat (block s : Bytes) : Option Bytes := do
  let n ← strlen block
  store block n (s ++ [0])

/-- The string in a block. -/
def content (block : Bytes) : Bytes := block.takeWhile (· ≠ 0)

variable {block new s t : Bytes} {size : ℕ}

theorem Holds.length_lt (h : Holds block s) : s.length < block.length := by
  obtain ⟨-, rest, rfl⟩ := h
  rw [List.length_append, List.length_cons]
  omega

theorem Holds.content_eq (h : Holds block s) : content block = s := by
  obtain ⟨hs, rest, rfl⟩ := h
  have hall : ∀ b ∈ s, decide (b ≠ 0) = true := by
    intro b hb
    exact decide_eq_true fun h0 : b = 0 => hs (h0 ▸ hb)
  rw [content, List.takeWhile_append_of_pos hall, List.takeWhile_cons_of_neg (by simp),
    List.append_nil]

theorem Holds.strlen_eq (h : Holds block s) : strlen block = some s.length := by
  obtain ⟨hs, rest, rfl⟩ := h
  have hall : ∀ b ∈ s, decide (b = 0) = false := by
    intro b hb
    exact decide_eq_false fun h0 : b = 0 => hs (h0 ▸ hb)
  have hseek : seek (fun b : UInt8 => decide (b = 0)) ([] ++ s ++ 0 :: rest) 0 =
      some (0 + s.length) := seek_middle [] hall (decide_eq_true rfl)
  rw [Nat.zero_add] at hseek
  exact hseek

/-- There is room for the string and the terminator. -/
theorem Holds.strcat_eq (h : Holds block s) (ht : 0 ∉ t)
    (hroom : s.length + t.length < block.length) :
    ∃ new, strcat block t = some new ∧ Holds new (s ++ t) ∧ new.length = block.length := by
  have hlen := h.strlen_eq
  obtain ⟨hs, rest, rfl⟩ := h
  have htext : (t ++ [0]).length = t.length + 1 := List.length_append
  have hfits : s.length + (t ++ [0]).length ≤ (s ++ 0 :: rest).length := by omega
  have hstore := store_eq hfits
  rw [List.take_left, ← List.append_assoc s, List.append_assoc (s ++ t),
    List.singleton_append] at hstore
  refine ⟨_, ?_, ⟨?_, _, rfl⟩, store_length hstore⟩
  · rw [strcat, hlen]
    exact hstore
  · rw [List.mem_append]
    exact fun hmem => hmem.elim hs ht

/-- A block that is large enough for it keeps its string. -/
theorem Holds.realloc (h : Holds block s) (hnew : Reallocated block size new)
    (hroom : s.length < size) : Holds new s := by
  obtain ⟨hsize, htake⟩ := hnew
  have hlt := h.length_lt
  obtain ⟨hs, rest, rfl⟩ := h
  have hmin : s.length + 1 ≤ min (s ++ 0 :: rest).length size := by omega
  have hfront : new.take (s.length + 1) = s ++ [0] := by
    have hcut := congrArg (List.take (s.length + 1)) htake
    rw [List.take_take, List.take_take, Nat.min_eq_left hmin] at hcut
    rw [hcut, List.take_append, List.take_of_length_le (Nat.le_succ _), Nat.add_sub_cancel_left]
    rfl
  refine ⟨hs, new.drop (s.length + 1), ?_⟩
  calc new = new.take (s.length + 1) ++ new.drop (s.length + 1) :=
        (List.take_append_drop _ _).symm
    _ = s ++ 0 :: new.drop (s.length + 1) := by
        rw [hfront, List.append_assoc, List.singleton_append]

end HasherPriv.Foundations.StringBuffer
