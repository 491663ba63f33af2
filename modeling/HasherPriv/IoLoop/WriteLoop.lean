/- GID: HasherPriv/IoLoop/WriteLoop
   layer: input and output loop
   source: io_loop.c
   digest: The loop around `write`, and that it does what its callers take for one call. -/

import HasherPriv.Foundations.Expansion
import HasherPriv.IoLoop.Log

set_option autoImplicit false
set_option relaxedAutoImplicit false

namespace HasherPriv.IoLoop.WriteLoop

open Foundations.ByteString (Bytes)
open Foundations.Program
open Foundations.Contracts
open Foundations.Expansion
open Calls

universe u

/-- `write_loop` from `offset` on; each `.write` is one call of `write_retry`. There are at most
`fuel` bytes left. -/
def writeFrom (fd : ℤ) (buffer : Bytes) :
    ℕ → Fin (buffer.length + 1) → IoProg (Option (Fin (buffer.length + 1)))
  | 0, offset => return some offset
  | fuel + 1, offset =>
      if offset.val = buffer.length then return some offset
      else do
        match ← ioCall (.write fd (buffer.drop offset.val)) with
        | none => return if offset.val ≠ 0 then some offset else none
        | some block =>
            if block.val = 0 then return some offset
            else
              writeFrom fd buffer fuel ⟨offset.val + block.val, by
                have hblock := block.isLt
                have hlength := @List.length_drop UInt8 offset.val buffer
                omega⟩

/-- `write_loop`; it returns 0 only if a `write` has, and `none` is an error. -/
def writeLoop (fd : ℤ) (buffer : Bytes) : IoProg (Option (Fin (buffer.length + 1))) :=
  writeFrom fd buffer buffer.length 0

/-- The calls of the handlers, with the loops that carry out their writes. -/
def carriedOut : (o : IoOp) → IoProg (IoRes o)
  | .write fd data => writeLoop fd data
  | .writeAll fd data _ => writeLoop fd data
  | o => ioCall o

/-! A world in which bytes are put on descriptors. -/

/-- A write puts what it reports on the descriptor, and nothing if it fails. -/
structure Writes {W : Type u} (sem : (o : IoOp) → W → IoRes o → W → Prop)
    (put : ℤ → Bytes → W → W) : Prop where
  nothing : ∀ fd w, put fd [] w = w
  append : ∀ fd data data' w, put fd data' (put fd data w) = put fd (data ++ data') w
  write : ∀ fd data w (r : Option (Fin (data.length + 1))) w',
    sem (.write fd data) w r w' ↔ w' = put fd (data.take (r.elim 0 Fin.val)) w
  writeAll : ∀ fd data total w (r : Option (Fin (data.length + 1))) w',
    sem (.writeAll fd data total) w r w' ↔ w' = put fd (data.take (r.elim 0 Fin.val)) w

section Writes

variable {W : Type u} {sem check : (o : IoOp) → W → IoRes o → W → Prop} {put : ℤ → Bytes → W → W}

/-- The loop has put on the descriptor what it reports. -/
theorem writeFrom_ensures (h : Writes sem put) {fd : ℤ} {buffer : Bytes} (w₀ : W) (fuel : ℕ)
    (offset : Fin (buffer.length + 1))
    (hcheck : ∀ data w r w', check (.write fd data) w r w') :
    Ensures sem check (writeFrom fd buffer fuel offset)
      (fun r w' => w' = put fd (buffer.take (r.elim 0 Fin.val)) w₀)
      (put fd (buffer.take offset.val) w₀) := by
  induction fuel generalizing offset with
  | zero => rfl
  | succ fuel ih =>
      rw [writeFrom]
      by_cases hdone : offset.val = buffer.length
      · rw [if_pos hdone]
        rfl
      · rw [if_neg hdone]
        intro r w' hsem
        refine ⟨hcheck _ _ _ _, ?_⟩
        have hput := (h.write _ _ _ _ _).mp hsem
        rw [h.append] at hput
        cases r with
        | none =>
            have hsame : w' = put fd (buffer.take offset.val) w₀ := by
              rw [hput]
              show put fd (_ ++ (buffer.drop offset.val).take 0) w₀ = _
              rw [List.take_zero, List.append_nil]
            by_cases hzero : offset.val ≠ 0
            · simp only [if_pos hzero]
              exact hsame
            · simp only [if_neg hzero]
              rw [not_not.mp hzero] at hsame
              exact hsame
        | some block =>
            have htake : buffer.take offset.val ++ (buffer.drop offset.val).take block.val =
                buffer.take (offset.val + block.val) := (List.take_add).symm
            have hsame : w' = put fd (buffer.take (offset.val + block.val)) w₀ := by
              rw [hput]
              show put fd (_ ++ (buffer.drop offset.val).take block.val) w₀ = _
              rw [htake]
            change Ensures sem check (ite _ _ _) _ w'
            split_ifs with hzero
            · rw [hzero, Nat.add_zero] at hsame
              exact hsame
            · rw [hsame]
              exact ih _

theorem writeLoop_ensures (h : Writes sem put) {fd : ℤ} {buffer : Bytes} (w : W)
    (hcheck : ∀ data w r w', check (.write fd data) w r w') :
    Ensures sem check (writeLoop fd buffer)
      (fun r w' => w' = put fd (buffer.take (r.elim 0 Fin.val)) w) w := by
  have hloop := writeFrom_ensures h w buffer.length (0 : Fin (buffer.length + 1)) hcheck
  have hstart : put fd (buffer.take (0 : Fin (buffer.length + 1)).val) w = w := by
    show put fd (buffer.take 0) w = w
    rw [List.take_zero, h.nothing]
  rw [hstart] at hloop
  exact hloop

/-- The loops do what their callers take for single calls. -/
theorem carriedOut_ensures (h : Writes sem put) {check' : (o : IoOp) → W → IoRes o → W → Prop}
    (hcheck : ∀ fd data w r w', check' (.write fd data) w r w')
    (hsame : ∀ o w r w', check o w r w' → check' o w r w') (o : IoOp) (w : W)
    (ho : ∀ r w', sem o w r w' → check o w r w') :
    Ensures sem check' (carriedOut o) (sem o w) w := by
  have hcall : Ensures sem check' (ioCall o) (sem o w) w := fun r w' hsem =>
    ⟨hsame _ _ _ _ (ho r w' hsem), hsem⟩
  cases o with
  | write fd data =>
      refine (writeLoop_ensures h w (hcheck fd)).mono fun r w' hput => ?_
      exact (h.write _ _ _ _ _).mpr hput
  | writeAll fd data total =>
      refine (writeLoop_ensures h w (hcheck fd)).mono fun r w' hput => ?_
      exact (h.writeAll _ _ _ _ _ _).mpr hput
  | _ => exact hcall

theorem carriedOut_implements (h : Writes sem put) : Implements sem sem carriedOut := by
  intro o w
  exact @carriedOut_ensures W sem (fun _ _ _ _ => True) put h (fun _ _ _ _ => True)
    (fun _ _ _ _ _ => trivial) (fun _ _ _ _ _ => trivial) o w (fun _ _ _ => trivial)

end Writes

end HasherPriv.IoLoop.WriteLoop
