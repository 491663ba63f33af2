/- GID: HasherPriv/Foundations/Masks
   layer: library
   source: none
   digest: Words that commands set and clear bits of: the last command to mention a bit decides. -/

import Mathlib.Data.List.Basic
import Mathlib.Tactic

set_option autoImplicit false
set_option relaxedAutoImplicit false

namespace HasherPriv.Foundations.Masks

/-- Set the bits of a mask, or clear them. -/
structure Command (w : ℕ) where
  clear : Bool
  mask : BitVec w

variable {w : ℕ}

def Command.apply (word : BitVec w) (c : Command w) : BitVec w :=
  if c.clear then word &&& ~~~c.mask else word ||| c.mask

/-- The state that the command gives to a bit. -/
def Command.mention (c : Command w) (i : ℕ) : Option Bool :=
  if c.mask.getLsbD i then some (!c.clear) else none

/-- The state that the last command to mention a bit gives to it. -/
def lastMention (cs : List (Command w)) (i : ℕ) : Option Bool :=
  (cs.filterMap (Command.mention · i)).getLast?

theorem lastMention_cons (c : Command w) (cs : List (Command w)) (i : ℕ) :
    lastMention (c :: cs) i = (lastMention cs i).or (c.mention i) := by
  unfold lastMention
  rw [List.filterMap_cons]
  cases hc : c.mention i with
  | none => rw [Option.or_none]
  | some b =>
      dsimp only
      rw [List.getLast?_cons]
      cases (cs.filterMap (Command.mention · i)).getLast? with
      | none => rfl
      | some b' => rfl

/-- A bit that is in no mask is not mentioned. -/
theorem lastMention_of_free {cs : List (Command w)} {i : ℕ}
    (h : ∀ c ∈ cs, c.mask.getLsbD i = false) : lastMention cs i = none := by
  have hnone : cs.filterMap (Command.mention · i) = [] := by
    rw [List.filterMap_eq_nil_iff]
    intro c hc
    rw [Command.mention, h c hc]
    rfl
  rw [lastMention, hnone, List.getLast?_nil]

theorem getLsbD_apply (word : BitVec w) (c : Command w) (i : ℕ) :
    (c.apply word).getLsbD i = (c.mention i).getD (word.getLsbD i) := by
  unfold Command.apply Command.mention
  by_cases hi : c.mask.getLsbD i = true
  · have hlt : i < w := BitVec.lt_of_getLsbD hi
    cases c.clear
    · simp [hi]
    · simp [hi, hlt]
  · have hclear : c.mask.getLsbD i = false := Bool.eq_false_iff.mpr hi
    cases c.clear
    · simp [hclear]
    · by_cases hlt : i < w
      · simp only [if_true, BitVec.getLsbD_and, BitVec.getLsbD_not, hclear, hlt]
        simp
      · have hout : word.getLsbD i = false := BitVec.getLsbD_of_ge word i (Nat.not_lt.mp hlt)
        simp [hclear, hout]

/-- A bit is in the state of its last mention, or as it was. -/
theorem getLsbD_foldl_apply (cs : List (Command w)) (word : BitVec w) (i : ℕ) :
    (cs.foldl Command.apply word).getLsbD i = (lastMention cs i).getD (word.getLsbD i) := by
  induction cs generalizing word with
  | nil => rfl
  | cons c cs ih =>
      rw [List.foldl_cons, ih, lastMention_cons]
      cases lastMention cs i with
      | none => exact getLsbD_apply word c i
      | some b => rfl

end HasherPriv.Foundations.Masks
