/- GID: HasherPriv/Config/NumericOptions
   layer: configuration
   source: opt_parse.c, caller_config.c
   digest: Which values of numeric options are exact or rejected, and which come out as another number. -/

import HasherPriv.Config.CallerConfig
import HasherPriv.Foundations.Denotation

set_option autoImplicit false
set_option relaxedAutoImplicit false

namespace HasherPriv.Config.NumericOptions

open Foundations.ByteString
open Foundations.Denotation
open Foundations.Numerals
open CallerConfig

/-- The value is rejected, or comes out as a number that it stands for. -/
def ExactOrRejected (r : Except String ℕ) (stands : ℤ → Prop) : Prop := ∀ n, r = .ok n → stands n

/-- What the value of a resource limit stands for. -/
def Limit (value : Bytes) (z : ℤ) : Prop :=
  (strcaseEq value (str "inf") = true ∧ z = rlimInfinity) ∨ Denotes 10 value z

/-! What is accepted. -/

/-- The parsers with `strtoul`, which differ in the last check. -/
theorem strtoul_accepts {base n : ℕ} {name value fname : Bytes} {reject : Scanned ℕ → Prop}
    [DecidablePred reject] :
    (if value = [] ∨ (strtoul base value).rest ≠ [] ∨ reject (strtoul base value) then
        optBadValue name value fname
      else .ok (strtoul base value).value : Except String ℕ) = .ok n ↔
      ∃ z, Denotes base value z ∧ n = wrapped z ∧
        ¬ reject ⟨wrapped z, [], decide (ulongMax < z.natAbs)⟩ := by
  constructor
  · intro h
    split_ifs at h with hbad
    · cases h
    · rw [not_or, not_or, not_not] at hbad
      obtain ⟨z, hz⟩ := strtoul_rest hbad.1 hbad.2.1
      rw [strtoul_of_denotes hz] at h hbad
      exact ⟨z, hz, (Except.ok.inj h).symm, hbad.2.2⟩
  · rintro ⟨z, hz, rfl, hok⟩
    have hgood : ¬ (value = [] ∨ (strtoul base value).rest ≠ [] ∨ reject (strtoul base value)) := by
      rw [strtoul_of_denotes hz, not_or, not_or, not_not]
      exact ⟨hz.ne_nil, rfl, hok⟩
    rw [if_neg hgood, strtoul_of_denotes hz]

/-- A bound below the greatest number also rejects what is too large for the scanner. -/
private theorem not_lt_wrapped {bound : ℕ} (hbound : bound < ulongMax) (z : ℤ) :
    ¬ bound < wrapped z ↔ z.natAbs ≤ ulongMax ∧ wrapped z ≤ bound := by
  by_cases hlarge : ulongMax < z.natAbs
  · have hmax : wrapped z = ulongMax := if_pos hlarge
    rw [hmax]
    omega
  · omega

theorem str2umask_eq_ok {name value fname : Bytes} {n : ℕ} :
    str2umask name value fname = .ok n ↔ ∃ z, Denotes 8 value z ∧ n = wrapped z ∧
      z.natAbs ≤ ulongMax ∧ wrapped z ≤ 0o777 := by
  refine (@strtoul_accepts 8 n name value fname (fun s => 0o777 < s.value) _).trans ?_
  simp only [not_lt_wrapped (show 0o777 < ulongMax by decide)]

theorem str2nice_eq_ok {name value fname : Bytes} {n : ℕ} :
    str2nice name value fname = .ok n ↔ ∃ z, Denotes 10 value z ∧ n = wrapped z ∧
      z.natAbs ≤ ulongMax ∧ wrapped z ≤ 19 := by
  refine (@strtoul_accepts 10 n name value fname (fun s => 19 < s.value) _).trans ?_
  simp only [not_lt_wrapped (show 19 < ulongMax by decide)]

theorem wrapped_le (z : ℤ) : wrapped z ≤ ulongMax := by
  unfold wrapped
  split_ifs
  · exact Nat.le_refl _
  · unfold ulongMax
    omega

private theorem not_saturated (z : ℤ) :
    ¬ (wrapped z = ulongMax ∧ decide (ulongMax < z.natAbs) = true) ↔
      z.natAbs ≤ ulongMax ∧ wrapped z ≤ ulongMax := by
  rw [decide_eq_true_iff]
  constructor
  · intro h
    refine ⟨?_, wrapped_le z⟩
    by_contra hlarge
    have hlt : ulongMax < z.natAbs := Nat.lt_of_not_le hlarge
    exact h ⟨if_pos hlt, hlt⟩
  · rintro ⟨hle, -⟩ ⟨-, hlt⟩
    omega

theorem optStr2ul_eq_ok {name value fname : Bytes} {n : ℕ} :
    optStr2ul name value fname = .ok n ↔ ∃ z, Denotes 10 value z ∧ n = wrapped z ∧
      z.natAbs ≤ ulongMax ∧ wrapped z ≤ ulongMax := by
  refine (@strtoul_accepts 10 n name value fname
    (fun s => s.value = ulongMax ∧ s.erange = true) _).trans ?_
  simp only [not_saturated]

theorem str2nproc_eq_ok {name value fname : Bytes} {n : ℕ} :
    str2nproc name value fname = .ok n ↔ ∃ z, Denotes 10 value z ∧ n = (clamped z).toNat ∧
      1 ≤ clamped z := by
  unfold str2nproc
  dsimp only
  constructor
  · intro h
    split_ifs at h with hbad
    · cases h
    · rw [not_or, not_or, not_not, not_lt] at hbad
      obtain ⟨z, hz⟩ := strtol_rest hbad.1 hbad.2.1
      rw [(strtol_of_denotes hz).1] at h hbad
      exact ⟨z, hz, (Except.ok.inj h).symm, hbad.2.2⟩
  · rintro ⟨z, hz, rfl, hok⟩
    have hgood : ¬ (value = [] ∨ (strtol 10 value).rest ≠ [] ∨ (strtol 10 value).value < 1) := by
      rw [(strtol_of_denotes hz).1, (strtol_of_denotes hz).2, not_or, not_or, not_not, not_lt]
      exact ⟨hz.ne_nil, rfl, hok⟩
    rw [if_neg hgood, (strtol_of_denotes hz).1]

/-- A number ends in a digit, so it is not the word. -/
theorem not_inf_of_denotes {value : Bytes} {z : ℤ} (h : Denotes 10 value z) :
    strcaseEq value (str "inf") = false := by
  obtain ⟨d, hlast, hd⟩ := h.last
  obtain ⟨-, hhi⟩ := of_decide_eq_true hd
  apply decide_eq_false
  intro heq
  have hend := congrArg List.getLast? heq
  rw [List.getLast?_map, hlast] at hend
  have hlower : toLower d = 102 := Option.some.inj hend
  have hsame : toLower d = d := by
    apply if_neg
    rintro ⟨hlo, -⟩
    rw [UInt8.le_iff_toNat_le] at hlo
    have hlo' : 65 ≤ d.toNat := hlo
    omega
  rw [hsame] at hlower
  rw [hlower] at hhi
  exact absurd hhi (by decide)

theorem str2rlim_of_inf {name value fname : Bytes} (h : strcaseEq value (str "inf") = true) :
    str2rlim name value fname = .ok rlimInfinity := by
  have hne : value ≠ [] := by
    rintro rfl
    revert h
    decide
  unfold str2rlim
  dsimp only
  rw [if_neg hne, if_pos h]

theorem str2rlim_of_not_inf {name value fname : Bytes}
    (h : strcaseEq value (str "inf") = false) :
    str2rlim name value fname = optStr2ul name value fname := by
  unfold str2rlim optStr2ul
  dsimp only
  by_cases hnil : value = []
  · rw [if_pos hnil, if_pos (Or.inl hnil)]
  · rw [if_neg hnil, h, if_neg (by decide)]
    simp only [hnil, false_or]

/-! The property. -/

/-- A parser that wraps negative numbers around is exact but for those that end up below its
bound. -/
theorem exactOrRejected_iff {base bound : ℕ} {value : Bytes} {r : Except String ℕ}
    (hbound : bound ≤ ulongMax)
    (h : ∀ n, r = .ok n ↔ ∃ z, Denotes base value z ∧ n = wrapped z ∧ z.natAbs ≤ ulongMax ∧
      wrapped z ≤ bound) :
    ExactOrRejected r (Denotes base value) ↔
      ¬ ∃ v : ℕ, 2 ^ 64 - bound ≤ v ∧ v < 2 ^ 64 ∧ Denotes base value (-v) := by
  constructor
  · rintro hexact ⟨v, hlo, hhi, hv⟩
    have hneg : (-(v : ℤ)) < 0 := by
      unfold ulongMax at hbound
      omega
    have habs : (-(v : ℤ)).natAbs ≤ ulongMax := by
      unfold ulongMax
      omega
    have hwrap := wrapped_of_neg hneg habs
    have hok := (h (wrapped (-v))).mpr ⟨-v, hv, rfl, habs, by omega⟩
    have hsame := (hexact _ hok).unique hv
    omega
  · rintro hnone n hn
    obtain ⟨z, hz, rfl, habs, hle⟩ := (h n).mp hn
    by_cases hneg : z < 0
    · exfalso
      apply hnone
      have hwrap := wrapped_of_neg hneg habs
      refine ⟨z.natAbs, by omega, ?_, ?_⟩
      · unfold ulongMax at habs
        omega
      · have hnat : (-(z.natAbs : ℤ)) = z := by omega
        rw [hnat]
        exact hz
    · have hpos : 0 ≤ z := by omega
      rw [wrapped_of_nonneg hpos (by omega)]
      exact hz

theorem str2nproc_exactOrRejected_iff {name value fname : Bytes} :
    ExactOrRejected (str2nproc name value fname) (Denotes 10 value) ↔
      ¬ ∃ v : ℕ, 2 ^ 63 ≤ v ∧ Denotes 10 value v := by
  constructor
  · rintro hexact ⟨v, hlo, hv⟩
    have hclamp : clamped v = 2 ^ 63 - 1 := by
      unfold clamped
      omega
    have hok : str2nproc name value fname = .ok (clamped v).toNat :=
      str2nproc_eq_ok.mpr ⟨v, hv, rfl, by rw [hclamp]; decide⟩
    have hsame := (hexact _ hok).unique hv
    rw [hclamp] at hsame
    omega
  · rintro hnone n hn
    obtain ⟨z, hz, rfl, hpos⟩ := str2nproc_eq_ok.mp hn
    have hz' : z < 2 ^ 63 := by
      by_contra hlarge
      apply hnone
      refine ⟨z.toNat, by omega, ?_⟩
      rw [Int.toNat_of_nonneg (by omega)]
      exact hz
    have hclamp : clamped z = z := by
      unfold clamped at hpos ⊢
      omega
    rw [hclamp, Int.toNat_of_nonneg (by omega)]
    exact hz

theorem str2rlim_exactOrRejected_iff {name value fname : Bytes} :
    ExactOrRejected (str2rlim name value fname) (Limit value) ↔
      ¬ ∃ v : ℕ, 2 ^ 64 - ulongMax ≤ v ∧ v < 2 ^ 64 ∧ Denotes 10 value (-v) := by
  cases hinf : strcaseEq value (str "inf") with
  | true =>
      rw [str2rlim_of_inf hinf]
      constructor
      · rintro - ⟨v, -, -, hv⟩
        rw [not_inf_of_denotes hv] at hinf
        cases hinf
      · rintro - n hn
        refine Or.inl ⟨hinf, ?_⟩
        rw [← Except.ok.inj hn]
  | false =>
      have hlimit : ∀ z, Limit value z ↔ Denotes 10 value z := by
        intro z
        unfold Limit
        rw [hinf]
        simp
      rw [str2rlim_of_not_inf hinf,
        ← exactOrRejected_iff (Nat.le_refl _) fun n => @optStr2ul_eq_ok name value fname n]
      unfold ExactOrRejected
      simp only [hlimit]

/-- Each parser is exact on all strings but those of one kind: negative numbers that wrap around to
a number that the parser takes, and for `nproc` numbers that `strtol` cannot hold. -/
theorem numeric_options_exact_iff (name value fname : Bytes) :
    (ExactOrRejected (str2umask name value fname) (Denotes 8 value) ↔
      ¬ ∃ v : ℕ, 2 ^ 64 - 0o777 ≤ v ∧ v < 2 ^ 64 ∧ Denotes 8 value (-v)) ∧
    (ExactOrRejected (str2nice name value fname) (Denotes 10 value) ↔
      ¬ ∃ v : ℕ, 2 ^ 64 - 19 ≤ v ∧ v < 2 ^ 64 ∧ Denotes 10 value (-v)) ∧
    (ExactOrRejected (str2nproc name value fname) (Denotes 10 value) ↔
      ¬ ∃ v : ℕ, 2 ^ 63 ≤ v ∧ Denotes 10 value v) ∧
    (ExactOrRejected (str2rlim name value fname) (Limit value) ↔
      ¬ ∃ v : ℕ, 1 ≤ v ∧ v < 2 ^ 64 ∧ Denotes 10 value (-v)) ∧
    (ExactOrRejected (optStr2ul name value fname) (Denotes 10 value) ↔
      ¬ ∃ v : ℕ, 1 ≤ v ∧ v < 2 ^ 64 ∧ Denotes 10 value (-v)) := by
  refine ⟨?_, ?_, str2nproc_exactOrRejected_iff, str2rlim_exactOrRejected_iff, ?_⟩
  · exact exactOrRejected_iff (by decide) fun n => str2umask_eq_ok
  · exact exactOrRejected_iff (by decide) fun n => str2nice_eq_ok
  · exact exactOrRejected_iff (Nat.le_refl _) fun n => optStr2ul_eq_ok

/-- `wlimit_bytes_written=-1` is taken, as the greatest number there is. -/
theorem minus_one_accepted :
    optStr2ul (str "wlimit_bytes_written") (str "-1") (str "system") = .ok (2 ^ 64 - 1) ∧
    ¬ ∀ name value fname : Bytes,
      ExactOrRejected (str2umask name value fname) (Denotes 8 value) ∧
      ExactOrRejected (str2nice name value fname) (Denotes 10 value) ∧
      ExactOrRejected (str2nproc name value fname) (Denotes 10 value) ∧
      ExactOrRejected (str2rlim name value fname) (Limit value) ∧
      ExactOrRejected (optStr2ul name value fname) (Denotes 10 value) := by
  have hok : optStr2ul (str "wlimit_bytes_written") (str "-1") (str "system") = .ok (2 ^ 64 - 1) :=
    rfl
  refine ⟨hok, fun h => ?_⟩
  obtain ⟨-, -, -, -, hexact⟩ := h (str "wlimit_bytes_written") (str "-1") (str "system")
  have hone : Denotes 10 ([] ++ [45] ++ [49]) (-digitsValue 10 [49]) := by
    apply Denotes.negative
    · intro b hb
      cases hb
    · exact List.cons_ne_nil _ _
    · intro d hd
      rw [List.mem_singleton.mp hd]
      decide
  have hsame := (hexact _ hok).unique hone
  revert hsame
  decide

end HasherPriv.Config.NumericOptions
