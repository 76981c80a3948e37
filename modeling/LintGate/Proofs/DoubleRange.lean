import LintGate.Number.Double
import Mathlib.Algebra.Order.Field.Power
import Mathlib.Data.Rat.Cast.Order
import Mathlib.Tactic.Positivity

/-! # How large a double can be

A ratio is scaled by a power of two before it is rounded, such that the significand takes at most 53
bits. With the greatest exponent this bounds the whole part of every finite double that is read from
a decimal, however long the decimal is.
-/

namespace LintGate.Number

/-- A ratio of naturals is compared with a power of two on whichever side takes it. -/
theorem mul_pow_lt_iff {num den : Nat} {k : Int} :
    num * Nat.pow 2 (-k).toNat < den * Nat.pow 2 k.toNat ↔ (num : ℚ) < den * 2 ^ k := by
  have hpow : (2 : ℚ) ^ k * 2 ^ (-k).toNat = 2 ^ k.toNat := by
    rw [← zpow_natCast, ← zpow_natCast, ← zpow_add₀ two_ne_zero]
    congr 1
    omega
  have hpos : (0 : ℚ) < 2 ^ (-k).toNat := by positivity
  rw [← mul_lt_mul_iff_left₀ hpos, mul_assoc, hpow]
  exact_mod_cast Iff.rfl

theorem roundDiv_le {num den bound : Nat} (h : num < den * bound) : roundDiv num den ≤ bound := by
  have hquotient : num / den < bound := Nat.div_lt_of_lt_mul h
  rw [roundDiv]
  split_ifs
  · exact Nat.le_of_lt hquotient
  · exact hquotient

theorem natAbs_signed (negative : Bool) (n : Nat) :
    (if negative then -(n : Int) else n).natAbs = n := by
  cases negative with
  | true => rw [if_pos rfl, Int.natAbs_neg, Int.natAbs_natCast]
  | false => rw [if_neg (by decide), Int.natAbs_natCast]

namespace Double

theorem lt_floorLog2 (num : Nat) {den : Nat} (hden : den ≠ 0) :
    (num : ℚ) < den * 2 ^ (floorLog2 num den + 1) := by
  rw [floorLog2]
  split_ifs with hlow
  · rw [sub_add_cancel]
    exact mul_pow_lt_iff.mp hlow
  · have hnum : (num : ℚ) < 2 ^ (num.log2 + 1) := by exact_mod_cast Nat.lt_log2_self
    have hden : ((2 ^ den.log2 : Nat) : ℚ) ≤ den := by exact_mod_cast Nat.log2_self_le hden
    have hscale : (0 : ℚ) < 2 ^ ((num.log2 : Int) - den.log2 + 1) := by positivity
    calc (num : ℚ) < 2 ^ (num.log2 + 1) := hnum
      _ = (2 ^ den.log2 : Nat) * 2 ^ ((num.log2 : Int) - den.log2 + 1) := by
        rw [Nat.cast_pow, Nat.cast_ofNat, ← zpow_natCast, ← zpow_natCast, ← zpow_add₀ two_ne_zero]
        congr 1
        omega
      _ ≤ den * 2 ^ ((num.log2 : Int) - den.log2 + 1) :=
        mul_le_mul_of_nonneg_right hden hscale.le

/-- The whole part of a finite double has no more bits than its significand and its exponent give
it. -/
theorem natAbs_truncate_le (negative : Bool) {m k : Nat} {e : Int} (hm : m ≤ 2 ^ k) :
    (truncate negative m e).natAbs ≤ 2 ^ (k + e.toNat) := by
  rw [truncate, natAbs_signed]
  calc m * Nat.pow 2 e.toNat / Nat.pow 2 (-e).toNat ≤ m * 2 ^ e.toNat := Nat.div_le_self _ _
    _ ≤ 2 ^ k * 2 ^ e.toNat := Nat.mul_le_mul_right _ hm
    _ = 2 ^ (k + e.toNat) := (Nat.pow_add 2 k e.toNat).symm

theorem scaled_le (num : Nat) {den : Nat} (hden : den ≠ 0) {e : Int}
    (he : floorLog2 num den - 52 ≤ e) :
    roundDiv (num * Nat.pow 2 (-e).toNat) (den * Nat.pow 2 e.toNat) ≤ 2 ^ 53 := by
  have hratio : (num : ℚ) < (den * 2 ^ 53 : Nat) * 2 ^ e :=
    calc (num : ℚ) < den * 2 ^ (floorLog2 num den + 1) := lt_floorLog2 num hden
      _ ≤ den * 2 ^ (53 + e) := by
        have hpow : (2 : ℚ) ^ (floorLog2 num den + 1) ≤ 2 ^ (53 + e) :=
          zpow_le_zpow_right₀ one_le_two (by omega)
        exact mul_le_mul_of_nonneg_left hpow (Nat.cast_nonneg den)
      _ = (den * 2 ^ 53 : Nat) * 2 ^ e := by
        rw [zpow_add₀ two_ne_zero, ← mul_assoc]
        norm_cast
  apply roundDiv_le
  rw [Nat.mul_right_comm]
  exact mul_pow_lt_iff.mpr hratio

/-- What is rounded to a finite double keeps to the range of doubles. -/
theorem ofRatio_range {negative negative' : Bool} {num den m : Nat} {e : Int} (hden : den ≠ 0)
    (h : ofRatio negative num den = .finite negative' m e) :
    m ≤ 2 ^ 53 ∧ e ≤ greatestExponent := by
  rw [ofRatio] at h
  by_cases hzero : num = 0
  · rw [if_pos hzero] at h
    cases h
    exact ⟨Nat.zero_le _, by decide⟩
  · rw [if_neg hzero] at h
    have hscaled := scaled_le num hden (le_max_left _ leastExponent)
    dsimp only at h
    generalize roundDiv _ _ = n at h hscaled
    have hfinite : ∀ (k : Nat) (f : Int), k ≤ 2 ^ 53 →
        (if greatestExponent < f then infinite negative else finite negative k f) =
          finite negative' m e → m ≤ 2 ^ 53 ∧ e ≤ greatestExponent := by
      intro k f hk hfinite
      split_ifs at hfinite with hgreat
      cases hfinite
      exact ⟨hk, Int.not_lt.mp hgreat⟩
    by_cases hcarry : n = Nat.pow 2 53
    · rw [if_pos hcarry] at h
      exact hfinite _ _ (Nat.pow_le_pow_right (by decide) (by decide)) h
    · rw [if_neg hcarry] at h
      exact hfinite _ _ hscaled h

theorem ofDecimal_range {negative negative' : Bool} {digits m : Nat} {power e : Int}
    (h : ofDecimal negative digits power = .finite negative' m e) :
    m ≤ 2 ^ 53 ∧ e ≤ greatestExponent := by
  rw [ofDecimal] at h
  split_ifs at h
  · cases h
    exact ⟨Nat.zero_le _, by decide⟩
  · cases h
    exact ⟨Nat.zero_le _, by decide⟩
  · exact ofRatio_range (Nat.pow_pos (by decide)).ne' h

end Double

end LintGate.Number
