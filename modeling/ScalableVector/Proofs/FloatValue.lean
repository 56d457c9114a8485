import Mathlib.Algebra.Order.Field.Rat
import Mathlib.Tactic.Linarith
import Mathlib.Tactic.Positivity
import ScalableVector.Number.Binary64

/-!
# Values of double-precision numbers

A finite number stands for a rational number: its significand times a power of two. Sign, exponent
bits and fraction determine the bits, and a significand of 53 bits determines the number.
-/

namespace ScalableVector.Number.Binary64

def IsFinite (x : Binary64) : Prop := x.exponentBits ≠ 2047

instance (x : Binary64) : Decidable x.IsFinite := inferInstanceAs (Decidable (_ ≠ _))

/-- The rational number that a finite number stands for. -/
def value (x : Binary64) : ℚ :=
  (if x.isNegative then -1 else 1) * x.significand * 2 ^ x.scale

variable {x y : Binary64}

theorem fraction_lt (x : Binary64) : x.fraction < 2 ^ 52 := Nat.mod_lt _ (by decide)

private theorem exponentBits_eq (x : Binary64) :
    x.exponentBits = x.bits.toNat / 4503599627370496 % 2048 := by
  rw [exponentBits, Nat.shiftRight_eq_div_pow]

private theorem isNegative_eq (x : Binary64) :
    x.isNegative = decide (9223372036854775808 ≤ x.bits.toNat) := by
  have hlt : x.bits.toNat < 18446744073709551616 := x.bits.toNat_lt
  have hpow : 2 ^ 63 = 9223372036854775808 := by decide
  rw [isNegative, Nat.testBit_eq_decide_div_mod_eq, hpow]
  congr 1
  apply propext
  omega

theorem toNat_bits (x : Binary64) :
    x.bits.toNat = (if x.isNegative then 2 ^ 63 else 0) + x.exponentBits * 2 ^ 52 + x.fraction := by
  have hlt : x.bits.toNat < 18446744073709551616 := x.bits.toNat_lt
  have hfraction : x.fraction = x.bits.toNat % 4503599627370496 := rfl
  rw [isNegative_eq, exponentBits_eq, hfraction]
  split
  · next h =>
    have := of_decide_eq_true h
    omega
  · next h =>
    have := of_decide_eq_false (Bool.not_eq_true _ ▸ h)
    omega

theorem eq_of_fields (hs : x.isNegative = y.isNegative) (he : x.exponentBits = y.exponentBits)
    (hf : x.fraction = y.fraction) : x = y := by
  have hbits : x.bits.toNat = y.bits.toNat := by rw [toNat_bits, toNat_bits, hs, he, hf]
  cases x
  cases y
  exact congrArg mk (UInt64.toNat_inj.mp hbits)

theorem fields_ofMagnitude (negative : Bool) {e f : Nat} (he : e < 2 ^ 11) (hf : f < 2 ^ 52) :
    (ofMagnitude negative (e * 2 ^ 52 + f)).isNegative = negative ∧
      (ofMagnitude negative (e * 2 ^ 52 + f)).exponentBits = e ∧
      (ofMagnitude negative (e * 2 ^ 52 + f)).fraction = f := by
  have hbits : (ofMagnitude negative (e * 2 ^ 52 + f)).bits.toNat =
      e * 2 ^ 52 + f + if negative then 2 ^ 63 else 0 := by
    apply UInt64.toNat_ofNat_of_lt
    split <;> simp only [UInt64.size] <;> omega
  refine ⟨?_, ?_, ?_⟩
  · rw [isNegative_eq, hbits]
    cases negative
    · exact decide_eq_false (by simp only [Bool.false_eq_true, if_false]; omega)
    · exact decide_eq_true (by simp only [if_true]; omega)
  · rw [exponentBits_eq, hbits]
    split <;> omega
  · show (ofMagnitude negative (e * 2 ^ 52 + f)).bits.toNat % 4503599627370496 = f
    rw [hbits]
    split <;> omega

theorem significand_lt (x : Binary64) : x.significand < 2 ^ 53 := by
  have h := x.fraction_lt
  rw [significand]
  split <;> omega

theorem le_significand (h : x.exponentBits ≠ 0) : 2 ^ 52 ≤ x.significand := by
  rw [significand, if_neg h]
  omega

/-- Numbers with significands of 53 bits are equal only if their powers of two are. -/
private theorem exponent_le {m n : Nat} {s t : ℤ} (hm : m < 2 ^ 53) (hn : 2 ^ 52 ≤ n)
    (h : (m : ℚ) * 2 ^ s = n * 2 ^ t) : t ≤ s := by
  by_contra hlt
  have hpow : (2 : ℚ) ≤ 2 ^ (t - s) := by
    calc (2 : ℚ) = 2 ^ (1 : ℤ) := (zpow_one 2).symm
      _ ≤ 2 ^ (t - s) := zpow_le_zpow_right₀ one_le_two (by omega)
  have hsplit : (2 : ℚ) ^ t = 2 ^ (t - s) * 2 ^ s := by
    rw [← zpow_add₀ two_ne_zero, sub_add_cancel]
  rw [hsplit, ← mul_assoc] at h
  have heq : (m : ℚ) = n * 2 ^ (t - s) := mul_right_cancel₀ (zpow_ne_zero s two_ne_zero) h
  have hm' : (m : ℚ) < 2 ^ 53 := by exact_mod_cast hm
  have hn' : (2 : ℚ) ^ 52 ≤ n := by exact_mod_cast hn
  have hle : (2 : ℚ) ^ 52 * 2 ≤ m := by
    rw [heq]
    exact mul_le_mul hn' hpow zero_le_two (by positivity)
  linarith

/-- A value with a significand of 53 bits determines sign, significand and power of two. -/
theorem eq_of_value {negative : Bool} {n : Nat} {t : ℤ} (hlo : 2 ^ 52 ≤ n) (hhi : n < 2 ^ 53)
    (ht : -1074 ≤ t) (h : x.value = (if negative then -1 else 1) * n * 2 ^ t) :
    x.isNegative = negative ∧ x.significand = n ∧ x.scale = t := by
  have hpos : (0 : ℚ) < n * 2 ^ t := by
    have hn : (0 : ℚ) < n := by exact_mod_cast (show 0 < n by omega)
    exact mul_pos hn (zpow_pos two_pos t)
  have hnonneg : (0 : ℚ) ≤ x.significand * 2 ^ x.scale :=
    mul_nonneg (Nat.cast_nonneg _) (zpow_nonneg zero_le_two _)
  rw [value, mul_assoc, mul_assoc] at h
  obtain ⟨hsign, hmagnitude⟩ : x.isNegative = negative ∧
      (x.significand : ℚ) * 2 ^ x.scale = n * 2 ^ t := by
    cases hx : x.isNegative <;> cases negative <;>
      simp only [hx, if_true, if_false, Bool.false_eq_true, one_mul, neg_one_mul, neg_inj,
        true_and, reduceCtorEq, false_and] at h ⊢ <;> linarith
  have hle := exponent_le x.significand_lt hlo hmagnitude
  have hge : x.scale ≤ t := by
    by_cases hzero : x.exponentBits = 0
    · rw [scale, if_pos hzero]
      exact ht
    · exact exponent_le hhi (le_significand hzero) hmagnitude.symm
  have hscale : x.scale = t := le_antisymm hge hle
  rw [hscale] at hmagnitude
  have hsignificand := mul_right_cancel₀ (zpow_ne_zero t two_ne_zero) hmagnitude
  exact ⟨hsign, by exact_mod_cast hsignificand, hscale⟩

end ScalableVector.Number.Binary64
