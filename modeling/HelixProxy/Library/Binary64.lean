import Mathlib.Data.Int.Log
import Mathlib.Data.Rat.Floor

/-!
# Rounding to binary64

The value of a floating-point operation is the exact one rounded to 53 significant
bits, to the nearest and between two to the even one. Magnitudes are those of normal
numbers, so the exponent has no bounds here. Rounding passes no integer that a
significand can hold.
-/

namespace HelixProxy.Binary64

set_option autoImplicit false

def toNearestEven (q : ℚ) : ℤ :=
  if q - ⌊q⌋ < 1 / 2 then ⌊q⌋
  else if 1 / 2 < q - ⌊q⌋ then ⌊q⌋ + 1
  else if ⌊q⌋ % 2 = 0 then ⌊q⌋ else ⌊q⌋ + 1

/-- The distance of the neighbours of `q`. -/
def ulp (q : ℚ) : ℚ := 2 ^ (Int.log 2 |q| - 52)

def nearest (q : ℚ) : ℚ := toNearestEven (q / ulp q) * ulp q

theorem toNearestEven_le {q : ℚ} {n : ℤ} (h : q ≤ n) : toNearestEven q ≤ n := by
  have hfloor : ⌊q⌋ ≤ n := Int.floor_le_iff.mpr (by linarith)
  have hup : ¬q - ⌊q⌋ < 1 / 2 → ⌊q⌋ + 1 ≤ n := by
    intro hhalf
    have hlt : (⌊q⌋ : ℚ) < n := by linarith
    exact_mod_cast hlt
  unfold toNearestEven
  split
  · exact hfloor
  · next hhalf =>
    split
    · exact hup hhalf
    · split
      · exact hfloor
      · exact hup hhalf

theorem le_toNearestEven {q : ℚ} {n : ℤ} (h : n ≤ q) : n ≤ toNearestEven q := by
  have hfloor : n ≤ ⌊q⌋ := Int.le_floor.mpr h
  unfold toNearestEven
  split_ifs <;> omega

theorem nearest_zero : nearest 0 = 0 := by
  simp [nearest, toNearestEven]

theorem ulp_pos (q : ℚ) : 0 < ulp q := zpow_pos two_pos _

/-- Below 2^53 an integer is a whole number of units. -/
theorem natCast_div_ulp {q : ℚ} (hq : 0 < q) (hmax : q < 2 ^ 53) (n : ℕ) :
    ∃ m : ℤ, (n : ℚ) / ulp q = m := by
  have hlog : Int.log 2 q < 53 := by
    apply (Int.lt_zpow_iff_log_lt (by decide) hq).mp
    exact_mod_cast hmax
  obtain ⟨k, hk⟩ : ∃ k : ℕ, Int.log 2 q - 52 = -(k : ℤ) := ⟨(52 - Int.log 2 q).toNat, by omega⟩
  refine ⟨n * 2 ^ k, ?_⟩
  rw [ulp, abs_of_pos hq, hk, zpow_neg, zpow_natCast, div_inv_eq_mul]
  push_cast
  rfl

section Integers

variable {q : ℚ} {n : ℕ} (hq : 0 ≤ q) (hmax : q < 2 ^ 53)
include hq hmax

theorem nearest_le (h : q ≤ n) : nearest q ≤ n := by
  rcases hq.eq_or_lt with rfl | hpos
  · rwa [nearest_zero]
  obtain ⟨m, hm⟩ := natCast_div_ulp hpos hmax n
  have hle : toNearestEven (q / ulp q) ≤ m := by
    apply toNearestEven_le
    rw [← hm]
    exact div_le_div_of_nonneg_right h (ulp_pos q).le
  calc
    nearest q ≤ m * ulp q := by
      apply mul_le_mul_of_nonneg_right _ (ulp_pos q).le
      exact_mod_cast hle
    _ = n := by rw [← hm, div_mul_cancel₀ _ (ulp_pos q).ne']

theorem le_nearest (h : n ≤ q) : n ≤ nearest q := by
  rcases hq.eq_or_lt with rfl | hpos
  · rwa [nearest_zero]
  obtain ⟨m, hm⟩ := natCast_div_ulp hpos hmax n
  have hle : m ≤ toNearestEven (q / ulp q) := by
    apply le_toNearestEven
    rw [← hm]
    exact div_le_div_of_nonneg_right h (ulp_pos q).le
  calc
    (n : ℚ) = m * ulp q := by rw [← hm, div_mul_cancel₀ _ (ulp_pos q).ne']
    _ ≤ nearest q := by
      apply mul_le_mul_of_nonneg_right _ (ulp_pos q).le
      exact_mod_cast hle

end Integers

theorem nearest_between {q : ℚ} {m n : ℕ} (hm : m ≤ q) (hn : q ≤ n) (hmax : n ≤ 2 ^ 52) :
    (m : ℚ) ≤ nearest q ∧ nearest q ≤ n := by
  have h0 : 0 ≤ q := le_trans (Nat.cast_nonneg m) hm
  have hcast : (n : ℚ) ≤ 2 ^ 52 := by exact_mod_cast hmax
  have hlt : q < 2 ^ 53 := lt_of_le_of_lt (hn.trans hcast) (by norm_num)
  exact ⟨le_nearest h0 hlt hm, nearest_le h0 hlt hn⟩

end HelixProxy.Binary64
