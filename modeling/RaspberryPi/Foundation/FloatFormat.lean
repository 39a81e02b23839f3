import Mathlib.Algebra.Order.Archimedean.Basic
import Mathlib.Data.Int.Log
import Mathlib.Data.Rat.Floor
import Mathlib.Tactic.Linarith

/-! # Binary floating point

The finite numbers of a binary format as rationals. An operation gives the nearest
number of the format to its exact result, the even one of two. Results that are too
large for the format are not followed. -/

namespace RaspberryPi

/-- The significand has `precision` bits, the last of them worth at least `2 ^ minExponent`. -/
structure FloatFormat where
  precision : Nat
  minExponent : Int

namespace FloatFormat

def binary32 : FloatFormat := ⟨24, -149⟩

def binary64 : FloatFormat := ⟨53, -1074⟩

def nearestEven (x : Rat) : Int :=
  if x - ⌊x⌋ < 1 / 2 ∨ x - ⌊x⌋ = 1 / 2 ∧ ⌊x⌋ % 2 = 0 then ⌊x⌋ else ⌊x⌋ + 1

/-- What the last bit of the significand is worth, as an exponent. -/
def lastPlace (format : FloatFormat) (x : Rat) : Int :=
  max (Int.log 2 |x| + 1 - format.precision) format.minExponent

def round (format : FloatFormat) (x : Rat) : Rat :=
  nearestEven (x / 2 ^ format.lastPlace x) * 2 ^ format.lastPlace x

theorem nearestEven_intCast (n : Int) : nearestEven n = n := by
  simp [nearestEven]

theorem abs_nearestEven_sub_le (x : Rat) : |nearestEven x - x| ≤ 1 / 2 := by
  have below := Int.floor_le x
  have above := Int.lt_floor_add_one x
  rw [nearestEven, abs_le]
  split_ifs with lower
  · have half : x - ⌊x⌋ ≤ 1 / 2 := by
      rcases lower with smaller | middle
      · exact smaller.le
      · exact middle.1.le
    constructor <;> linarith
  · have half : 1 / 2 ≤ x - ⌊x⌋ := by
      rw [not_or] at lower
      exact le_of_not_gt lower.1
    push_cast
    constructor <;> linarith

theorem two_zpow_pos (k : Int) : (0 : Rat) < 2 ^ k := zpow_pos two_pos k

theorem two_zpow_le {k l : Int} (le : k ≤ l) : (2 : Rat) ^ k ≤ 2 ^ l :=
  zpow_le_zpow_right₀ one_le_two le

variable {format : FloatFormat} {x : Rat}

theorem round_zero (format : FloatFormat) : format.round 0 = 0 := by
  have whole : nearestEven 0 = 0 := nearestEven_intCast 0
  rw [round, zero_div, whole, Int.cast_zero, zero_mul]

theorem lastPlace_le {k : Int} (nonzero : x ≠ 0) (small : |x| < 2 ^ k)
    (normal : format.minExponent ≤ k - format.precision) :
    format.lastPlace x ≤ k - format.precision := by
  have magnitude : Int.log 2 |x| < k :=
    (Int.lt_zpow_iff_log_lt Nat.one_lt_two (abs_pos.mpr nonzero)).mp small
  rw [lastPlace]
  omega

/-- A number below `2 ^ k` is rounded by at most half of a last place. -/
theorem abs_round_sub_le {k : Int} (small : |x| < 2 ^ k)
    (normal : format.minExponent ≤ k - format.precision) :
    |format.round x - x| ≤ 2 ^ (k - format.precision - 1) := by
  rcases eq_or_ne x 0 with zero | nonzero
  · rw [zero, round_zero, sub_zero, abs_zero]
    exact (two_zpow_pos _).le
  · have positive := two_zpow_pos (format.lastPlace x)
    have scaled : format.round x - x =
        (nearestEven (x / 2 ^ format.lastPlace x) - x / 2 ^ format.lastPlace x) *
          2 ^ format.lastPlace x := by
      rw [round, sub_mul, div_mul_cancel₀ _ positive.ne']
    calc |format.round x - x|
        = |nearestEven (x / 2 ^ format.lastPlace x) - x / 2 ^ format.lastPlace x| *
            2 ^ format.lastPlace x := by rw [scaled, abs_mul, abs_of_pos positive]
      _ ≤ 1 / 2 * 2 ^ format.lastPlace x :=
          mul_le_mul_of_nonneg_right (abs_nearestEven_sub_le _) positive.le
      _ ≤ 1 / 2 * 2 ^ (k - format.precision) :=
          mul_le_mul_of_nonneg_left (two_zpow_le (lastPlace_le nonzero small normal)) (by norm_num)
      _ = 2 ^ (k - format.precision - 1) := by
          rw [zpow_sub_one₀ two_ne_zero, mul_comm, one_div]

theorem round_eq_self {m e : Int} (fits : |m| < 2 ^ format.precision)
    (normal : format.minExponent ≤ e) : format.round (m * 2 ^ e) = m * 2 ^ e := by
  rcases eq_or_ne m 0 with zero | nonzero
  · rw [zero, Int.cast_zero, zero_mul, round_zero]
  · have positive := two_zpow_pos e
    have nonzeroValue : (m : Rat) * 2 ^ e ≠ 0 :=
      mul_ne_zero (Int.cast_ne_zero.mpr nonzero) positive.ne'
    have small : |(m : Rat) * 2 ^ e| < 2 ^ (format.precision + e) := by
      have bound : |(m : Rat)| < 2 ^ format.precision := by exact_mod_cast fits
      rw [abs_mul, abs_of_pos positive, zpow_add₀ two_ne_zero, zpow_natCast]
      exact mul_lt_mul_of_pos_right bound positive
    have place : format.lastPlace (m * 2 ^ e) ≤ e := by
      have atMost : format.lastPlace (m * 2 ^ e) ≤ format.precision + e - format.precision :=
        lastPlace_le nonzeroValue small (by omega)
      omega
    -- The last place divides the number.
    have whole : (m : Rat) * 2 ^ e / 2 ^ format.lastPlace (m * 2 ^ e) =
        (m * 2 ^ (e - format.lastPlace (m * 2 ^ e)).toNat : Int) := by
      rw [Int.cast_mul, Int.cast_pow, mul_div_assoc, ← zpow_sub₀ two_ne_zero, Int.cast_two,
        ← zpow_natCast, Int.toNat_of_nonneg (by omega)]
    rw [round, whole, nearestEven_intCast, ← whole, div_mul_cancel₀ _ (two_zpow_pos _).ne']

theorem round_intCast {n : Int} (fits : |n| < 2 ^ format.precision)
    (normal : format.minExponent ≤ 0) : format.round n = n := by
  have same := round_eq_self fits normal
  rw [zpow_zero, mul_one] at same
  exact same

theorem abs_round_binary64_sub_le {bits : Int} (small : |x| < 2 ^ bits) (normal : -1021 ≤ bits) :
    |binary64.round x - x| ≤ 2 ^ (bits - 54) := by
  have range : binary64.minExponent ≤ bits - binary64.precision := by
    simp only [binary64]
    omega
  have exponent : bits - (binary64.precision : Int) - 1 = bits - 54 := by
    simp only [binary64]
    omega
  have rounded := abs_round_sub_le small range
  rw [exponent] at rounded
  exact rounded

end FloatFormat

end RaspberryPi
