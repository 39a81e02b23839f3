import Mathlib.Tactic.FieldSimp
import RaspberryPi.Foundation.FloatFormat

/-! # Temperature and humidity

`getTemperature` of `temperature.c`. The sensor has two points of a line in its
registers, and the program computes with `double` where its reading is on it. A
compiler may round a product and a sum in one, so `fused` says whether it does. -/

namespace RaspberryPi.Sensors

open FloatFormat (binary64)

/-! Registers of the HTS221. -/

def H0_rH_x2 : Nat := 0x30
def H1_rH_x2 : Nat := 0x31
def T0_degC_x8 : Nat := 0x32
def T1_degC_x8 : Nat := 0x33
def T1_T0_MSB : Nat := 0x35
def H0_T0_OUT_L : Nat := 0x36
def H0_T0_OUT_H : Nat := 0x37
def H1_T0_OUT_L : Nat := 0x3A
def H1_T0_OUT_H : Nat := 0x3B
def T0_OUT_L : Nat := 0x3C
def T0_OUT_H : Nat := 0x3D
def T1_OUT_L : Nat := 0x3E
def T1_OUT_H : Nat := 0x3F
def H_T_OUT_L : Nat := 0x28
def H_T_OUT_H : Nat := 0x29
def TEMP_OUT_L : Nat := 0x2A
def TEMP_OUT_H : Nat := 0x2B

def short (value : Nat) : Int := (BitVec.ofNat 16 value).toInt

/-- The line through two points: `t_gradient_m` and `t_intercept_c`, and its value at `x`. -/
def interpolate (fused : Bool) (x0 x1 : Int) (y0 y1 : Rat) (x : Int) : Rat :=
  let gradient_m := binary64.round (binary64.round (y1 - y0) / (x1 - x0 : Int))
  let intercept_c :=
    if fused then binary64.round (y1 - gradient_m * x1)
    else binary64.round (y1 - binary64.round (gradient_m * x1))
  if fused then binary64.round (gradient_m * x + intercept_c)
  else binary64.round (binary64.round (gradient_m * x) + intercept_c)

def getTemperature (fused : Bool) (read : Nat → UInt8) : Rat × Rat :=
  let s_t0_out := short ((read T0_OUT_H).toNat <<< 8 ||| (read T0_OUT_L).toNat)
  let s_t1_out := short ((read T1_OUT_H).toNat <<< 8 ||| (read T1_OUT_L).toNat)
  let s_h0_t0_out := short ((read H0_T0_OUT_H).toNat <<< 8 ||| (read H0_T0_OUT_L).toNat)
  let s_h1_t0_out := short ((read H1_T0_OUT_H).toNat <<< 8 ||| (read H1_T0_OUT_L).toNat)
  let t1_t0_msb := (read T1_T0_MSB).toNat
  let s_t0_degC_x8 := (t1_t0_msb &&& 3) <<< 8 ||| (read T0_degC_x8).toNat
  let s_t1_degC_x8 := ((t1_t0_msb &&& 12) >>> 2) <<< 8 ||| (read T1_degC_x8).toNat
  let d_t0_degC := binary64.round (s_t0_degC_x8 / 8)
  let d_t1_degC := binary64.round (s_t1_degC_x8 / 8)
  let h0_rH := binary64.round ((read H0_rH_x2).toNat / 2)
  let h1_rH := binary64.round ((read H1_rH_x2).toNat / 2)
  let s_t_out := short ((read TEMP_OUT_H).toNat <<< 8 ||| (read TEMP_OUT_L).toNat)
  let s_h_t_out := short ((read H_T_OUT_H).toNat <<< 8 ||| (read H_T_OUT_L).toNat)
  (interpolate fused s_t0_out s_t1_out d_t0_degC d_t1_degC s_t_out,
    interpolate fused s_h0_t0_out s_h1_t0_out h0_rH h1_rH s_h_t_out)

/-! ## The calibration -/

/-- A reading is sixteen bits in two's complement, low byte first. -/
def reading (read : Nat → UInt8) (register : Nat) : Int :=
  Int.bmod ((read register).toNat + 256 * (read (register + 1)).toNat : Nat) 65536

structure Calibration where
  x0 : Int
  x1 : Int
  y0 : Rat
  y1 : Rat

namespace Calibration

/-- Eighths of a degree, in ten bits. -/
def temperature (read : Nat → UInt8) : Calibration where
  x0 := reading read T0_OUT_L
  x1 := reading read T1_OUT_L
  y0 := ((read T0_degC_x8).toNat + 256 * ((read T1_T0_MSB).toNat % 4) : Nat) / 8
  y1 := ((read T1_degC_x8).toNat + 256 * ((read T1_T0_MSB).toNat / 4 % 4) : Nat) / 8

/-- Halves of a percent. -/
def humidity (read : Nat → UInt8) : Calibration where
  x0 := reading read H0_T0_OUT_L
  x1 := reading read H1_T0_OUT_L
  y0 := (read H0_rH_x2).toNat / 2
  y1 := (read H1_rH_x2).toNat / 2

def line (calibration : Calibration) (x : Int) : Rat :=
  calibration.y0 + (calibration.y1 - calibration.y0) * (x - calibration.x0) /
    (calibration.x1 - calibration.x0)

end Calibration

/-! ## Bits -/

theorem joined (low high : UInt8) :
    high.toNat <<< 8 ||| low.toNat = low.toNat + 256 * high.toNat := by
  have small : low.toNat < 2 ^ 8 := low.toNat_lt
  rw [← Nat.shiftLeft_add_eq_or_of_lt small, Nat.shiftLeft_eq]
  omega

theorem short_joined (read : Nat → UInt8) (register : Nat) :
    short ((read (register + 1)).toNat <<< 8 ||| (read register).toNat) =
      reading read register := by
  rw [joined, short, BitVec.toInt_ofNat']
  rfl

theorem joined_lowBits (low msb : UInt8) :
    (msb.toNat &&& 3) <<< 8 ||| low.toNat = low.toNat + 256 * (msb.toNat % 4) := by
  have small : low.toNat < 2 ^ 8 := low.toNat_lt
  have bits : msb.toNat &&& 3 = msb.toNat % 4 := Nat.and_two_pow_sub_one_eq_mod _ 2
  rw [← Nat.shiftLeft_add_eq_or_of_lt small, Nat.shiftLeft_eq, bits]
  omega

theorem joined_highBits (low msb : UInt8) :
    ((msb.toNat &&& 12) >>> 2) <<< 8 ||| low.toNat =
      low.toNat + 256 * (msb.toNat / 4 % 4) := by
  have small : low.toNat < 2 ^ 8 := low.toNat_lt
  have bits : (msb.toNat &&& 12) >>> 2 = msb.toNat / 4 % 4 := by
    rw [Nat.shiftRight_and_distrib, Nat.shiftRight_eq_div_pow]
    exact Nat.and_two_pow_sub_one_eq_mod _ 2
  rw [← Nat.shiftLeft_add_eq_or_of_lt small, Nat.shiftLeft_eq, bits]
  omega

theorem abs_reading_le (read : Nat → UInt8) (register : Nat) :
    |reading read register| ≤ 32768 := by
  have positive : 0 < 65536 := by decide
  have below : _ ≤ reading read register := Int.le_bmod positive
  have above : reading read register ≤ _ := Int.bmod_le positive
  rw [abs_le]
  omega

/-! ## Rounding -/

/-- What the program can compute the line from: readings of 16 bits, and results that
`double` holds, as it holds their difference. -/
structure Calibration.Exact (calibration : Calibration) : Prop where
  x0 : |calibration.x0| ≤ 32768
  x1 : |calibration.x1| ≤ 32768
  y0 : 0 ≤ calibration.y0 ∧ calibration.y0 < 128
  y1 : 0 ≤ calibration.y1 ∧ calibration.y1 < 128
  difference : binary64.round (calibration.y1 - calibration.y0) = calibration.y1 - calibration.y0

namespace Calibration

variable {calibration : Calibration}

def gradient (calibration : Calibration) : Rat :=
  (calibration.y1 - calibration.y0) / (calibration.x1 - calibration.x0)

theorem line_eq (different : calibration.x0 ≠ calibration.x1) (x : Int) :
    calibration.line x =
      calibration.y1 + calibration.gradient * (x - calibration.x1) := by
  have nonzero : (calibration.x1 : Rat) - calibration.x0 ≠ 0 :=
    sub_ne_zero.mpr (Int.cast_injective.ne different.symm)
  rw [line, gradient]
  field_simp
  ring

theorem Exact.abs_gradient_lt (exactly : calibration.Exact)
    (different : calibration.x0 ≠ calibration.x1) : |calibration.gradient| < 128 := by
  have y0 := exactly.y0
  have y1 := exactly.y1
  have rise : |calibration.y1 - calibration.y0| < 128 := by
    rw [abs_lt]
    constructor <;> linarith
  have apart : 1 ≤ |(calibration.x1 : Rat) - calibration.x0| := by
    exact_mod_cast Int.one_le_abs (sub_ne_zero.mpr different.symm)
  rw [gradient, abs_div, div_lt_iff₀ (by linarith)]
  linarith

theorem Exact.abs_round_gradient_sub_le (exactly : calibration.Exact)
    (different : calibration.x0 ≠ calibration.x1) :
    |binary64.round calibration.gradient - calibration.gradient| ≤ 1 / 2 ^ 47 := by
  have small : |calibration.gradient| < 2 ^ (7 : Int) :=
    (exactly.abs_gradient_lt different).trans_eq (by norm_num)
  exact (FloatFormat.abs_round_binary64_sub_le small (by decide)).trans_eq (by norm_num)

end Calibration

section Steps

variable {gradient y : Rat} {x : Int}

theorem abs_product_le (steep : |gradient| ≤ 129) (small : |x| ≤ 32768) :
    |gradient * x| ≤ 4227072 := by
  have size : |(x : Rat)| ≤ 32768 := by exact_mod_cast small
  calc |gradient * x| = |gradient| * |(x : Rat)| := abs_mul _ _
    _ ≤ 129 * 32768 := mul_le_mul steep size (abs_nonneg _) (by norm_num)
    _ = 4227072 := by norm_num

theorem abs_round_product_sub_le (steep : |gradient| ≤ 129) (small : |x| ≤ 32768) :
    |binary64.round (gradient * x) - gradient * x| ≤ 1 / 2 ^ 31 := by
  have size : |gradient * x| < 2 ^ (23 : Int) :=
    (abs_product_le steep small).trans_lt (by norm_num)
  exact (FloatFormat.abs_round_binary64_sub_le size (by decide)).trans_eq (by norm_num)

theorem abs_intercept_sub_le (fused : Bool) (steep : |gradient| ≤ 129) (small : |x| ≤ 32768)
    (degrees : |y| ≤ 128) :
    |(if fused then binary64.round (y - gradient * x)
      else binary64.round (y - binary64.round (gradient * x))) - (y - gradient * x)| ≤
      1 / 2 ^ 30 := by
  have product := abs_le.mp (abs_product_le steep small)
  have rounded := abs_le.mp (abs_round_product_sub_le steep small)
  have bound := abs_le.mp degrees
  cases fused with
  | true =>
      have size : |y - gradient * x| < 2 ^ (23 : Int) := by
        rw [abs_lt]
        constructor <;> norm_num <;> linarith
      have sum := (FloatFormat.abs_round_binary64_sub_le size (by decide)).trans_eq
        (by norm_num : (2 : Rat) ^ (23 - 54 : Int) = 1 / 2 ^ 31)
      rw [if_pos rfl]
      linarith
  | false =>
      have size : |y - binary64.round (gradient * x)| < 2 ^ (23 : Int) := by
        rw [abs_lt]
        constructor <;> norm_num <;> linarith
      have sum := abs_le.mp ((FloatFormat.abs_round_binary64_sub_le size (by decide)).trans_eq
        (by norm_num : (2 : Rat) ^ (23 - 54 : Int) = 1 / 2 ^ 31))
      rw [if_neg Bool.false_ne_true, abs_le]
      constructor <;> linarith

theorem abs_value_sub_le (fused : Bool) {intercept : Rat} (steep : |gradient| ≤ 129)
    (small : |x| ≤ 32768) (size : |intercept| ≤ 4227201) :
    |(if fused then binary64.round (gradient * x + intercept)
      else binary64.round (binary64.round (gradient * x) + intercept)) -
      (gradient * x + intercept)| ≤ 1 / 2 ^ 30 + 1 / 2 ^ 31 := by
  have product := abs_le.mp (abs_product_le steep small)
  have rounded := abs_le.mp (abs_round_product_sub_le steep small)
  have bound := abs_le.mp size
  cases fused with
  | true =>
      have size : |gradient * x + intercept| < 2 ^ (24 : Int) := by
        rw [abs_lt]
        constructor <;> norm_num <;> linarith
      have sum := (FloatFormat.abs_round_binary64_sub_le size (by decide)).trans_eq
        (by norm_num : (2 : Rat) ^ (24 - 54 : Int) = 1 / 2 ^ 30)
      rw [if_pos rfl]
      linarith
  | false =>
      have size : |binary64.round (gradient * x) + intercept| < 2 ^ (24 : Int) := by
        rw [abs_lt]
        constructor <;> norm_num <;> linarith
      have sum := abs_le.mp ((FloatFormat.abs_round_binary64_sub_le size (by decide)).trans_eq
        (by norm_num : (2 : Rat) ^ (24 - 54 : Int) = 1 / 2 ^ 30))
      rw [if_neg Bool.false_ne_true, abs_le]
      constructor <;> linarith

end Steps

namespace Calibration.Exact

variable {calibration : Calibration} {x : Int}

theorem abs_round_gradient_le (exactly : calibration.Exact)
    (different : calibration.x0 ≠ calibration.x1) :
    |binary64.round calibration.gradient| ≤ 129 := by
  have error := abs_le.mp (exactly.abs_round_gradient_sub_le different)
  have size := abs_lt.mp (exactly.abs_gradient_lt different)
  rw [abs_le]
  constructor <;> linarith

theorem abs_gradientError_le (exactly : calibration.Exact)
    (different : calibration.x0 ≠ calibration.x1) (small : |x| ≤ 32768) :
    |(binary64.round calibration.gradient - calibration.gradient) * (x - calibration.x1)| ≤
      1 / 2 ^ 31 := by
  have first := abs_le.mp small
  have second := abs_le.mp exactly.x1
  have distance : |x - calibration.x1| ≤ 65536 := by
    rw [abs_le]
    omega
  have size : |(x : Rat) - calibration.x1| ≤ 65536 := by exact_mod_cast distance
  calc |(binary64.round calibration.gradient - calibration.gradient) * (x - calibration.x1)|
      = |binary64.round calibration.gradient - calibration.gradient| *
          |(x : Rat) - calibration.x1| := abs_mul _ _
    _ ≤ 1 / 2 ^ 47 * 65536 :=
        mul_le_mul (exactly.abs_round_gradient_sub_le different) size (abs_nonneg _)
          (by norm_num)
    _ = 1 / 2 ^ 31 := by norm_num

/-- The program's two points give the line, up to rounding. -/
theorem abs_interpolate_sub_le (exactly : calibration.Exact)
    (different : calibration.x0 ≠ calibration.x1) (small : |x| ≤ 32768) (fused : Bool) :
    |interpolate fused calibration.x0 calibration.x1 calibration.y0 calibration.y1 x -
      calibration.line x| ≤ 1 / 2 ^ 28 := by
  have steep := exactly.abs_round_gradient_le different
  have degrees : |calibration.y1| ≤ 128 := by
    rw [abs_of_nonneg exactly.y1.1]
    exact exactly.y1.2.le
  have gradientError := abs_le.mp (exactly.abs_gradientError_le different small)
  have interceptError := abs_le.mp (abs_intercept_sub_le fused steep exactly.x1 degrees)
  have product := abs_le.mp (abs_product_le steep exactly.x1)
  have second := abs_le.mp degrees
  have computed : binary64.round (binary64.round (calibration.y1 - calibration.y0) /
      (calibration.x1 - calibration.x0 : Int)) = binary64.round calibration.gradient := by
    rw [exactly.difference, gradient, Int.cast_sub]
  rw [interpolate, computed, line_eq different]
  generalize binary64.round calibration.gradient = gradient_m at *
  generalize (if fused then binary64.round (calibration.y1 - gradient_m * calibration.x1)
    else binary64.round (calibration.y1 -
      binary64.round (gradient_m * calibration.x1))) = intercept_c at *
  have size : |intercept_c| ≤ 4227201 := by
    rw [abs_le]
    constructor <;> linarith
  have valueError := abs_le.mp (abs_value_sub_le fused steep small size)
  rw [abs_le]
  constructor <;> linarith

end Calibration.Exact

/-! ## The two results -/

theorem round_div_eq_self {n : Int} (small : |n| < 1024) (places : Nat) (few : places ≤ 3) :
    binary64.round (n / 2 ^ places) = n / 2 ^ places := by
  have fits : |n| < 2 ^ binary64.precision := small.trans (by decide)
  have normal : binary64.minExponent ≤ -(places : Int) := by
    simp only [binary64]
    omega
  have same := FloatFormat.round_eq_self fits normal
  rw [zpow_neg, zpow_natCast, ← div_eq_mul_inv] at same
  exact same

theorem Calibration.exact_of_parts {x0 x1 : Int} {first second : Nat} (places : Nat)
    (few : places ≤ 3) (x0Small : |x0| ≤ 32768) (x1Small : |x1| ≤ 32768)
    (firstSmall : first < 128 * 2 ^ places) (secondSmall : second < 128 * 2 ^ places) :
    Calibration.Exact ⟨x0, x1, first / 2 ^ places, second / 2 ^ places⟩ := by
  have positive : (0 : Rat) < 2 ^ places := pow_pos two_pos places
  have parts : 128 * 2 ^ places ≤ 1024 := by
    have power : 2 ^ places ≤ 2 ^ 3 := Nat.pow_le_pow_right (by decide) few
    omega
  have firstBound : (first : Rat) < 128 * 2 ^ places := by exact_mod_cast firstSmall
  have secondBound : (second : Rat) < 128 * 2 ^ places := by exact_mod_cast secondSmall
  constructor
  · exact x0Small
  · exact x1Small
  · exact ⟨div_nonneg (Nat.cast_nonneg _) positive.le, (div_lt_iff₀ positive).mpr firstBound⟩
  · exact ⟨div_nonneg (Nat.cast_nonneg _) positive.le, (div_lt_iff₀ positive).mpr secondBound⟩
  · have small : |(second : Int) - first| < 1024 := by
      rw [abs_lt]
      omega
    have same := round_div_eq_self small places few
    rw [Int.cast_sub, Int.cast_natCast, Int.cast_natCast, sub_div] at same
    exact same

theorem Calibration.exact_temperature (read : Nat → UInt8) :
    (Calibration.temperature read).Exact := by
  have first := (read T0_degC_x8).toNat_lt
  have second := (read T1_degC_x8).toNat_lt
  have parts := Calibration.exact_of_parts 3 (by decide) (abs_reading_le read T0_OUT_L)
    (abs_reading_le read T1_OUT_L)
    (by omega : (read T0_degC_x8).toNat + 256 * ((read T1_T0_MSB).toNat % 4) < _)
    (by omega : (read T1_degC_x8).toNat + 256 * ((read T1_T0_MSB).toNat / 4 % 4) < _)
  have eighths : (2 : Rat) ^ 3 = 8 := by norm_num
  rw [eighths] at parts
  exact parts

theorem Calibration.exact_humidity (read : Nat → UInt8) :
    (Calibration.humidity read).Exact := by
  have first := (read H0_rH_x2).toNat_lt
  have second := (read H1_rH_x2).toNat_lt
  have parts := Calibration.exact_of_parts 1 (by decide) (abs_reading_le read H0_T0_OUT_L)
    (abs_reading_le read H1_T0_OUT_L) first second
  rw [pow_one] at parts
  exact parts

theorem round_eighths {parts : Nat} (small : parts < 1024) :
    binary64.round (parts / 8) = parts / 8 := by
  have bound : |(parts : Int)| < 1024 := by
    rw [abs_of_nonneg (Int.natCast_nonneg _)]
    omega
  have same := round_div_eq_self bound 3 (by decide)
  have eighths : (2 : Rat) ^ 3 = 8 := by norm_num
  rw [eighths, Int.cast_natCast] at same
  exact same

theorem round_halves (byte : UInt8) : binary64.round (byte.toNat / 2) = byte.toNat / 2 := by
  have small := byte.toNat_lt
  have bound : |(byte.toNat : Int)| < 1024 := by
    rw [abs_of_nonneg (Int.natCast_nonneg _)]
    omega
  have same := round_div_eq_self bound 1 (by decide)
  rw [pow_one, Int.cast_natCast] at same
  exact same

/-- The program gets the calibration out of the registers. -/
theorem getTemperature_eq (fused : Bool) (read : Nat → UInt8) :
    getTemperature fused read =
      (interpolate fused (Calibration.temperature read).x0 (Calibration.temperature read).x1
          (Calibration.temperature read).y0 (Calibration.temperature read).y1
          (reading read TEMP_OUT_L),
        interpolate fused (Calibration.humidity read).x0 (Calibration.humidity read).x1
          (Calibration.humidity read).y0 (Calibration.humidity read).y1
          (reading read H_T_OUT_L)) := by
  have first := (read T0_degC_x8).toNat_lt
  have second := (read T1_degC_x8).toNat_lt
  have t0 : short ((read T0_OUT_H).toNat <<< 8 ||| (read T0_OUT_L).toNat) = _ :=
    short_joined read T0_OUT_L
  have t1 : short ((read T1_OUT_H).toNat <<< 8 ||| (read T1_OUT_L).toNat) = _ :=
    short_joined read T1_OUT_L
  have h0 : short ((read H0_T0_OUT_H).toNat <<< 8 ||| (read H0_T0_OUT_L).toNat) = _ :=
    short_joined read H0_T0_OUT_L
  have h1 : short ((read H1_T0_OUT_H).toNat <<< 8 ||| (read H1_T0_OUT_L).toNat) = _ :=
    short_joined read H1_T0_OUT_L
  have t : short ((read TEMP_OUT_H).toNat <<< 8 ||| (read TEMP_OUT_L).toNat) = _ :=
    short_joined read TEMP_OUT_L
  have h : short ((read H_T_OUT_H).toNat <<< 8 ||| (read H_T_OUT_L).toNat) = _ :=
    short_joined read H_T_OUT_L
  simp only [getTemperature, t0, t1, h0, h1, t, h, joined_lowBits, joined_highBits, round_halves]
  rw [round_eighths, round_eighths]
  · rw [Calibration.temperature, Calibration.humidity]
  · omega
  · omega

/-- For whatever the registers hold, as long as no gradient is divided by zero. -/
theorem getTemperature_onLine (fused : Bool) (read : Nat → UInt8)
    (temperatures : reading read T0_OUT_L ≠ reading read T1_OUT_L)
    (humidities : reading read H0_T0_OUT_L ≠ reading read H1_T0_OUT_L) :
    |(getTemperature fused read).1 -
        (Calibration.temperature read).line (reading read TEMP_OUT_L)| ≤ 1 / 2 ^ 28 ∧
      |(getTemperature fused read).2 -
        (Calibration.humidity read).line (reading read H_T_OUT_L)| ≤ 1 / 2 ^ 28 := by
  have warm : (Calibration.temperature read).x0 ≠ (Calibration.temperature read).x1 := by
    dsimp only [Calibration.temperature]
    exact temperatures
  have wet : (Calibration.humidity read).x0 ≠ (Calibration.humidity read).x1 := by
    dsimp only [Calibration.humidity]
    exact humidities
  have t := abs_reading_le read TEMP_OUT_L
  have h := abs_reading_le read H_T_OUT_L
  rw [getTemperature_eq]
  constructor
  · exact (Calibration.exact_temperature read).abs_interpolate_sub_le warm t fused
  · exact (Calibration.exact_humidity read).abs_interpolate_sub_le wet h fused

theorem getTemperature_onLine_room :
    let registers : List UInt8 :=
      [0x00, 0xC8, 0x90, 0x01, 0, 0, 0, 0, 60, 160, 160, 24, 0, 0x04, 0xF0, 0xFF, 0, 0,
        0x00, 0xD0, 0xF4, 0xFF, 0x20, 0x03]
    let read := fun register => registers.getD (register - 0x28) 0
    |(getTemperature true read).1 -
        (Calibration.temperature read).line (reading read TEMP_OUT_L)| ≤ 1 / 2 ^ 28 ∧
      |(getTemperature true read).2 -
        (Calibration.humidity read).line (reading read H_T_OUT_L)| ≤ 1 / 2 ^ 28 := by
  intro registers read
  exact getTemperature_onLine true read (by decide) (by decide)

end RaspberryPi.Sensors
