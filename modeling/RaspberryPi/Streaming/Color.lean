import Mathlib.Tactic.IntervalCases
import RaspberryPi.Foundation.CString

/-! # From YUYV to RGB565

The colours of `display_frame`. Coefficients are exact, and storing a number in
an `int` cuts off what is behind the point. -/

namespace RaspberryPi.Streaming

/-- What a frame says about one pixel; two neighbours share `u` and `v`. -/
structure YuvPixel where
  luma : UInt8
  u : UInt8
  v : UInt8

namespace YuvPixel

/-! Red and blue in thousandths and green in millionths, before the conversion. -/

def exactRed (yuv : YuvPixel) : Int := 1000 * yuv.luma.toNat + 1402 * (yuv.v.toNat - 128)

def exactGreen (yuv : YuvPixel) : Int :=
  1000000 * yuv.luma.toNat - 344136 * (yuv.u.toNat - 128) - 714136 * (yuv.v.toNat - 128)

def exactBlue (yuv : YuvPixel) : Int := 1000 * yuv.luma.toNat + 1772 * (yuv.u.toNat - 128)

def red (yuv : YuvPixel) : Int := yuv.exactRed.tdiv 1000

def green (yuv : YuvPixel) : Int := yuv.exactGreen.tdiv 1000000

def blue (yuv : YuvPixel) : Int := yuv.exactBlue.tdiv 1000

end YuvPixel

def packRgb (r g b : Int) : UInt16 :=
  ⟨((BitVec.ofInt 32 r &&& 0xF8#32) <<< 8 ||| (BitVec.ofInt 32 g &&& 0xFC#32) <<< 3 |||
    (BitVec.ofInt 32 b).sshiftRight 3).setWidth 16⟩

def YuvPixel.pixel (yuv : YuvPixel) : UInt16 := packRgb yuv.red yuv.green yuv.blue

/-! The parts of a pixel as the screen shows them. -/

def redField (pixel : UInt16) : BitVec 5 := pixel.toBitVec.extractLsb' 11 5

def greenField (pixel : UInt16) : BitVec 6 := pixel.toBitVec.extractLsb' 5 6

def blueField (pixel : UInt16) : BitVec 5 := pixel.toBitVec.extractLsb' 0 5

def clampByte (value : Int) : Nat := (max 0 (min value 255)).toNat

/-- The fields are the top bits of the channels. -/
structure ShowsColor (pixel : UInt16) (r g b : Int) : Prop where
  red : (redField pixel).toNat = clampByte r / 8
  green : (greenField pixel).toNat = clampByte g / 4
  blue : (blueField pixel).toNat = clampByte b / 8

structure YuvPixel.InGamut (yuv : YuvPixel) : Prop where
  red : -1000 < yuv.exactRed ∧ yuv.exactRed < 256000
  green : -1000000 < yuv.exactGreen ∧ yuv.exactGreen < 256000000
  blue : -1000 < yuv.exactBlue ∧ yuv.exactBlue < 256000

/-! ## Where the bits of a channel go -/

theorem redField_packRgb (r g b : Int) : redField (packRgb r g b) =
    (BitVec.ofInt 32 r).extractLsb' 3 5 |||
      ((BitVec.ofInt 32 b).sshiftRight 3).extractLsb' 11 5 := by
  rw [redField, packRgb]
  ext index inside
  interval_cases index <;> simp

/-- What is left of blue after the shift reaches into green. -/
theorem greenField_packRgb (r g b : Int) : greenField (packRgb r g b) =
    (BitVec.ofInt 32 g).extractLsb' 2 6 |||
      ((BitVec.ofInt 32 b).sshiftRight 3).extractLsb' 5 6 := by
  rw [greenField, packRgb]
  ext index inside
  interval_cases index <;> simp

theorem blueField_packRgb (r g b : Int) :
    blueField (packRgb r g b) = (BitVec.ofInt 32 b).extractLsb' 3 5 := by
  rw [blueField, packRgb]
  ext index inside
  interval_cases index <;> simp [BitVec.getElem_sshiftRight]

theorem toNat_sshiftRight_ofInt {value : Int} (fits : 0 ≤ value ∧ value < 256) :
    ((BitVec.ofInt 32 value).sshiftRight 3).toNat = (value / 8).toNat := by
  obtain ⟨byte, rfl⟩ := Int.eq_ofNat_of_zero_le fits.1
  have positive : (BitVec.ofNat 32 byte).msb = false := by
    rw [BitVec.msb_eq_false_iff_two_mul_lt, BitVec.toNat_ofNat]
    omega
  rw [BitVec.ofInt_natCast, BitVec.sshiftRight_eq_of_msb_false positive, BitVec.toNat_ushiftRight,
    BitVec.toNat_ofNat, Nat.shiftRight_eq_div_pow]
  omega

theorem toNat_redField {r g b : Int} (blueFits : 0 ≤ b ∧ b < 256) :
    (redField (packRgb r g b)).toNat = (r / 8 % 32).toNat := by
  have spill : ((BitVec.ofInt 32 b).sshiftRight 3).extractLsb' 11 5 = 0#5 := by
    apply BitVec.eq_of_toNat_eq
    rw [BitVec.extractLsb'_toNat, toNat_sshiftRight_ofInt blueFits, Nat.shiftRight_eq_div_pow]
    show _ = 0
    omega
  rw [redField_packRgb, spill, BitVec.or_zero, BitVec.extractLsb'_toNat, BitVec.toNat_ofInt,
    Nat.shiftRight_eq_div_pow]
  omega

theorem toNat_greenField {r g b : Int} (blueFits : 0 ≤ b ∧ b < 256) :
    (greenField (packRgb r g b)).toNat = (g / 4 % 64).toNat := by
  have spill : ((BitVec.ofInt 32 b).sshiftRight 3).extractLsb' 5 6 = 0#6 := by
    apply BitVec.eq_of_toNat_eq
    rw [BitVec.extractLsb'_toNat, toNat_sshiftRight_ofInt blueFits, Nat.shiftRight_eq_div_pow]
    show _ = 0
    omega
  rw [greenField_packRgb, spill, BitVec.or_zero, BitVec.extractLsb'_toNat, BitVec.toNat_ofInt,
    Nat.shiftRight_eq_div_pow]
  omega

theorem toNat_blueField (r g b : Int) :
    (blueField (packRgb r g b)).toNat = (b / 8 % 32).toNat := by
  rw [blueField_packRgb, BitVec.extractLsb'_toNat, BitVec.toNat_ofInt, Nat.shiftRight_eq_div_pow]
  omega

/-! ## Channels that fit -/

/-- The channels of a frame stay so close to a byte that only a byte has the top
bits of its clamped value. -/
structure NearByte (value : Int) : Prop where
  lower : -248 ≤ value
  upper : value < 504

theorem NearByte.topFive_iff {value : Int} (near : NearByte value) :
    (value / 8 % 32).toNat = clampByte value / 8 ↔ 0 ≤ value ∧ value < 256 := by
  have lower := near.lower
  have upper := near.upper
  rw [clampByte]
  omega

theorem NearByte.topSix_iff {value : Int} (near : NearByte value) :
    (value / 4 % 64).toNat = clampByte value / 4 ↔ 0 ≤ value ∧ value < 256 := by
  have lower := near.lower
  have upper := near.upper
  rw [clampByte]
  omega

theorem showsColor_packRgb_iff {r g b : Int} (nearRed : NearByte r) (nearGreen : NearByte g)
    (nearBlue : NearByte b) :
    ShowsColor (packRgb r g b) r g b ↔
      (0 ≤ r ∧ r < 256) ∧ (0 ≤ g ∧ g < 256) ∧ (0 ≤ b ∧ b < 256) := by
  constructor
  · intro shows
    have blue : 0 ≤ b ∧ b < 256 := by
      rw [← nearBlue.topFive_iff, ← toNat_blueField r g b]
      exact shows.blue
    refine ⟨?_, ?_, blue⟩
    · rw [← nearRed.topFive_iff, ← toNat_redField (g := g) blue]
      exact shows.red
    · rw [← nearGreen.topSix_iff, ← toNat_greenField (r := r) blue]
      exact shows.green
  · rintro ⟨red, green, blue⟩
    constructor
    · rw [toNat_redField blue]
      exact nearRed.topFive_iff.mpr red
    · rw [toNat_greenField blue]
      exact nearGreen.topSix_iff.mpr green
    · rw [toNat_blueField]
      exact nearBlue.topFive_iff.mpr blue

/-! ## The conversion to `int` -/

theorem tdiv_eq_neg {value : Int} (scale : Int) (negative : value < 0) :
    value.tdiv scale = -(-value / scale) := by
  rw [← Int.tdiv_eq_ediv_of_nonneg (by omega), Int.neg_tdiv, Int.neg_neg]

/-- What is just below zero comes to zero. -/
theorem tdiv_isByte_iff {value scale : Int} (positive : 0 < scale) :
    0 ≤ value.tdiv scale ∧ value.tdiv scale < 256 ↔ -scale < value ∧ value < 256 * scale := by
  rcases Int.lt_or_le value 0 with negative | nonnegative
  · have quotient : 0 ≤ -value / scale := Int.ediv_nonneg (by omega) (by omega)
    have vanishes : -value / scale < 1 ↔ -value < 1 * scale :=
      Int.ediv_lt_iff_lt_mul positive
    rw [tdiv_eq_neg scale negative]
    omega
  · have quotient : 0 ≤ value / scale := Int.ediv_nonneg nonnegative (by omega)
    rw [Int.tdiv_eq_ediv_of_nonneg nonnegative, Int.ediv_lt_iff_lt_mul positive]
    omega

theorem nearByte_tdiv {value scale : Int} (positive : 0 < scale) (lower : -248 * scale ≤ value)
    (upper : value < 504 * scale) : NearByte (value.tdiv scale) := by
  rcases Int.lt_or_le value 0 with negative | nonnegative
  · have quotient : 0 ≤ -value / scale := Int.ediv_nonneg (by omega) (by omega)
    have small : -value / scale < 249 := by
      rw [Int.ediv_lt_iff_lt_mul positive]
      omega
    rw [tdiv_eq_neg scale negative]
    constructor <;> omega
  · have quotient : 0 ≤ value / scale := Int.ediv_nonneg nonnegative (by omega)
    have small : value / scale < 504 := by
      rwa [Int.ediv_lt_iff_lt_mul positive]
    rw [Int.tdiv_eq_ediv_of_nonneg nonnegative]
    constructor <;> omega

namespace YuvPixel

variable (yuv : YuvPixel)

theorem nearByte_red : NearByte yuv.red := by
  have luma := yuv.luma.toNat_lt
  have v := yuv.v.toNat_lt
  apply nearByte_tdiv (by decide)
  · rw [exactRed]
    omega
  · rw [exactRed]
    omega

theorem nearByte_green : NearByte yuv.green := by
  have luma := yuv.luma.toNat_lt
  have u := yuv.u.toNat_lt
  have v := yuv.v.toNat_lt
  apply nearByte_tdiv (by decide)
  · rw [exactGreen]
    omega
  · rw [exactGreen]
    omega

theorem nearByte_blue : NearByte yuv.blue := by
  have luma := yuv.luma.toNat_lt
  have u := yuv.u.toNat_lt
  apply nearByte_tdiv (by decide)
  · rw [exactBlue]
    omega
  · rw [exactBlue]
    omega

theorem inGamut_iff : yuv.InGamut ↔ (0 ≤ yuv.red ∧ yuv.red < 256) ∧
    (0 ≤ yuv.green ∧ yuv.green < 256) ∧ (0 ≤ yuv.blue ∧ yuv.blue < 256) := by
  rw [red, green, blue, tdiv_isByte_iff (by decide), tdiv_isByte_iff (by decide),
    tdiv_isByte_iff (by decide)]
  constructor
  · intro gamut
    exact ⟨gamut.red, gamut.green, gamut.blue⟩
  · rintro ⟨red, green, blue⟩
    exact ⟨red, green, blue⟩

theorem showsColor_iff :
    ShowsColor yuv.pixel yuv.red yuv.green yuv.blue ↔ yuv.InGamut := by
  rw [inGamut_iff, pixel]
  exact showsColor_packRgb_iff yuv.nearByte_red yuv.nearByte_green yuv.nearByte_blue

end YuvPixel

end RaspberryPi.Streaming
