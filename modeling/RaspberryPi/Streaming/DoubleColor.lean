import RaspberryPi.Foundation.FloatFormat
import RaspberryPi.Streaming.Color

/-! # The colours in `double`

The same channels as `display_frame` computes them. A compiler may round a product
and a sum in one, so `fused` says whether it does. -/

namespace RaspberryPi.Streaming

open FloatFormat (binary64)

/-- A constant of the source times an `int`. -/
def product (fused : Bool) (factor : Rat) (value : Int) : Rat :=
  if fused then binary64.round factor * value else binary64.round (binary64.round factor * value)

def truncate (value : Rat) : Int := value.num.tdiv value.den

namespace YuvPixel

def doubleRed (fused : Bool) (yuv : YuvPixel) : Int :=
  truncate (binary64.round (yuv.luma.toNat + product fused 1.402 (yuv.v.toNat - 128)))

def doubleGreen (fused : Bool) (yuv : YuvPixel) : Int :=
  truncate (binary64.round
    (binary64.round (yuv.luma.toNat - product fused 0.344136 (yuv.u.toNat - 128)) -
      product fused 0.714136 (yuv.v.toNat - 128)))

def doubleBlue (fused : Bool) (yuv : YuvPixel) : Int :=
  truncate (binary64.round (yuv.luma.toNat + product fused 1.772 (yuv.u.toNat - 128)))

def doublePixel (fused : Bool) (yuv : YuvPixel) : UInt16 :=
  packRgb (yuv.doubleRed fused) (yuv.doubleGreen fused) (yuv.doubleBlue fused)

end YuvPixel

/-! ## Cutting off -/

theorem truncate_of_nonneg {value : Rat} (nonnegative : 0 ≤ value) :
    truncate value = ⌊value⌋ := by
  rw [truncate, Int.tdiv_eq_ediv_of_nonneg (Rat.num_nonneg.mpr nonnegative), Rat.floor_def']

theorem truncate_neg (value : Rat) : truncate (-value) = -truncate value := by
  rw [truncate, truncate, Rat.neg_num, Rat.neg_den, Int.neg_tdiv]

theorem truncate_intCast (value : Int) : truncate value = value := by
  rw [truncate, Rat.num_intCast, Rat.den_intCast, Nat.cast_one, Int.tdiv_one]

section Close

variable {value : Rat} {numerator scale : Int}

theorem floor_eq_ediv (positive : 0 < scale) (notWhole : numerator % scale ≠ 0)
    (close : |value * scale - numerator| < 1) : ⌊value⌋ = numerator / scale := by
  have scalePos : (0 : Rat) < scale := Int.cast_pos.mpr positive
  rcases abs_lt.mp close with ⟨lower, upper⟩
  have split := Int.mul_ediv_add_emod numerator scale
  have remainder := Int.emod_nonneg numerator positive.ne'
  have below := Int.emod_lt_of_pos numerator positive
  rw [Int.floor_eq_iff]
  constructor
  · have whole : scale * (numerator / scale) + 1 ≤ numerator := by omega
    have wholeRat : (scale : Rat) * (numerator / scale : Int) + 1 ≤ numerator := by
      exact_mod_cast whole
    rw [← mul_le_mul_iff_left₀ scalePos]
    linarith
  · have whole : numerator + 1 ≤ scale * (numerator / scale) + scale := by omega
    have wholeRat : (numerator : Rat) + 1 ≤ scale * (numerator / scale : Int) + scale := by
      exact_mod_cast whole
    rw [← mul_lt_mul_iff_left₀ scalePos]
    linarith

theorem truncate_eq_of_nonneg (positive : 0 < scale) (notWhole : numerator % scale ≠ 0)
    (close : |value * scale - numerator| < 1) (nonnegative : 0 ≤ numerator) :
    truncate value = numerator.tdiv scale := by
  have floor := floor_eq_ediv positive notWhole close
  have quotient : 0 ≤ numerator / scale := Int.ediv_nonneg nonnegative positive.le
  rw [truncate_of_nonneg (Int.floor_nonneg.mp (floor ▸ quotient)), floor,
    Int.tdiv_eq_ediv_of_nonneg nonnegative]

/-- A number that is not whole is cut off alike when it is a little off. -/
theorem truncate_eq_tdiv {exact error : Rat} (positive : 0 < scale)
    (notWhole : numerator % scale ≠ 0) (same : exact * scale = numerator)
    (near : |value - exact| ≤ error) (tiny : error * scale < 1) :
    truncate value = numerator.tdiv scale := by
  have scalePos : (0 : Rat) < scale := Int.cast_pos.mpr positive
  have close : |value * scale - numerator| < 1 := by
    rw [← same, ← sub_mul, abs_mul, abs_of_pos scalePos]
    exact (mul_le_mul_of_nonneg_right near scalePos.le).trans_lt tiny
  rcases Int.lt_or_le numerator 0 with negative | nonnegative
  · have alsoNotWhole : -numerator % scale ≠ 0 := by
      rwa [ne_eq, ← Int.dvd_iff_emod_eq_zero, dvd_neg, Int.dvd_iff_emod_eq_zero]
    have alsoClose : |-value * scale - (-numerator : Int)| < 1 := by
      have turned : -value * scale - (-numerator : Int) = -(value * scale - numerator) := by
        push_cast
        ring
      rwa [turned, abs_neg]
    have mirrored := truncate_eq_of_nonneg positive alsoNotWhole alsoClose (by omega)
    rw [truncate_neg, Int.neg_tdiv] at mirrored
    exact neg_injective mirrored
  · exact truncate_eq_of_nonneg positive notWhole close nonnegative

end Close

/-! ## Rounding -/

section Rounding

variable {factor exact computed : Rat}

theorem abs_product_sub_le (fused : Bool) {value : Int} (factorFits : |factor| < 2)
    (valueFits : |value| ≤ 128) :
    |product fused factor value - factor * value| ≤ 1 / 2 ^ 44 := by
  have size : |(value : Rat)| ≤ 128 := by exact_mod_cast valueFits
  have small : |factor| < 2 ^ (1 : Int) := by simpa using factorFits
  have constant : |binary64.round factor - factor| ≤ 1 / 2 ^ 53 :=
    (FloatFormat.abs_round_binary64_sub_le small (by decide)).trans_eq (by norm_num)
  have close : |binary64.round factor * value - factor * value| ≤ 1 / 2 ^ 46 := by
    calc |binary64.round factor * value - factor * value|
        = |binary64.round factor - factor| * |(value : Rat)| := by rw [← sub_mul, abs_mul]
      _ ≤ 1 / 2 ^ 53 * 128 := mul_le_mul constant size (abs_nonneg _) (by norm_num)
      _ = 1 / 2 ^ 46 := by norm_num
  cases fused with
  | true => exact close.trans (by norm_num)
  | false =>
      have bound : |factor * value| ≤ 256 := by
        rw [abs_mul]
        exact (mul_le_mul factorFits.le size (abs_nonneg _) (by norm_num)).trans (by norm_num)
      have fits : |binary64.round factor * value| < 2 ^ (9 : Int) := by
        have triangle := abs_le.mp bound
        have near := abs_le.mp close
        rw [abs_lt]
        constructor <;> norm_num at near ⊢ <;> linarith
      have rounded : |binary64.round (binary64.round factor * value) -
          binary64.round factor * value| ≤ 1 / 2 ^ 45 :=
        (FloatFormat.abs_round_binary64_sub_le fits (by decide)).trans_eq (by norm_num)
      have total := (abs_sub_le _ _ _).trans (add_le_add rounded close)
      exact total.trans (by norm_num)

theorem abs_round_sub_le_of_close {error : Rat} (close : |computed - exact| ≤ error)
    (small : error ≤ 1) (fits : |exact| ≤ 1000) :
    |binary64.round computed - exact| ≤ 1 / 2 ^ 44 + error := by
  have inside : |computed| < 2 ^ (10 : Int) := by
    have near := abs_le.mp close
    have bound := abs_le.mp fits
    rw [abs_lt]
    constructor <;> norm_num <;> linarith
  have rounded : |binary64.round computed - computed| ≤ 1 / 2 ^ 44 :=
    (FloatFormat.abs_round_binary64_sub_le inside (by decide)).trans_eq (by norm_num)
  exact (abs_sub_le _ _ _).trans (add_le_add rounded close)

theorem product_zero (fused : Bool) (factor : Rat) : product fused factor 0 = 0 := by
  cases fused with
  | true => exact mul_zero _
  | false =>
      rw [product, if_neg Bool.false_ne_true, Int.cast_zero, mul_zero, FloatFormat.round_zero]

theorem round_byte (byte : UInt8) : binary64.round byte.toNat = byte.toNat := by
  have bound := byte.toNat_lt
  have fits : |(byte.toNat : Int)| < 2 ^ binary64.precision := by
    rw [abs_of_nonneg (by omega)]
    simp only [binary64]
    omega
  exact FloatFormat.round_intCast fits (by decide)

end Rounding

/-! ## The channels -/

theorem abs_chroma_le (chroma : UInt8) : |(chroma.toNat : Int) - 128| ≤ 128 := by
  have bound := chroma.toNat_lt
  rw [abs_le]
  omega

theorem luma_le (luma : UInt8) : (0 : Rat) ≤ luma.toNat ∧ (luma.toNat : Rat) ≤ 255 := by
  have bound := luma.toNat_lt
  exact ⟨Nat.cast_nonneg _, by exact_mod_cast Nat.le_of_lt_succ bound⟩

theorem abs_mul_chroma_le {factor : Rat} (factorFits : |factor| < 2) (chroma : UInt8) :
    |factor * ((chroma.toNat - 128 : Int) : Rat)| ≤ 256 := by
  have size : |((chroma.toNat - 128 : Int) : Rat)| ≤ 128 := by exact_mod_cast abs_chroma_le chroma
  rw [abs_mul]
  exact (mul_le_mul factorFits.le size (abs_nonneg _) (by norm_num)).trans (by norm_num)

theorem truncate_round_add (fused : Bool) (luma chroma : UInt8) {thousandths : Int} {factor : Rat}
    (same : factor * 1000 = thousandths) (factorFits : |factor| < 2)
    (whole : ∀ value : Int, |value| ≤ 128 → thousandths * value % 1000 = 0 → value = 0) :
    truncate (binary64.round (luma.toNat + product fused factor (chroma.toNat - 128))) =
      (1000 * luma.toNat + thousandths * (chroma.toNat - 128) : Int).tdiv 1000 := by
  by_cases isZero : (chroma.toNat : Int) - 128 = 0
  · rw [isZero, product_zero, add_zero, round_byte, mul_zero, Int.add_zero,
      Int.mul_tdiv_cancel_left _ (by decide)]
    exact truncate_intCast _
  · have notWhole : (1000 * luma.toNat + thousandths * (chroma.toNat - 128) : Int) % 1000 ≠ 0 := by
      rw [Int.mul_add_emod_self_left]
      exact fun isWhole => isZero (whole _ (abs_chroma_le chroma) isWhole)
    have close : |(luma.toNat + product fused factor (chroma.toNat - 128)) -
        (luma.toNat + factor * ((chroma.toNat - 128 : Int) : Rat))| ≤ 1 / 2 ^ 44 := by
      rw [add_sub_add_left_eq_sub]
      exact abs_product_sub_le fused factorFits (abs_chroma_le chroma)
    have fits : |luma.toNat + factor * ((chroma.toNat - 128 : Int) : Rat)| ≤ 1000 := by
      have bright := luma_le luma
      have bound := abs_le.mp (abs_mul_chroma_le factorFits chroma)
      rw [abs_le]
      constructor <;> linarith
    refine truncate_eq_tdiv (by decide) notWhole ?_
      (abs_round_sub_le_of_close close (by norm_num) fits) (by norm_num)
    push_cast
    rw [← same]
    ring

namespace YuvPixel

variable (fused : Bool) (yuv : YuvPixel)

theorem doubleRed_eq : yuv.doubleRed fused = yuv.red := by
  apply truncate_round_add fused yuv.luma yuv.v
  · norm_num
  · norm_num
  · intro value small whole
    rw [abs_le] at small
    omega

theorem doubleBlue_eq : yuv.doubleBlue fused = yuv.blue := by
  apply truncate_round_add fused yuv.luma yuv.u
  · norm_num
  · norm_num
  · intro value small whole
    rw [abs_le] at small
    omega

/-- Modulo 125000 one chroma determines the other where the green channel is whole. -/
theorem chroma_of_whole {u v : Nat} (inRange : v < 256)
    (whole : (344136 * u + 714136 * v) % 1000000 = 458816) : v = (115256 + 13749 * u) % 125000 := by
  omega

theorem whole_chromas : ∀ u < 256, (115256 + 13749 * u) % 125000 < 256 →
    u = 28 ∨ u = 128 ∨ u = 228 := by
  decide +kernel

/-- The green channel is whole, but not because there is no colour. -/
def WholeGreen : Prop := yuv.u = 28 ∧ yuv.v = 228 ∨ yuv.u = 228 ∧ yuv.v = 28

theorem noColor_of_whole (ordinary : ¬yuv.WholeGreen) (whole : yuv.exactGreen % 1000000 = 0) :
    (yuv.u.toNat : Int) - 128 = 0 ∧ (yuv.v.toNat : Int) - 128 = 0 := by
  have uBound := yuv.u.toNat_lt
  have vBound := yuv.v.toNat_lt
  have sum : (344136 * yuv.u.toNat + 714136 * yuv.v.toNat) % 1000000 = 458816 := by
    rw [exactGreen] at whole
    omega
  have v := chroma_of_whole vBound sum
  have cases := whole_chromas yuv.u.toNat uBound (v ▸ vBound)
  simp only [WholeGreen, ← UInt8.toNat_inj] at ordinary
  rcases cases with u | u | u
  · rw [u] at v
    exact absurd (Or.inl ⟨u, v⟩) ordinary
  · rw [u] at v ⊢
    exact ⟨rfl, by rw [v]; rfl⟩
  · rw [u] at v
    exact absurd (Or.inr ⟨u, v⟩) ordinary

theorem doubleGreen_eq (ordinary : ¬yuv.WholeGreen) : yuv.doubleGreen fused = yuv.green := by
  by_cases whole : yuv.exactGreen % 1000000 = 0
  · rcases yuv.noColor_of_whole ordinary whole with ⟨u, v⟩
    rw [doubleGreen, green, exactGreen, u, v, product_zero, product_zero, sub_zero, sub_zero,
      round_byte, round_byte, mul_zero, mul_zero, Int.sub_zero, Int.sub_zero,
      Int.mul_tdiv_cancel_left _ (by decide)]
    exact truncate_intCast _
  · have uFits : |(0.344136 : Rat)| < 2 := by norm_num
    have vFits : |(0.714136 : Rat)| < 2 := by norm_num
    have uBound := abs_le.mp (abs_mul_chroma_le uFits yuv.u)
    have vBound := abs_le.mp (abs_mul_chroma_le vFits yuv.v)
    have bright := luma_le yuv.luma
    have first : |(yuv.luma.toNat - product fused 0.344136 (yuv.u.toNat - 128)) -
        (yuv.luma.toNat - 0.344136 * ((yuv.u.toNat - 128 : Int) : Rat))| ≤ 1 / 2 ^ 44 := by
      rw [sub_sub_sub_cancel_left, abs_sub_comm]
      exact abs_product_sub_le fused uFits (abs_chroma_le yuv.u)
    have firstFits : |yuv.luma.toNat - 0.344136 * ((yuv.u.toNat - 128 : Int) : Rat)| ≤ 1000 := by
      rw [abs_le]
      constructor <;> linarith
    have rounded := abs_round_sub_le_of_close first (by norm_num) firstFits
    have second := abs_product_sub_le fused vFits (abs_chroma_le yuv.v)
    have both : |(binary64.round (yuv.luma.toNat - product fused 0.344136 (yuv.u.toNat - 128)) -
        product fused 0.714136 (yuv.v.toNat - 128)) -
        (yuv.luma.toNat - 0.344136 * ((yuv.u.toNat - 128 : Int) : Rat) -
          0.714136 * ((yuv.v.toNat - 128 : Int) : Rat))| ≤ 3 / 2 ^ 44 := by
      rw [sub_sub_sub_comm]
      exact ((abs_sub _ _).trans (add_le_add rounded second)).trans_eq (by norm_num)
    have fits : |yuv.luma.toNat - 0.344136 * ((yuv.u.toNat - 128 : Int) : Rat) -
        0.714136 * ((yuv.v.toNat - 128 : Int) : Rat)| ≤ 1000 := by
      rw [abs_le]
      constructor <;> linarith
    refine truncate_eq_tdiv (by decide) whole ?_
      (abs_round_sub_le_of_close both (by norm_num) fits) (by norm_num)
    rw [exactGreen]
    push_cast
    ring

/-- In `double` a pixel is what it is with exact coefficients, at all chromas but two. -/
theorem doublePixel_eq (ordinary : ¬yuv.WholeGreen) : yuv.doublePixel fused = yuv.pixel := by
  rw [doublePixel, doubleRed_eq, doubleGreen_eq fused yuv ordinary, doubleBlue_eq, pixel]

/-- A whole green may come out one too small. -/
example : (YuvPixel.mk 225 28 228).green = 188 ∧
    (YuvPixel.mk 225 28 228).doubleGreen false = 187 := by
  decide +kernel

end YuvPixel

end RaspberryPi.Streaming
