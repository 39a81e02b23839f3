import Mathlib.Data.List.Range
import Mathlib.Tactic.FieldSimp
import RaspberryPi.Fbdraw.Rectangle
import RaspberryPi.Foundation.FloatFormat

/-! # Drawing a line

`drawline` of `fbdraw.c`. It adds up `float` increments, and `drawpoint` gets what
they are rounded to. -/

namespace RaspberryPi.Fbdraw

open FloatFormat (binary32)

/-- The nearest integer, of two the one away from zero. -/
def roundf (x : Rat) : Int := if x < 0 then -⌊1 / 2 - x⌋ else ⌊x + 1 / 2⌋

structure Line where
  x0 : Int
  y0 : Int
  x1 : Int
  y1 : Int

namespace Line

def dx (line : Line) : Int := line.x1 - line.x0

def dy (line : Line) : Int := line.y1 - line.y0

def steps (line : Line) : Nat :=
  if line.dy.natAbs < line.dx.natAbs then line.dx.natAbs else line.dy.natAbs

/-- `(float)dx / (float)steps`. Without steps this is not a number, but then it is
only added after the last point. -/
def increment (distance : Int) (steps : Nat) : Rat :=
  binary32.round (binary32.round distance / binary32.round steps)

def loop (xIncrement yIncrement : Rat) : Nat → Rat → Rat → List (Int × Int)
  | 0, _, _ => []
  | left + 1, x, y =>
      (roundf x, roundf y) :: loop xIncrement yIncrement left
        (binary32.round (x + xIncrement)) (binary32.round (y + yIncrement))

def points (line : Line) : List (Int × Int) :=
  loop (increment line.dx line.steps) (increment line.dy line.steps) (line.steps + 1)
    (binary32.round line.x0) (binary32.round line.y0)

end Line

def drawline (vinfo : Vinfo) (line : Line) (r g b : UInt8) (device : Device) : Device :=
  line.points.foldl (fun device point => drawpoint vinfo point.1 point.2 r g b device) device

/-! ## Rounding to a pixel -/

theorem abs_roundf_sub_le (x : Rat) : |roundf x - x| ≤ 1 / 2 := by
  rw [roundf, abs_le]
  split_ifs
  · have below := Int.floor_le (1 / 2 - x)
    have above := Int.lt_floor_add_one (1 / 2 - x)
    push_cast
    constructor <;> linarith
  · have below := Int.floor_le (x + 1 / 2)
    have above := Int.lt_floor_add_one (x + 1 / 2)
    constructor <;> linarith

theorem roundf_eq_of_near {x : Rat} {n : Int} (near : |x - n| < 1 / 2) : roundf x = n := by
  have rounded := abs_le.mp (abs_roundf_sub_le x)
  have close := abs_lt.mp near
  have above : roundf x < n + 1 := by
    have less : (roundf x : Rat) < n + 1 := by linarith
    exact_mod_cast less
  have below : n < roundf x + 1 := by
    have less : (n : Rat) < roundf x + 1 := by linarith
    exact_mod_cast less
  omega

theorem roundf_intCast (n : Int) : roundf n = n := by
  apply roundf_eq_of_near
  rw [sub_self, abs_zero]
  exact one_half_pos

theorem abs_roundf_sub_roundf_le {x y : Rat} (close : |x - y| < 1) :
    |roundf x - roundf y| ≤ 1 := by
  have xRounded := abs_le.mp (abs_roundf_sub_le x)
  have yRounded := abs_le.mp (abs_roundf_sub_le y)
  have apart := abs_lt.mp close
  have above : roundf x - roundf y < 2 := by
    have less : (roundf x : Rat) - roundf y < 2 := by linarith
    exact_mod_cast less
  have below : -2 < roundf x - roundf y := by
    have less : (-2 : Rat) < roundf x - roundf y := by linarith
    exact_mod_cast less
  rw [abs_le]
  omega

/-! ## One coordinate -/

def coordinate (increment start : Rat) : Nat → Rat
  | 0 => start
  | round + 1 => binary32.round (coordinate increment start round + increment)

theorem coordinate_succ (increment start : Rat) (round : Nat) :
    coordinate increment start (round + 1) =
      coordinate increment (binary32.round (start + increment)) round := by
  induction round with
  | zero => rfl
  | succ round induction => rw [coordinate, induction, coordinate]

theorem Line.loop_eq (xIncrement yIncrement : Rat) (left : Nat) (x y : Rat) :
    loop xIncrement yIncrement left x y = (List.range left).map fun round =>
      (roundf (coordinate xIncrement x round), roundf (coordinate yIncrement y round)) := by
  induction left generalizing x y with
  | zero => rfl
  | succ left induction =>
      rw [loop, induction, List.range_succ_eq_map, List.map_cons, List.map_map]
      simp only [Function.comp_def, Nat.succ_eq_add_one, coordinate_succ]
      rfl

structure Axis where
  start : Int
  finish : Int
  steps : Nat
  startSmall : |start| ≤ 2047
  finishSmall : |finish| ≤ 2047
  enough : |finish - start| ≤ steps
  stepsSmall : steps ≤ 4094

namespace Axis

variable (axis : Axis)

def distance : Int := axis.finish - axis.start

def value (round : Nat) : Rat :=
  coordinate (Line.increment axis.distance axis.steps) (binary32.round axis.start) round

def pixel (round : Nat) : Int := roundf (axis.value round)

def ideal (round : Nat) : Rat := axis.start + axis.distance * round / axis.steps

def slope : Rat := axis.distance / axis.steps

def drift : Rat := 1 / 2 ^ 14 + 1 / 2 ^ 24

theorem round_int {n : Int} (small : |n| < 2 ^ 24) : binary32.round n = n :=
  FloatFormat.round_intCast small (by decide)

theorem value_zero : axis.value 0 = axis.start := by
  have small : |axis.start| < 2 ^ 24 := axis.startSmall.trans_lt (by decide)
  exact round_int small

theorem increment_eq : Line.increment axis.distance axis.steps = binary32.round axis.slope := by
  have stepsSmall := axis.stepsSmall
  have distanceSmall : |axis.distance| < 2 ^ 24 :=
    axis.enough.trans_lt (by omega)
  have steps : binary32.round (axis.steps : Int) = (axis.steps : Int) :=
    round_int (by rw [abs_of_nonneg (Int.natCast_nonneg _)]; omega)
  rw [Int.cast_natCast] at steps
  rw [Line.increment, round_int distanceSmall, steps, slope]

theorem value_succ (round : Nat) :
    axis.value (round + 1) =
      binary32.round (axis.value round + binary32.round axis.slope) := by
  rw [value, coordinate, increment_eq, ← increment_eq, ← value]

/-! The coordinate that changes in every round. -/

theorem slope_of_full (full : |axis.distance| = axis.steps) (going : 0 < axis.steps) :
    axis.slope = axis.distance.sign := by
  have positive : (0 : Rat) < axis.steps := by exact_mod_cast going
  have whole : axis.distance.sign * axis.steps = axis.distance := by
    rw [← full, Int.sign_mul_abs]
  rw [slope, div_eq_iff positive.ne']
  exact_mod_cast whole.symm

theorem value_of_full (full : |axis.distance| = axis.steps) {round : Nat}
    (inside : round ≤ axis.steps) :
    axis.value round = (axis.start + axis.distance.sign * round : Int) := by
  have startSmall := abs_le.mp axis.startSmall
  have stepsSmall := axis.stepsSmall
  have unit : |axis.distance.sign| < 2 ^ 24 := by
    rcases Int.sign_trichotomy axis.distance with sign | sign | sign <;> rw [sign] <;> decide
  induction round with
  | zero => rw [value_zero, Nat.cast_zero, mul_zero, add_zero]
  | succ round induction =>
      have small : |axis.start + axis.distance.sign * (round + 1 : Nat)| < 2 ^ 24 := by
        rw [abs_lt]
        rcases Int.sign_trichotomy axis.distance with sign | sign | sign <;> rw [sign] <;> omega
      have next : ((axis.start + axis.distance.sign * round : Int) : Rat) + axis.distance.sign =
          (axis.start + axis.distance.sign * (round + 1 : Nat) : Int) := by
        push_cast
        ring
      rw [value_succ, induction (by omega), axis.slope_of_full full (by omega), round_int unit,
        next, round_int small]

/-! The other coordinate, where rounding adds up. -/

theorem abs_slope_le : |axis.slope| ≤ 1 := by
  have enough : |(axis.distance : Rat)| ≤ axis.steps := by exact_mod_cast axis.enough
  rw [slope, abs_div, Nat.abs_cast]
  exact div_le_one_of_le₀ enough (Nat.cast_nonneg _)

theorem abs_increment_sub_le :
    |binary32.round axis.slope - axis.slope| ≤ 1 / 2 ^ 24 := by
  have small : |axis.slope| < 2 ^ (1 : Int) := axis.abs_slope_le.trans_lt (by norm_num)
  have rounded := FloatFormat.abs_round_sub_le small (by decide : binary32.minExponent ≤ _)
  exact rounded.trans_eq (by norm_num [binary32])

theorem abs_round_sub_le {x : Rat} (small : |x| < 2048) :
    |binary32.round x - x| ≤ 1 / 2 ^ 14 := by
  have elevenBits : |x| < 2 ^ (11 : Int) := small.trans_eq (by norm_num)
  have rounded := FloatFormat.abs_round_sub_le elevenBits
    (by decide : binary32.minExponent ≤ _)
  exact rounded.trans_eq (by norm_num [binary32])

theorem ideal_zero : axis.ideal 0 = axis.start := by
  rw [ideal, Nat.cast_zero, mul_zero, zero_div, add_zero]

theorem ideal_succ (round : Nat) :
    axis.ideal (round + 1) = axis.ideal round + axis.slope := by
  rw [ideal, ideal, slope]
  push_cast
  ring

theorem abs_ideal_le {round : Nat} (inside : round ≤ axis.steps) : |axis.ideal round| ≤ 2047 := by
  have startSmall : |(axis.start : Rat)| ≤ 2047 := by exact_mod_cast axis.startSmall
  have finishSmall : |(axis.finish : Rat)| ≤ 2047 := by exact_mod_cast axis.finishSmall
  have part : (round : Rat) / axis.steps ≤ 1 :=
    div_le_one_of_le₀ (by exact_mod_cast inside) (Nat.cast_nonneg _)
  have positive : 0 ≤ (round : Rat) / axis.steps :=
    div_nonneg (Nat.cast_nonneg _) (Nat.cast_nonneg _)
  have between : axis.ideal round = (1 - (round : Rat) / axis.steps) * axis.start +
      (round : Rat) / axis.steps * axis.finish := by
    rw [ideal, distance]
    push_cast
    ring
  calc |axis.ideal round|
      ≤ |(1 - (round : Rat) / axis.steps) * axis.start| +
          |(round : Rat) / axis.steps * axis.finish| := by
        rw [between]
        exact abs_add_le _ _
    _ = (1 - (round : Rat) / axis.steps) * |(axis.start : Rat)| +
          (round : Rat) / axis.steps * |(axis.finish : Rat)| := by
        rw [abs_mul, abs_mul, abs_of_nonneg positive, abs_of_nonneg (sub_nonneg.mpr part)]
    _ ≤ (1 - (round : Rat) / axis.steps) * 2047 + (round : Rat) / axis.steps * 2047 :=
        add_le_add (mul_le_mul_of_nonneg_left startSmall (sub_nonneg.mpr part))
          (mul_le_mul_of_nonneg_left finishSmall positive)
    _ = 2047 := by ring

theorem drift_le {round : Nat} (inside : round ≤ axis.steps) : round * drift ≤ 1 / 3 := by
  have few : (round : Rat) ≤ 4094 := by exact_mod_cast inside.trans axis.stepsSmall
  rw [drift]
  linarith

variable {axis}

theorem abs_sum_lt {round : Nat} (inside : round < axis.steps)
    (close : |axis.value round - axis.ideal round| ≤ round * drift) :
    |axis.value round + binary32.round axis.slope| < 2048 := by
  have before := abs_le.mp close
  have slope := abs_le.mp axis.abs_increment_sub_le
  have between := abs_le.mp (axis.abs_ideal_le (Nat.succ_le_of_lt inside))
  have total := axis.drift_le inside.le
  rw [Nat.succ_eq_add_one, ideal_succ] at between
  rw [abs_lt]
  constructor <;> linarith

theorem abs_value_sub_le {round : Nat} (inside : round ≤ axis.steps) :
    |axis.value round - axis.ideal round| ≤ round * drift := by
  induction round with
  | zero => rw [value_zero, ideal_zero, sub_self, abs_zero, Nat.cast_zero, zero_mul]
  | succ round induction =>
      have close := induction (by omega)
      have before := abs_le.mp close
      have slope := abs_le.mp axis.abs_increment_sub_le
      have rounded := abs_le.mp (abs_round_sub_le (abs_sum_lt inside close))
      rw [value_succ, ideal_succ, abs_le]
      push_cast
      rw [drift] at before ⊢
      constructor <;> linarith

/-- A line that is not as long as its steps has a slope that is noticeably below one. -/
theorem abs_slope_le_of_short (short : |axis.distance| < axis.steps) :
    |axis.slope| ≤ 1 - 1 / 4094 := by
  have few : (axis.steps : Rat) ≤ 4094 := by exact_mod_cast axis.stepsSmall
  have less : |(axis.distance : Rat)| ≤ axis.steps - 1 := by
    have whole : |axis.distance| + 1 ≤ axis.steps := short
    have cast : |(axis.distance : Rat)| + 1 ≤ axis.steps := by exact_mod_cast whole
    linarith
  have positive : (0 : Rat) < axis.steps := by
    have absolute := abs_nonneg (axis.distance : Rat)
    linarith
  rw [slope, abs_div, Nat.abs_cast, div_le_iff₀ positive]
  linarith

/-! ## What is drawn of the coordinate -/

theorem pixel_zero : axis.pixel 0 = axis.start := by
  rw [pixel, value_zero, roundf_intCast]

theorem pixel_of_full (full : |axis.distance| = axis.steps) {round : Nat}
    (inside : round ≤ axis.steps) :
    axis.pixel round = axis.start + axis.distance.sign * round := by
  rw [pixel, value_of_full axis full inside, roundf_intCast]

theorem abs_pixel_sub_le {round : Nat} (inside : round ≤ axis.steps) :
    |axis.pixel round - axis.ideal round| ≤ 5 / 6 := by
  have rounded := abs_le.mp (abs_roundf_sub_le (axis.value round))
  have close := abs_le.mp (abs_value_sub_le inside)
  have total := axis.drift_le inside
  rw [pixel, abs_le]
  constructor <;> linarith

theorem ideal_steps : axis.ideal axis.steps = axis.finish := by
  have enough := axis.enough
  rcases Nat.eq_zero_or_pos axis.steps with none | going
  · have same : axis.finish = axis.start := by
      rw [none, Nat.cast_zero, abs_nonpos_iff] at enough
      exact sub_eq_zero.mp enough
    rw [none, ideal_zero, same]
  · have nonzero : (axis.steps : Rat) ≠ 0 := by exact_mod_cast going.ne'
    rw [ideal, mul_div_cancel_right₀ _ nonzero, distance]
    push_cast
    ring

theorem pixel_steps : axis.pixel axis.steps = axis.finish := by
  have close := abs_value_sub_le (le_refl axis.steps)
  have total := axis.drift_le (le_refl axis.steps)
  rw [ideal_steps] at close
  apply roundf_eq_of_near
  linarith

theorem pixel_eq_ideal (full : |axis.distance| = axis.steps) {round : Nat}
    (inside : round ≤ axis.steps) : axis.pixel round = axis.ideal round := by
  rcases Nat.eq_zero_or_pos round with first | later
  · rw [first, pixel_zero, ideal_zero]
  · have slope := axis.slope_of_full full (Nat.lt_of_lt_of_le later inside)
    have whole : axis.ideal round = axis.start + axis.slope * round := by
      rw [ideal, Axis.slope]
      ring
    rw [whole, slope, pixel_of_full full inside]
    push_cast
    rfl

theorem pixel_succ_ne (full : |axis.distance| = axis.steps) {round : Nat}
    (inside : round < axis.steps) : axis.pixel round ≠ axis.pixel (round + 1) := by
  intro same
  rw [pixel_of_full full inside, pixel_of_full full inside.le] at same
  push_cast at same
  have still : axis.distance.sign = 0 := by linarith
  rw [Int.sign_eq_zero_iff_zero.mp still, abs_zero] at full
  omega

theorem abs_pixel_succ_sub_le {round : Nat} (inside : round < axis.steps) :
    |axis.pixel (round + 1) - axis.pixel round| ≤ 1 := by
  rcases axis.enough.lt_or_eq with short | full
  · have rounded := abs_le.mp (abs_round_sub_le (abs_sum_lt inside (abs_value_sub_le inside.le)))
    have increment := abs_le.mp axis.abs_increment_sub_le
    have slope := abs_le.mp (abs_slope_le_of_short short)
    apply abs_roundf_sub_roundf_le
    rw [value_succ, abs_lt]
    constructor <;> linarith
  · have step : axis.pixel (round + 1) - axis.pixel round = axis.distance.sign := by
      rw [pixel_of_full full inside, pixel_of_full full inside.le]
      push_cast
      ring
    rw [step]
    rcases Int.sign_trichotomy axis.distance with sign | sign | sign <;> rw [sign] <;> decide

end Axis

/-! ## The whole line -/

namespace Line

structure Small (line : Line) : Prop where
  x0 : |line.x0| ≤ 2047
  y0 : |line.y0| ≤ 2047
  x1 : |line.x1| ≤ 2047
  y1 : |line.y1| ≤ 2047

def ideal (line : Line) (round : Nat) : Rat × Rat :=
  (line.x0 + line.dx * round / line.steps, line.y0 + line.dy * round / line.steps)

/-- From one end to the other in steps to a neighbour, never far from the line. -/
structure Traces (line : Line) (points : List (Int × Int)) : Prop where
  first : points.head? = some (line.x0, line.y0)
  last : points.getLast? = some (line.x1, line.y1)
  length : points.length = line.steps + 1
  touching : points.IsChain fun point following =>
    point ≠ following ∧ |following.1 - point.1| ≤ 1 ∧ |following.2 - point.2| ≤ 1
  near : ∀ round point, points[round]? = some point →
    |point.1 - (line.ideal round).1| ≤ 5 / 6 ∧ |point.2 - (line.ideal round).2| ≤ 5 / 6 ∧
      (point.1 = (line.ideal round).1 ∨ point.2 = (line.ideal round).2)

variable {line : Line}

theorem abs_dx_le (line : Line) : |line.dx| ≤ line.steps := by
  rw [Int.abs_eq_natAbs, steps]
  split_ifs <;> omega

theorem abs_dy_le (line : Line) : |line.dy| ≤ line.steps := by
  rw [Int.abs_eq_natAbs, steps]
  split_ifs <;> omega

theorem Small.steps_le (small : line.Small) : line.steps ≤ 4094 := by
  have x0 := abs_le.mp small.x0
  have y0 := abs_le.mp small.y0
  have x1 := abs_le.mp small.x1
  have y1 := abs_le.mp small.y1
  rw [steps, dx, dy]
  split_ifs <;> omega

def Small.xAxis (small : line.Small) : Axis where
  start := line.x0
  finish := line.x1
  steps := line.steps
  startSmall := small.x0
  finishSmall := small.x1
  enough := line.abs_dx_le
  stepsSmall := small.steps_le

def Small.yAxis (small : line.Small) : Axis where
  start := line.y0
  finish := line.y1
  steps := line.steps
  startSmall := small.y0
  finishSmall := small.y1
  enough := line.abs_dy_le
  stepsSmall := small.steps_le

theorem Small.points_eq (small : line.Small) :
    line.points = (List.range (line.steps + 1)).map fun round =>
      (small.xAxis.pixel round, small.yAxis.pixel round) :=
  loop_eq _ _ _ _ _

theorem Small.full (small : line.Small) :
    |small.xAxis.distance| = small.xAxis.steps ∨ |small.yAxis.distance| = small.yAxis.steps := by
  have steps : (line.steps : Int) = |line.dx| ∨ (line.steps : Int) = |line.dy| := by
    rw [Int.abs_eq_natAbs, Int.abs_eq_natAbs, Line.steps]
    split_ifs
    · exact Or.inl rfl
    · exact Or.inr rfl
  rcases steps with x | y
  · exact Or.inl x.symm
  · exact Or.inr y.symm

theorem Small.touching (small : line.Small) {round : Nat} (inside : round < line.steps) :
    (small.xAxis.pixel round, small.yAxis.pixel round) ≠
      (small.xAxis.pixel (round + 1), small.yAxis.pixel (round + 1)) := by
  intro same
  rcases small.full with full | full
  · exact Axis.pixel_succ_ne full inside (congrArg Prod.fst same)
  · exact Axis.pixel_succ_ne full inside (congrArg Prod.snd same)

theorem Small.traces (small : line.Small) : line.Traces line.points := by
  rw [small.points_eq]
  constructor
  · rw [List.range_succ_eq_map, List.map_cons, List.head?_cons, Axis.pixel_zero, Axis.pixel_zero]
    rfl
  · have x : small.xAxis.pixel line.steps = line.x1 := Axis.pixel_steps
    have y : small.yAxis.pixel line.steps = line.y1 := Axis.pixel_steps
    rw [List.range_succ, List.map_append, List.map_singleton, List.getLast?_concat, x, y]
  · rw [List.length_map, List.length_range]
  · rw [List.isChain_map, List.isChain_range_succ]
    intro round inside
    exact ⟨small.touching inside, Axis.abs_pixel_succ_sub_le inside,
      Axis.abs_pixel_succ_sub_le inside⟩
  · intro round point isPoint
    rw [List.getElem?_map, Option.map_eq_some_iff] at isPoint
    rcases isPoint with ⟨index, isIndex, rfl⟩
    rcases List.getElem?_eq_some_iff.mp isIndex with ⟨inside, same⟩
    rw [List.length_range] at inside
    rw [List.getElem_range] at same
    cases same
    have within : round ≤ line.steps := Nat.le_of_lt_succ inside
    refine ⟨Axis.abs_pixel_sub_le within, Axis.abs_pixel_sub_le within, ?_⟩
    rcases small.full with full | full
    · exact Or.inl (Axis.pixel_eq_ideal full within)
    · exact Or.inr (Axis.pixel_eq_ideal full within)

def At (vinfo : Vinfo) (point : Int × Int) (place : Nat) : Prop :=
  ∃ x < vinfo.xres, ∃ y < vinfo.yres,
    point = (Int.ofNat x, Int.ofNat y) ∧ y * vinfo.xres + x = place

end Line

variable {vinfo : Vinfo}

theorem drawpoint_paints (fits : vinfo.yres * vinfo.xres ≤ 2 ^ 30) (point : Int × Int)
    (r g b : UInt8) :
    Raster.Paints Device.pixels (makepixel r g b) (Line.At vinfo point)
      (drawpoint vinfo point.1 point.2 r g b) := by
  by_cases onScreen : ∃ x < vinfo.xres, ∃ y < vinfo.yres, point = (Int.ofNat x, Int.ofNat y)
  · rcases onScreen with ⟨x, column, y, row, rfl⟩
    have inside := Nat.lt_of_lt_of_le (Raster.cellIndex_lt column row) fits
    have updates : ∀ device : Device,
        (drawpoint vinfo (Int.ofNat x) (Int.ofNat y) r g b device).pixels =
          Function.update device.pixels (y * vinfo.xres + x) (makepixel r g b) := by
      intro device
      have drawn := drawpoint_of_onScreen (r := r) (g := g) (b := b) column row device
      rw [put_eq inside] at drawn
      exact congrArg Device.pixels drawn
    apply (paints_update updates).congr
    intro place
    constructor
    · intro same
      exact ⟨x, column, y, row, rfl, same⟩
    · intro isAt
      rcases isAt with ⟨otherX, _, otherY, _, same, place⟩
      cases same
      exact place
  · have nowhere : ∀ device, drawpoint vinfo point.1 point.2 r g b device = device := by
      intro device
      rw [drawpoint, if_pos]
      by_contra inside
      apply onScreen
      refine ⟨point.1.toNat, by omega, point.2.toNat, by omega, ?_⟩
      apply Prod.ext
      · exact (Int.toNat_of_nonneg (by omega)).symm
      · exact (Int.toNat_of_nonneg (by omega)).symm
    intro device place
    rw [nowhere]
    refine ⟨?_, fun _ => rfl⟩
    intro isAt
    rcases isAt with ⟨x, column, y, row, same, _⟩
    exact (onScreen ⟨x, column, y, row, same⟩).elim

/-- The line leads from one end to the other and is what appears on the screen. -/
theorem drawline_draws (fits : vinfo.yres * vinfo.xres ≤ 2 ^ 30) {line : Line}
    (small : line.Small) (r g b : UInt8) :
    line.Traces line.points ∧
      Raster.Paints Device.pixels (makepixel r g b)
        (fun place => ∃ point ∈ line.points, Line.At vinfo point place)
        (drawline vinfo line r g b) := by
  refine ⟨small.traces, ?_⟩
  exact Raster.Paints.foldl fun point _ => drawpoint_paints fits point r g b

theorem drawline_draws_logo :
    let vinfo : Vinfo := ⟨1024, 768, by decide, by decide⟩
    let line : Line := ⟨370, 360, 520, 140⟩
    line.Traces line.points ∧
      Raster.Paints Device.pixels (makepixel 255 0 0)
        (fun place => ∃ point ∈ line.points, Line.At vinfo point place)
        (drawline vinfo line 255 0 0) := by
  intro vinfo line
  have small : line.Small := by constructor <;> decide
  exact drawline_draws (by decide) small 255 0 0

end RaspberryPi.Fbdraw
