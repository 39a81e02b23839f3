import Mathlib.Tactic.Linarith
import Mathlib.Tactic.Ring
import RaspberryPi.Fbdraw.Circle

/-! # How round the circle is

Every step to the left adds one too much to the error of `drawcircle`, until it
takes one too early. Up to there its pixels are those nearest to the ideal circle,
and only some small circles are complete by then. -/

namespace RaspberryPi.Fbdraw

namespace Circle

/-- The pixel of its row that is nearest to the circle of this radius. -/
def Nearest (radius : Int) (circle : Circle) : Prop :=
  (1 ≤ circle.x → (2 * circle.x - 1) ^ 2 + 4 * circle.y ^ 2 ≤ 4 * radius ^ 2) ∧
    4 * radius ^ 2 < (2 * circle.x + 1) ^ 2 + 4 * circle.y ^ 2

def Accurate (radius : Int) : Prop :=
  ∀ fuel visited, arc fuel radius = some visited → ∀ circle ∈ visited, circle.Nearest radius

/-- Negative exactly if the pixel in the next row is nearer than its left neighbour. -/
def gap (radius : Int) (circle : Circle) : Int :=
  circle.x * (circle.x - 1) + (circle.y + 1) * (circle.y + 1) - radius * radius

structure Consistent (radius : Int) (circle : Circle) : Prop where
  error : circle.radiusError = circle.gap radius + (radius - circle.x)
  inside : circle.x ≤ radius
  below : 0 ≤ circle.y

variable {radius : Int} {circle : Circle}

theorem consistent_start (radius : Int) : Consistent radius (start radius) := by
  constructor
  · simp only [start, gap]
    ring
  · exact Int.le_refl _
  · exact Int.le_refl _

theorem Consistent.next (consistent : Consistent radius circle) :
    Consistent radius circle.next := by
  have error := consistent.error
  have inside := consistent.inside
  have below := consistent.below
  rw [gap] at error
  rw [Circle.next]
  split_ifs
  · constructor
    · dsimp only [gap]
      rw [error]
      ring
    · exact inside
    · exact Int.add_nonneg below (by decide)
  · constructor
    · dsimp only [gap]
      rw [error]
      ring
    · exact Int.le_trans (Int.sub_le_self _ (by decide)) inside
    · exact Int.add_nonneg below (by decide)

theorem nearest_iff : circle.Nearest radius ↔
    (1 ≤ circle.x → circle.x * (circle.x - 1) + circle.y * circle.y < radius * radius) ∧
      radius * radius ≤ circle.x * (circle.x + 1) + circle.y * circle.y := by
  have lower : (2 * circle.x - 1) ^ 2 + 4 * circle.y ^ 2 =
      4 * (circle.x * (circle.x - 1) + circle.y * circle.y) + 1 := by ring
  have upper : (2 * circle.x + 1) ^ 2 + 4 * circle.y ^ 2 =
      4 * (circle.x * (circle.x + 1) + circle.y * circle.y) + 1 := by ring
  have square : 4 * radius ^ 2 = 4 * (radius * radius) := by ring
  rw [Nearest, lower, upper, square]
  constructor
  · rintro ⟨left, right⟩
    exact ⟨fun positive => by have := left positive; omega, by omega⟩
  · rintro ⟨left, right⟩
    exact ⟨fun positive => by have := left positive; omega, by omega⟩

def Early (radius : Int) (circle : Circle) : Prop :=
  -(radius - circle.x) ≤ circle.gap radius ∧ circle.gap radius < 0

instance : Decidable (circle.Early radius) := inferInstanceAs (Decidable (_ ∧ _))

theorem nearest_next_of_straight (consistent : Consistent radius circle)
    (nearest : circle.Nearest radius) (straight : circle.radiusError < 0) :
    circle.next.Nearest radius := by
  have error := consistent.error
  have inside := consistent.inside
  have below := consistent.below
  have right := (nearest_iff.mp nearest).2
  have raised : circle.x * (circle.x + 1) + (circle.y + 1) * (circle.y + 1) =
      circle.x * (circle.x + 1) + circle.y * circle.y + (2 * circle.y + 1) := by ring
  rw [gap] at error
  rw [nearest_iff, next, if_pos straight]
  dsimp only
  rw [raised]
  omega

/-- Before the diagonal, the next pixel is the right one unless the step is early. -/
theorem next_nearest_iff (consistent : Consistent radius circle) (nearest : circle.Nearest radius)
    (room : circle.y + 2 ≤ circle.x) :
    circle.next.Nearest radius ↔ ¬circle.Early radius := by
  have error := consistent.error
  have inside := consistent.inside
  have below := consistent.below
  by_cases straight : circle.radiusError < 0
  · refine iff_of_true (nearest_next_of_straight consistent nearest straight) ?_
    rw [Early]
    omega
  · rcases nearest_iff.mp nearest with ⟨left, right⟩
    have left := left (by omega)
    have before : (circle.x - 1) * (circle.x - 1 - 1) + (circle.y + 1) * (circle.y + 1) =
        circle.x * (circle.x - 1) + circle.y * circle.y + (2 * (circle.y - circle.x) + 3) := by ring
    have behind : (circle.x - 1) * (circle.x - 1 + 1) = circle.x * (circle.x - 1) := by ring
    rw [Early, gap]
    rw [gap] at error
    rw [nearest_iff, next, if_neg straight]
    dsimp only
    rw [before, behind]
    omega

/-! ## The arc round by round -/

def AccurateFrom (radius : Int) (circle : Circle) : Prop :=
  ∀ count, (Circle.next^[count] circle).Going → (Circle.next^[count] circle).Nearest radius

theorem going_of_next (going : circle.next.Going) : circle.Going := by
  have inside : circle.next.x ≥ circle.next.y := going
  have y := circle.next_y
  show circle.x ≥ circle.y
  rcases circle.next_x with x | x <;> omega

theorem going_of_iterate {index count : Nat} (bound : index ≤ count)
    (going : (Circle.next^[count] circle).Going) : (Circle.next^[index] circle).Going := by
  induction count, bound using Nat.le_induction with
  | base => exact going
  | succ count _ induction =>
      rw [Function.iterate_succ_apply'] at going
      exact induction (going_of_next going)

theorem accurate_iff : Accurate radius ↔ AccurateFrom radius (start radius) := by
  constructor
  · intro accurate count going
    rcases exists_arc radius with ⟨fuel, visited, ended⟩
    apply accurate fuel visited ended
    exact (WhileLoop.mem_rounds_iff ended).mpr
      ⟨count, rfl, fun index bound => going_of_iterate bound going⟩
  · intro accurate fuel visited ended circle member
    rcases (WhileLoop.mem_rounds_iff ended).mp member with ⟨count, rfl, going⟩
    exact accurate count (going count (Nat.le_refl count))

theorem accurateFrom_of_not_going (stopped : ¬circle.Going) : AccurateFrom radius circle :=
  fun count going => absurd (going_of_iterate (Nat.zero_le count) going) stopped

theorem accurateFrom_iff_next (nearest : circle.Nearest radius) :
    AccurateFrom radius circle ↔ AccurateFrom radius circle.next := by
  constructor
  · exact fun accurate count => accurate (count + 1)
  · intro accurate count
    cases count with
    | zero => exact fun _ => nearest
    | succ count => exact accurate count

/-! ## Small circles -/

/-- Whether, along the nearest pixels from `(x, y)` on, a step to the left comes too
early before the diagonal. -/
def strays (radius : Nat) : Nat → Nat → Nat → Bool
  | 0, _, _ => false
  | fuel + 1, x, y =>
      if x < y + 2 then false
      else if radius * radius ≤ x * (x - 1) + (y + 1) * (y + 1) then
        strays radius fuel (x - 1) (y + 1)
      else if radius * radius + x ≤ x * (x - 1) + (y + 1) * (y + 1) + radius then true
      else strays radius fuel x (y + 1)

theorem accurateFrom_of_diagonal (consistent : Consistent radius circle)
    (nearest : circle.Nearest radius) (atDiagonal : circle.x < circle.y + 2) :
    AccurateFrom radius circle := by
  rw [accurateFrom_iff_next nearest]
  by_cases going : circle.next.Going
  · have straight : circle.radiusError < 0 := by
      by_contra left
      rw [next, if_neg left] at going
      have inside : circle.x - 1 ≥ circle.y + 1 := going
      omega
    rw [accurateFrom_iff_next (nearest_next_of_straight consistent nearest straight)]
    apply accurateFrom_of_not_going
    intro again
    have inside : circle.next.next.x ≥ circle.next.next.y := again
    have y := circle.next_y
    have nextY := circle.next.next_y
    rcases circle.next_x with x | x <;> rcases circle.next.next_x with nextX | nextX <;> omega
  · exact accurateFrom_of_not_going going

theorem not_accurateFrom_of_early (consistent : Consistent radius circle)
    (nearest : circle.Nearest radius) (room : circle.y + 2 ≤ circle.x)
    (early : circle.Early radius) : ¬AccurateFrom radius circle := by
  intro accurate
  have going : circle.next.Going := by
    show circle.next.x ≥ circle.next.y
    have y := circle.next_y
    rcases circle.next_x with x | x <;> omega
  exact (next_nearest_iff consistent nearest room).mp (accurate 1 going) early

theorem strays_iff {radius fuel x y : Nat} {circle : Circle} (atX : circle.x = x)
    (atY : circle.y = y) (consistent : Consistent radius circle) (nearest : circle.Nearest radius)
    (enough : x < fuel + y) : strays radius fuel x y = false ↔ AccurateFrom radius circle := by
  induction fuel generalizing x y circle with
  | zero =>
      refine iff_of_true rfl (accurateFrom_of_diagonal consistent nearest ?_)
      omega
  | succ fuel induction =>
      rw [strays]
      by_cases atDiagonal : x < y + 2
      · rw [if_pos atDiagonal]
        refine iff_of_true rfl (accurateFrom_of_diagonal consistent nearest ?_)
        omega
      have room : circle.y + 2 ≤ circle.x := by omega
      have error := consistent.error
      have inside := consistent.inside
      have gap : circle.gap radius =
          (x * (x - 1) + (y + 1) * (y + 1) : Nat) - (radius * radius : Nat) := by
        rw [Circle.gap, atX, atY]
        push_cast [Nat.cast_sub (show 1 ≤ x by omega)]
        rfl
      rw [if_neg atDiagonal]
      split_ifs with left early
      · have toLeft : ¬circle.radiusError < 0 := by omega
        have onCircle : ¬circle.Early radius := by
          rw [Early]
          omega
        rw [accurateFrom_iff_next nearest]
        apply induction _ _ consistent.next
        · exact (next_nearest_iff consistent nearest room).mpr onCircle
        · omega
        · rw [next, if_neg toLeft, atX]
          exact (Int.natCast_sub (show 1 ≤ x by omega)).symm
        · rw [next, if_neg toLeft, atY]
          rfl
      · refine iff_of_false not_false (not_accurateFrom_of_early consistent nearest room ?_)
        rw [Early]
        omega
      · have straight : circle.radiusError < 0 := by omega
        rw [accurateFrom_iff_next nearest]
        apply induction _ _ consistent.next
        · exact nearest_next_of_straight consistent nearest straight
        · omega
        · rw [next, if_pos straight, atX]
        · rw [next, if_pos straight, atY]
          rfl

theorem nearest_start (radius : Nat) : (start radius).Nearest radius := by
  rw [nearest_iff]
  dsimp only [start]
  constructor
  · intro positive
    nlinarith
  · nlinarith

theorem accurate_iff_strays (radius : Nat) :
    Accurate radius ↔ strays radius (radius + 1) radius 0 = false := by
  rw [accurate_iff]
  symm
  apply strays_iff rfl rfl (consistent_start radius) (nearest_start radius)
  omega

/-- The radii of all circles that are drawn with the nearest pixels. -/
def accurateRadii : List Nat :=
  [0, 1, 2, 3, 4, 5, 6, 7, 8, 9, 10, 11, 12, 14, 15, 17, 18, 19, 20, 22, 24, 25, 27, 29, 32, 35,
    37, 39, 41, 42, 46, 53, 56, 58, 63, 83, 88]

theorem strays_small :
    ∀ radius < 300, strays radius (radius + 1) radius 0 = decide (radius ∉ accurateRadii) := by
  decide +kernel

/-! ## Large circles

Near the diagonal, where a step to the left changes the gap by less than the error
is off, only steps to the left can follow the first one. That many of them bring
the gap below zero. -/

structure OnArc (radius : Int) (circle : Circle) : Prop where
  consistent : Consistent radius circle
  nearest : circle.Nearest radius
  accurate : AccurateFrom radius circle

def Flat (radius : Int) (circle : Circle) : Prop := 3 * circle.x ≤ radius + 2 * circle.y + 5

instance : Decidable (circle.Flat radius) := inferInstanceAs (Decidable (_ ≤ _))

theorem gap_next_left (radius : Int) (toLeft : ¬circle.radiusError < 0) :
    circle.next.gap radius = circle.gap radius + 5 - 2 * (circle.x - circle.y) := by
  rw [gap, gap, next, if_neg toLeft]
  ring

theorem gap_next_straight (radius : Int) (straight : circle.radiusError < 0) :
    circle.next.gap radius = circle.gap radius + 2 * circle.y + 3 := by
  rw [gap, gap, next, if_pos straight]
  ring

theorem OnArc.next (onArc : OnArc radius circle) (going : circle.next.Going) :
    OnArc radius circle.next :=
  ⟨onArc.consistent.next, onArc.accurate 1 going, (accurateFrom_iff_next onArc.nearest).mp
    onArc.accurate⟩

theorem OnArc.not_early (onArc : OnArc radius circle) (room : circle.y + 2 ≤ circle.x) :
    ¬circle.Early radius :=
  fun early => not_accurateFrom_of_early onArc.consistent onArc.nearest room early onArc.accurate

/-- Steps to the left as far as the diagonal need that much of a gap. -/
theorem OnArc.gap_large (onArc : OnArc radius circle) (flat : circle.Flat radius)
    (positive : 0 ≤ circle.gap radius) (room : circle.y + 1 ≤ circle.x) :
    (circle.x - circle.y - 3) * (circle.x - circle.y - 1) ≤ 2 * circle.gap radius := by
  induction distance : (circle.x - circle.y).toNat using Nat.strongRecOn generalizing circle with
  | ind distance induction =>
      by_cases near : circle.x - circle.y ≤ 3
      · have product : (circle.x - circle.y - 3) * (circle.x - circle.y - 1) ≤ 0 :=
          Int.mul_nonpos_of_nonpos_of_nonneg (by omega) (by omega)
        omega
      have error := onArc.consistent.error
      have inside := onArc.consistent.inside
      have toLeft : ¬circle.radiusError < 0 := by omega
      have nextX : circle.next.x = circle.x - 1 := by rw [Circle.next, if_neg toLeft]
      have nextY := circle.next_y
      have nextGap := gap_next_left radius toLeft
      rw [Flat] at flat
      have nextArc : OnArc radius circle.next := by
        apply onArc.next
        show circle.next.x ≥ circle.next.y
        omega
      have onCircle := nextArc.not_early (by omega)
      rw [Early] at onCircle
      have later := induction (circle.next.x - circle.next.y).toNat (by omega) nextArc
        (by rw [Flat]; omega) (by omega) (by omega) rfl
      rw [nextX, nextY, nextGap] at later
      nlinarith

theorem y_iterate (count : Nat) (radius : Int) :
    (Circle.next^[count] (start radius)).y = count := by
  induction count with
  | zero => rfl
  | succ count induction =>
      rw [Function.iterate_succ_apply', next_y, induction]
      rfl

theorem consistent_iterate (consistent : Consistent radius circle) (count : Nat) :
    Consistent radius (Circle.next^[count] circle) := by
  induction count with
  | zero => exact consistent
  | succ count induction =>
      rw [Function.iterate_succ_apply']
      exact induction.next

theorem OnArc.iterate (onArc : OnArc radius circle) {count : Nat}
    (going : (Circle.next^[count] circle).Going) : OnArc radius (Circle.next^[count] circle) := by
  induction count with
  | zero => exact onArc
  | succ count induction =>
      rw [Function.iterate_succ_apply'] at going ⊢
      exact (induction (going_of_next going)).next going

theorem onArc_start {radius : Nat} (accurate : Accurate radius) :
    OnArc radius (start radius) :=
  ⟨consistent_start radius, nearest_start radius, accurate_iff.mp accurate⟩

theorem flat_iterate (radius : Nat) : (Circle.next^[radius] (start radius)).Flat radius := by
  have inside := (consistent_iterate (consistent_start radius) radius).inside
  have y := y_iterate radius radius
  rw [Flat]
  omega

theorem exists_flat {radius : Nat} (large : 3 ≤ radius) (accurate : Accurate radius) :
    ∃ circle, OnArc radius circle ∧ circle.Flat radius ∧ 0 < circle.y ∧
      radius + 2 * circle.y + 1 ≤ 3 * circle.x := by
  have flat : ∃ count, (Circle.next^[count] (start radius)).Flat radius :=
    ⟨radius, flat_iterate radius⟩
  have bound : Nat.find flat ≤ radius := Nat.find_min' flat (flat_iterate radius)
  have isFlat := Nat.find_spec flat
  cases first : Nat.find flat with
  | zero =>
      rw [first, Flat] at isFlat
      dsimp only [Function.iterate_zero_apply, start] at isFlat
      omega
  | succ count =>
      have steep := Nat.find_min flat (show count < Nat.find flat by omega)
      have yBefore := y_iterate count radius
      have y := y_iterate (count + 1) radius
      rw [first] at isFlat bound
      rw [Flat] at steep
      rw [Function.iterate_succ_apply'] at isFlat y
      have entry : radius + 2 * (count + 1 : Nat) + 1 ≤
          3 * (Circle.next^[count] (start radius)).next.x := by
        rcases (Circle.next^[count] (start radius)).next_x with x | x <;> omega
      refine ⟨(Circle.next^[count] (start radius)).next, ?_, isFlat, by omega, by omega⟩
      rw [← Function.iterate_succ_apply' Circle.next]
      apply (onArc_start accurate).iterate
      rw [Function.iterate_succ_apply']
      show _ ≥ _
      omega

theorem row_le {radius : Nat} (nearest : circle.Nearest radius) (positive : 0 < circle.y)
    (entry : radius + 2 * circle.y + 1 ≤ 3 * circle.x) : 3 * circle.y ≤ 2 * radius := by
  by_contra high
  have left := (nearest_iff.mp nearest).1 (by omega)
  have wide : 7 * (radius : Int) + 5 ≤ 9 * circle.x := by omega
  nlinarith

theorem too_far {distance row : Int} (far : 32 ≤ distance) (low : row ≤ 6 * distance + 4) :
    4 * row + 4 < (distance - 3) * (distance - 1) := by
  have square : 32 * distance ≤ distance * distance :=
    Int.mul_le_mul_of_nonneg_right far (by omega)
  have product : (distance - 3) * (distance - 1) = distance * distance - 4 * distance + 3 := by ring
  omega

/-- On the first flat row the next step is to the left, or else the one after it is. -/
theorem not_accurate_of_large {radius : Nat} (large : 300 ≤ radius) : ¬Accurate radius := by
  intro accurate
  rcases exists_flat (by omega) accurate with ⟨circle, onArc, flat, positive, entry⟩
  have low := row_le onArc.nearest positive entry
  rcases nearest_iff.mp onArc.nearest with ⟨left, right⟩
  have left := left (by omega)
  have columns : circle.x * (circle.x + 1) = circle.x * (circle.x - 1) + 2 * circle.x := by ring
  have rows : (circle.y + 1) * (circle.y + 1) = circle.y * circle.y + 2 * circle.y + 1 := by ring
  have gap : circle.gap radius =
      circle.x * (circle.x - 1) + circle.y * circle.y + 2 * circle.y + 1 - radius * radius := by
    rw [Circle.gap, rows]
    ring
  by_cases toLeft : 0 ≤ circle.gap radius
  · have enough := onArc.gap_large flat toLeft (by omega)
    have far := too_far (show 32 ≤ circle.x - circle.y by omega)
      (show circle.y ≤ 6 * (circle.x - circle.y) + 4 by omega)
    omega
  · have error := onArc.consistent.error
    have onCircle := onArc.not_early (by omega)
    rw [Early] at onCircle
    have straight : circle.radiusError < 0 := by omega
    have nextX : circle.next.x = circle.x := by rw [next, if_pos straight]
    have nextY := circle.next_y
    have nextGap := gap_next_straight radius straight
    rw [Flat] at flat
    have nextArc : OnArc radius circle.next := by
      apply onArc.next
      show circle.next.x ≥ circle.next.y
      omega
    have nextOnCircle := nextArc.not_early (by omega)
    rw [Early] at nextOnCircle
    have enough := nextArc.gap_large (by rw [Flat]; omega) (by omega) (by omega)
    have far := too_far (show 32 ≤ circle.next.x - circle.next.y by omega)
      (show circle.y ≤ 6 * (circle.next.x - circle.next.y) + 4 by omega)
    omega

/-- The circles drawn with the nearest pixels are these and no others. -/
theorem accurate_iff_mem (radius : Nat) : Accurate radius ↔ radius ∈ accurateRadii := by
  by_cases small : radius < 300
  · rw [accurate_iff_strays, strays_small radius small, decide_eq_false_iff_not, not_not]
  · refine iff_of_false (not_accurate_of_large (Nat.not_lt.mp small)) fun member => ?_
    have bound : ∀ other ∈ accurateRadii, other < 300 := by decide
    exact small (bound radius member)

theorem not_accurate_thirteen : ¬∀ radius : Nat, Accurate radius := by
  intro always
  have stays := (accurate_iff_strays 13).mp (always 13)
  exact absurd stays (by decide)

end Circle

end RaspberryPi.Fbdraw
