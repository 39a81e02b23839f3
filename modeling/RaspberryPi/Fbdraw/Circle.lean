import Mathlib.Logic.Relation
import RaspberryPi.Foundation.WhileLoop

/-! # Drawing a circle

The loop of `drawcircle` in `fbdraw.c`. It goes along one eighth of the circle
and draws each point of it eight times. -/

namespace RaspberryPi.Fbdraw

structure Circle where
  x : Int
  y : Int
  radiusError : Int
deriving DecidableEq

namespace Circle

def start (radius : Int) : Circle := ⟨radius, 0, 1 - radius⟩

def next (circle : Circle) : Circle :=
  if circle.radiusError < 0 then
    ⟨circle.x, circle.y + 1, circle.radiusError + (2 * (circle.y + 1) + 1)⟩
  else
    ⟨circle.x - 1, circle.y + 1, circle.radiusError + 2 * (circle.y + 1 - (circle.x - 1) + 1)⟩

def Going (circle : Circle) : Prop := circle.x ≥ circle.y

instance : DecidablePred Going := fun _ => inferInstanceAs (Decidable (_ ≥ _))

def arc (fuel : Nat) (radius : Int) : Option (List Circle) :=
  WhileLoop.rounds Going next fuel (start radius)

def points (center_x center_y : Int) (circle : Circle) : List (Int × Int) :=
  [(circle.x + center_x, circle.y + center_y), (circle.y + center_x, circle.x + center_y),
    (-circle.x + center_x, circle.y + center_y), (-circle.y + center_x, circle.x + center_y),
    (-circle.x + center_x, -circle.y + center_y), (-circle.y + center_x, -circle.x + center_y),
    (circle.x + center_x, -circle.y + center_y), (circle.y + center_x, -circle.x + center_y)]

end Circle

def drawcircle (fuel : Nat) (center_x center_y radius : Int) : Option (List (Int × Int)) :=
  (Circle.arc fuel radius).map fun arc => arc.flatMap (Circle.points center_x center_y)

/-! ## The symmetries of the square -/

/-- One of the eight symmetries: whether the axes are swapped, and which of them are turned
round after that. -/
structure Symmetry where
  swap : Bool
  turnX : Bool
  turnY : Bool

namespace Symmetry

def turn (turned : Bool) (value : Int) : Int := if turned then -value else value

def apply (symmetry : Symmetry) (offset : Int × Int) : Int × Int :=
  if symmetry.swap then (turn symmetry.turnX offset.2, turn symmetry.turnY offset.1)
  else (turn symmetry.turnX offset.1, turn symmetry.turnY offset.2)

def compose (symmetry first : Symmetry) : Symmetry where
  swap := symmetry.swap ^^ first.swap
  turnX := symmetry.turnX ^^ if symmetry.swap then first.turnY else first.turnX
  turnY := symmetry.turnY ^^ if symmetry.swap then first.turnX else first.turnY

theorem turn_turn (second first : Bool) (value : Int) :
    turn second (turn first value) = turn (second ^^ first) value := by
  cases second <;> cases first <;> simp [turn]

theorem apply_apply (symmetry first : Symmetry) (offset : Int × Int) :
    symmetry.apply (first.apply offset) = (symmetry.compose first).apply offset := by
  rcases symmetry with ⟨swap, turnX, turnY⟩
  rcases first with ⟨firstSwap, firstX, firstY⟩
  cases swap <;> cases firstSwap <;> simp [apply, compose, turn_turn]

end Symmetry

/-! ## What the loop keeps -/

def Touches (first second : Int × Int) : Prop :=
  (-1 ≤ first.1 - second.1 ∧ first.1 - second.1 ≤ 1) ∧
    -1 ≤ first.2 - second.2 ∧ first.2 - second.2 ≤ 1

namespace Circle

variable {fuel : Nat} {radius : Int} {visited : List Circle}

def offset (circle : Circle) : Int × Int := (circle.x, circle.y)

theorem next_y (circle : Circle) : circle.next.y = circle.y + 1 := by
  rw [next]
  split_ifs <;> rfl

theorem next_x (circle : Circle) : circle.next.x = circle.x ∨ circle.next.x = circle.x - 1 := by
  rw [next]
  split_ifs
  · exact Or.inl rfl
  · exact Or.inr rfl

theorem exists_arc (radius : Int) : ∃ fuel visited, arc fuel radius = some visited := by
  have lowers : ∀ circle : Circle, circle.Going →
      (circle.next.x - circle.next.y + 1).toNat < (circle.x - circle.y + 1).toNat := by
    intro circle going
    have inside : circle.x ≥ circle.y := going
    have y := circle.next_y
    rcases circle.next_x with x | x <;> omega
  exact ⟨_, WhileLoop.exists_rounds (fun circle => (circle.x - circle.y + 1).toNat) lowers
    (Nat.lt_succ_self _)⟩

theorem touches_next (circle : Circle) : Touches circle.next.offset circle.offset := by
  have y := circle.next_y
  simp only [Touches, offset]
  rcases circle.next_x with x | x <;> omega

theorem closes (circle : Circle) (going : circle.Going) (stops : ¬circle.next.Going) :
    0 ≤ circle.x - circle.y ∧ circle.x - circle.y ≤ 1 := by
  have inside : circle.x ≥ circle.y := going
  have outside : ¬circle.next.x ≥ circle.next.y := stops
  have y := circle.next_y
  rcases circle.next_x with x | x <;> omega

theorem mem_points {center_x center_y dx dy : Int} {circle : Circle} :
    (dx + center_x, dy + center_y) ∈ circle.points center_x center_y ↔
      ∃ symmetry : Symmetry, symmetry.apply circle.offset = (dx, dy) := by
  simp only [points, List.mem_cons, List.not_mem_nil, or_false, Prod.mk.injEq,
    Int.add_left_inj]
  constructor
  · rintro (⟨rfl, rfl⟩ | ⟨rfl, rfl⟩ | ⟨rfl, rfl⟩ | ⟨rfl, rfl⟩ | ⟨rfl, rfl⟩ | ⟨rfl, rfl⟩ |
      ⟨rfl, rfl⟩ | ⟨rfl, rfl⟩)
    · exact ⟨⟨false, false, false⟩, rfl⟩
    · exact ⟨⟨true, false, false⟩, rfl⟩
    · exact ⟨⟨false, true, false⟩, rfl⟩
    · exact ⟨⟨true, true, false⟩, rfl⟩
    · exact ⟨⟨false, true, true⟩, rfl⟩
    · exact ⟨⟨true, true, true⟩, rfl⟩
    · exact ⟨⟨false, false, true⟩, rfl⟩
    · exact ⟨⟨true, false, true⟩, rfl⟩
  · rintro ⟨⟨swap, turnX, turnY⟩, image⟩
    cases swap <;> cases turnX <;> cases turnY <;> cases image <;> simp [offset, Symmetry.turn]

end Circle

/-! ## The shape -/

def Drawn (visited : List Circle) (offset : Int × Int) : Prop :=
  ∃ circle ∈ visited, ∃ symmetry : Symmetry, symmetry.apply circle.offset = offset

/-- The points are those of the arc and its images, and go around the centre without gaps. -/
structure Round (center_x center_y radius : Int) (visited : List Circle)
    (points : List (Int × Int)) : Prop where
  begins : visited.head?.map Circle.offset = some (radius, 0)
  steps : visited.IsChain fun before after => Touches after.offset before.offset
  closes : ∃ last ∈ visited.getLast?, 0 ≤ last.x - last.y ∧ last.x - last.y ≤ 1
  drawn : ∀ offset : Int × Int,
    (offset.1 + center_x, offset.2 + center_y) ∈ points ↔ Drawn visited offset
  symmetric : ∀ (symmetry : Symmetry) (offset : Int × Int),
    (offset.1 + center_x, offset.2 + center_y) ∈ points →
      ((symmetry.apply offset).1 + center_x, (symmetry.apply offset).2 + center_y) ∈ points
  connected : ∀ first ∈ points, ∀ second ∈ points, Relation.ReflTransGen
    (fun here there => here ∈ points ∧ there ∈ points ∧ Touches here there) first second

def Linked (visited : List Circle) : Int × Int → Int × Int → Prop :=
  Relation.ReflTransGen fun here there =>
    Drawn visited here ∧ Drawn visited there ∧ Touches here there

section Shape

variable {center_x center_y dx dy : Int} {fuel : Nat} {radius : Int} {visited : List Circle}

theorem mem_drawn : (dx + center_x, dy + center_y) ∈
      visited.flatMap (Circle.points center_x center_y) ↔ Drawn visited (dx, dy) := by
  rw [List.mem_flatMap]
  constructor
  · rintro ⟨circle, member, drawn⟩
    exact ⟨circle, member, Circle.mem_points.mp drawn⟩
  · rintro ⟨circle, member, image⟩
    exact ⟨circle, member, Circle.mem_points.mpr image⟩

theorem Drawn.apply {offset : Int × Int} (drawn : Drawn visited offset) (symmetry : Symmetry) :
    Drawn visited (symmetry.apply offset) := by
  rcases drawn with ⟨circle, member, first, rfl⟩
  exact ⟨circle, member, symmetry.compose first, (symmetry.apply_apply first _).symm⟩

theorem Touches.symm {first second : Int × Int} (touches : Touches first second) :
    Touches second first := by
  simp only [Touches] at touches ⊢
  omega

theorem Touches.apply {first second : Int × Int} (touches : Touches first second)
    (symmetry : Symmetry) : Touches (symmetry.apply first) (symmetry.apply second) := by
  rcases symmetry with ⟨swap, turnX, turnY⟩
  simp only [Touches] at touches
  cases swap <;> cases turnX <;> cases turnY <;>
    simp only [Touches, Symmetry.apply, Symmetry.turn, if_true, Bool.false_eq_true, if_false] <;>
    omega

theorem Linked.symm {first second : Int × Int} (linked : Linked visited first second) :
    Linked visited second first := by
  induction linked with
  | refl => exact .refl
  | tail _ step back => exact .head ⟨step.2.1, step.1, step.2.2.symm⟩ back

theorem linked_arc (symmetry : Symmetry) {first : Circle} {rest : List Circle}
    (chain : (first :: rest).IsChain fun before after => Touches after.offset before.offset)
    (inside : ∀ circle ∈ first :: rest, circle ∈ visited) :
    ∀ circle ∈ first :: rest,
      Linked visited (symmetry.apply first.offset) (symmetry.apply circle.offset) := by
  induction rest generalizing first with
  | nil =>
      intro circle member
      rw [List.mem_singleton.mp member]
      exact .refl
  | cons second rest induction =>
      rw [List.isChain_cons_cons] at chain
      have insideRest : ∀ circle ∈ second :: rest, circle ∈ visited :=
        fun circle member => inside circle (List.mem_cons_of_mem _ member)
      intro circle member
      rcases List.mem_cons.mp member with rfl | member
      · exact .refl
      · apply Relation.ReflTransGen.head _ (induction chain.2 insideRest circle member)
        exact ⟨⟨first, inside first List.mem_cons_self, symmetry, rfl⟩,
          ⟨second, inside second (List.mem_cons_of_mem _ List.mem_cons_self), symmetry, rfl⟩,
          (chain.1.apply symmetry).symm⟩

theorem linked_diagonal {last : Circle} (member : last ∈ visited)
    (closes : 0 ≤ last.x - last.y ∧ last.x - last.y ≤ 1) (turnX turnY : Bool) :
    Linked visited ((Symmetry.mk false turnX turnY).apply last.offset)
      ((Symmetry.mk true turnX turnY).apply last.offset) := by
  apply Relation.ReflTransGen.single
  refine ⟨⟨last, member, _, rfl⟩, ⟨last, member, _, rfl⟩, ?_⟩
  cases turnX <;> cases turnY <;>
    simp only [Touches, Symmetry.apply, Symmetry.turn, Circle.offset, if_true,
      Bool.false_eq_true, if_false] <;>
    omega

structure Arc (radius : Int) (visited : List Circle) : Prop where
  begins : visited.head? = some (Circle.start radius)
  steps : visited.IsChain fun before after => Touches after.offset before.offset
  closes : ∃ last ∈ visited.getLast?, 0 ≤ last.x - last.y ∧ last.x - last.y ≤ 1

theorem arc_of_ended (positive : 0 ≤ radius) (ended : Circle.arc fuel radius = some visited) :
    Arc radius visited := by
  have begins : visited.head? = some (Circle.start radius) := by
    rw [WhileLoop.head?_rounds ended]
    exact if_pos positive
  refine ⟨begins, ?_, ?_⟩
  · apply (WhileLoop.isChain_rounds ended).imp
    rintro before after rfl
    exact before.touches_next
  · have nonempty : visited ≠ [] := by
      rintro rfl
      cases begins
    have last := List.getLast?_eq_some_getLast nonempty
    refine ⟨_, last, Circle.closes _ ?_ (WhileLoop.last_rounds ended _ last)⟩
    rcases (WhileLoop.mem_rounds_iff ended).mp (List.getLast_mem nonempty) with
      ⟨count, reached, going⟩
    rw [← reached]
    exact going count (Nat.le_refl count)

namespace Arc

variable (arc : Arc radius visited)

include arc

theorem linked_start (symmetry : Symmetry) {circle : Circle} (member : circle ∈ visited) :
    Linked visited (symmetry.apply (radius, 0)) (symmetry.apply circle.offset) := by
  rcases List.head?_eq_some_iff.mp arc.begins with ⟨rest, rfl⟩
  exact linked_arc symmetry arc.steps (fun _ member => member) circle member

theorem linked_corners (turnX turnY : Bool) :
    Linked visited ((Symmetry.mk false turnX turnY).apply (radius, 0))
      ((Symmetry.mk true turnX turnY).apply (radius, 0)) := by
  rcases arc.closes with ⟨last, isLast, closes⟩
  have member := List.mem_of_getLast? isLast
  have there := arc.linked_start (Symmetry.mk false turnX turnY) member
  have back := (arc.linked_start (Symmetry.mk true turnX turnY) member).symm
  exact (there.trans (linked_diagonal member closes turnX turnY)).trans back

/-- From the right end of the circle to its other ends: along the arc to a diagonal
and on to the next axis, where it does not matter how the other axis is turned. -/
theorem linked_right (symmetry : Symmetry) :
    Linked visited (radius, 0) (symmetry.apply (radius, 0)) := by
  have right : (Symmetry.mk false false false).apply (radius, 0) = (radius, 0) := rfl
  have top : ∀ turnX, (Symmetry.mk true turnX false).apply (radius, 0) = (0, radius) := by
    intro turnX
    cases turnX <;> rfl
  have horizontal : ∀ turnX turnY, (Symmetry.mk false turnX turnY).apply (radius, 0) =
      (Symmetry.mk false turnX false).apply (radius, 0) := by
    intro turnX turnY
    cases turnX <;> cases turnY <;> rfl
  have sides : ∀ turnX turnY,
      Linked visited (radius, 0) ((Symmetry.mk false turnX turnY).apply (radius, 0)) := by
    intro turnX turnY
    have up := arc.linked_corners false false
    have down := (arc.linked_corners turnX false).symm
    rw [top] at up down
    rw [right] at up
    rw [horizontal]
    exact up.trans down
  rcases symmetry with ⟨swap, turnX, turnY⟩
  cases swap with
  | false => exact sides turnX turnY
  | true => exact (sides turnX turnY).trans (arc.linked_corners turnX turnY)

theorem linked {first second : Int × Int} (firstDrawn : Drawn visited first)
    (secondDrawn : Drawn visited second) : Linked visited first second := by
  have fromRight : ∀ offset, Drawn visited offset → Linked visited (radius, 0) offset := by
    rintro offset ⟨circle, member, symmetry, rfl⟩
    exact (arc.linked_right symmetry).trans (arc.linked_start symmetry member)
  exact (fromRight first firstDrawn).symm.trans (fromRight second secondDrawn)

end Arc

theorem Arc.round (arc : Arc radius visited) (center_x center_y : Int) :
    Round center_x center_y radius visited
      (visited.flatMap (Circle.points center_x center_y)) := by
  refine ⟨?_, arc.steps, arc.closes, fun _ => mem_drawn, ?_, ?_⟩
  · rw [arc.begins]
    rfl
  · intro symmetry offset drawn
    exact mem_drawn.mpr ((mem_drawn.mp drawn).apply symmetry)
  · rintro ⟨firstX, firstY⟩ firstDrawn ⟨secondX, secondY⟩ secondDrawn
    rw [← Int.sub_add_cancel firstX center_x, ← Int.sub_add_cancel firstY center_y] at firstDrawn ⊢
    rw [← Int.sub_add_cancel secondX center_x, ← Int.sub_add_cancel secondY center_y]
      at secondDrawn ⊢
    have linked := arc.linked (mem_drawn.mp firstDrawn) (mem_drawn.mp secondDrawn)
    apply linked.lift fun offset : Int × Int => (offset.1 + center_x, offset.2 + center_y)
    rintro ⟨hereX, hereY⟩ ⟨thereX, thereY⟩ ⟨here, there, touches⟩
    refine ⟨mem_drawn.mpr here, mem_drawn.mpr there, ?_⟩
    simp only [Touches] at touches ⊢
    omega

/-- The loop ends for every radius, and what it draws for one that is not negative
is round. -/
theorem drawcircle_round (center_x center_y radius : Int) :
    (∃ fuel points, drawcircle fuel center_x center_y radius = some points) ∧
      (0 ≤ radius → ∀ fuel points, drawcircle fuel center_x center_y radius = some points →
        ∃ visited, Circle.arc fuel radius = some visited ∧
          Round center_x center_y radius visited points) := by
  constructor
  · rcases Circle.exists_arc radius with ⟨fuel, visited, ended⟩
    refine ⟨fuel, visited.flatMap (Circle.points center_x center_y), ?_⟩
    rw [drawcircle, ended]
    rfl
  · intro positive fuel points drawn
    rcases Option.map_eq_some_iff.mp drawn with ⟨visited, ended, rfl⟩
    exact ⟨visited, ended, (arc_of_ended positive ended).round center_x center_y⟩

theorem drawcircle_round_three :
    ∃ points visited, drawcircle 4 0 0 3 = some points ∧
      visited.map Circle.offset = [(3, 0), (3, 1), (2, 2)] ∧ Round 0 0 3 visited points := by
  have drawn : drawcircle 4 0 0 3 = some _ := rfl
  rcases (drawcircle_round 0 0 3).2 (by decide) 4 _ drawn with ⟨visited, ended, round⟩
  have offsets : (Circle.arc 4 3).map (List.map Circle.offset) =
    some [(3, 0), (3, 1), (2, 2)] := rfl
  rw [ended] at offsets
  exact ⟨_, visited, drawn, Option.some.inj offsets, round⟩

end Shape

end RaspberryPi.Fbdraw
