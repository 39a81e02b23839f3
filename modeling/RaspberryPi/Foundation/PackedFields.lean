import Mathlib.Algebra.Group.Nat.Defs

/-! # Fields of a word

A word that is cut into fields of one width, field zero at its lowest bits. A field
is changed by a mask or a value that is shifted to its place. -/

namespace RaspberryPi.PackedFields

variable {size width : Nat}

def field (width index : Nat) (word : BitVec size) : BitVec width :=
  word.extractLsb' (index * width) width

def place (size index : Nat) (value : BitVec width) : BitVec size :=
  value.setWidth size <<< (index * width)

def FieldFits (size width index : Nat) : Prop := (index + 1) * width ≤ size

theorem getLsbD_field {index bit : Nat} (word : BitVec size) (inside : bit < width) :
    (field width index word).getLsbD bit = word.getLsbD (index * width + bit) := by
  rw [field, BitVec.getLsbD_extractLsb', decide_eq_true inside, Bool.true_and]

theorem place_ne {index other bit otherBit : Nat} (inside : bit < width)
    (otherInside : otherBit < width) (different : other ≠ index) :
    other * width + otherBit ≠ index * width + bit := by
  intro same
  have positive : 0 < width := Nat.zero_lt_of_lt inside
  have quotient : (other * width + otherBit) / width = (index * width + bit) / width := by
    rw [same]
  rw [Nat.mul_comm other, Nat.mul_comm index, Nat.mul_add_div positive,
    Nat.mul_add_div positive, Nat.div_eq_of_lt inside, Nat.div_eq_of_lt otherInside] at quotient
  exact different quotient

theorem field_place {index : Nat} (fits : FieldFits size width index) (value : BitVec width) :
    field width index (place size index value) = value := by
  apply BitVec.eq_of_getLsbD_eq
  intro bit inside
  have bound : index * width + bit < size := by
    rw [FieldFits, Nat.succ_mul] at fits
    omega
  have within : bit < size := by omega
  rw [getLsbD_field _ inside, place, BitVec.getLsbD_shiftLeft, BitVec.getLsbD_setWidth,
    Nat.add_sub_cancel_left]
  simp [bound, within]

theorem field_place_of_ne {index other : Nat} (different : other ≠ index)
    (value : BitVec width) : field width other (place size index value) = BitVec.ofNat width 0 := by
  apply BitVec.eq_of_getLsbD_eq
  intro bit inside
  rw [getLsbD_field _ inside, place, BitVec.getLsbD_shiftLeft, BitVec.getLsbD_setWidth,
    BitVec.getLsbD_zero]
  by_cases before : other * width + bit < index * width
  · simp [before]
  · -- A bit of `value` at this place would be a bit of field `index`.
    have outside : width ≤ other * width + bit - index * width := by
      apply Nat.le_of_not_lt
      intro short
      have same : other * width + bit =
          index * width + (other * width + bit - index * width) := by omega
      exact place_ne short inside different same
    rw [BitVec.getLsbD_of_ge value _ outside, Bool.and_false, Bool.and_false]

theorem field_or (index : Nat) (word mask : BitVec size) :
    field width index (word ||| mask) = field width index word ||| field width index mask :=
  BitVec.extractLsb'_or

theorem field_and (index : Nat) (word mask : BitVec size) :
    field width index (word &&& mask) = field width index word &&& field width index mask :=
  BitVec.extractLsb'_and

theorem field_not {index : Nat} (fits : FieldFits size width index) (word : BitVec size) :
    field width index (~~~word) = ~~~field width index word := by
  apply BitVec.eq_of_getLsbD_eq
  intro bit inside
  have bound : index * width + bit < size := by
    rw [FieldFits, Nat.succ_mul] at fits
    omega
  rw [getLsbD_field _ inside, BitVec.getLsbD_not, BitVec.getLsbD_not, getLsbD_field _ inside]
  simp [bound, inside]

/-! A mask of ones with `&= ~` clears its field, a value with `|=` is added to its field,
and every other field stays. -/

theorem field_clear {index : Nat} (fits : FieldFits size width index) (word : BitVec size) :
    field width index (word &&& ~~~place size index (BitVec.allOnes width)) =
      BitVec.ofNat width 0 := by
  rw [field_and, field_not fits, field_place fits, BitVec.not_allOnes, BitVec.and_zero]

theorem field_clear_of_ne {index other : Nat} (fits : FieldFits size width other)
    (different : other ≠ index) (word : BitVec size) (mask : BitVec width) :
    field width other (word &&& ~~~place size index mask) = field width other word := by
  rw [field_and, field_not fits, field_place_of_ne different, BitVec.not_zero,
    BitVec.and_allOnes]

theorem field_add {index : Nat} (fits : FieldFits size width index) (word : BitVec size)
    (value : BitVec width) :
    field width index (word ||| place size index value) = field width index word ||| value := by
  rw [field_or, field_place fits]

theorem field_add_of_ne {index other : Nat} (different : other ≠ index) (word : BitVec size)
    (value : BitVec width) :
    field width other (word ||| place size index value) = field width other word := by
  rw [field_or, field_place_of_ne different, BitVec.or_zero]

end RaspberryPi.PackedFields
