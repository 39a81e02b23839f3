import Mathlib.Data.Nat.Digits.Lemmas
import RaspberryPi.Foundation.CString

/-! # Decimal numbers in C strings

`%d` of a non-negative number and `atoi`. `atoi` is `strtol` on a platform whose
`long` has 32 bits, so values out of range stop at the bounds of `int`. -/

namespace RaspberryPi.CString

def intMax : Int := 2 ^ 31 - 1

def intMin : Int := -2 ^ 31

def digit (value : Nat) : UInt8 := UInt8.ofNat (48 + value)

/-- `%d` of a non-negative number. -/
def decimal (value : Nat) : Bytes :=
  if value = 0 then [digit 0] else (Nat.digits 10 value).reverse.map digit

def isDigit (byte : UInt8) : Bool := 48 ≤ byte && byte ≤ 57

def isSpace (byte : UInt8) : Bool := byte = 32 || (9 ≤ byte && byte ≤ 13)

/-- The value of the leading digits, `seen` being the value of those before. -/
def leadingNumber (seen : Nat) : Bytes → Nat
  | [] => seen
  | byte :: rest =>
      if isDigit byte then leadingNumber (10 * seen + (byte - 48).toNat) rest
      else seen

def atoi (string : Bytes) : Int :=
  match string.dropWhile isSpace with
  | 45 :: rest => max (-(leadingNumber 0 rest)) intMin
  | 43 :: rest => min (leadingNumber 0 rest) intMax
  | rest => min (leadingNumber 0 rest) intMax

theorem toNat_digit {value : Nat} (small : value < 10) : (digit value).toNat = 48 + value := by
  simp only [digit, UInt8.toNat_ofNat']
  omega

theorem isDigit_digit {value : Nat} (small : value < 10) : isDigit (digit value) = true := by
  have toNat := toNat_digit small
  simp only [isDigit, Bool.and_eq_true, decide_eq_true_eq, UInt8.le_iff_toNat_le, toNat]
  exact ⟨by simp, by simp; omega⟩

theorem digit_sub {value : Nat} (small : value < 10) : (digit value - 48).toNat = value := by
  have toNat := toNat_digit small
  rw [UInt8.toNat_sub_of_le _ _ (by rw [UInt8.le_iff_toNat_le, toNat]; simp), toNat]
  simp

theorem isDigit_of_mem_decimal {value : Nat} {byte : UInt8}
    (member : byte ∈ decimal value) : isDigit byte = true := by
  rw [decimal] at member
  split at member
  · rw [List.mem_singleton.mp member]
    rfl
  · rcases List.mem_map.mp member with ⟨digitValue, digitMember, rfl⟩
    exact isDigit_digit (Nat.digits_lt_base (by omega) (List.mem_reverse.mp digitMember))

theorem decimal_ne_nil (value : Nat) : decimal value ≠ [] := by
  rw [decimal]
  split
  · simp
  · simpa [Nat.digits_eq_nil_iff_eq_zero]

theorem notMem_decimal {value : Nat} {byte : UInt8} (other : isDigit byte = false) :
    byte ∉ decimal value := fun member => by
  simp [isDigit_of_mem_decimal member] at other

theorem length_decimal_le {value : Nat} (inRange : (value : Int) ≤ intMax) :
    (decimal value).length ≤ 10 := by
  rw [decimal]
  split
  · simp
  · rename_i nonzero
    have bound : value < 10 ^ 10 := by
      have : intMax = 2147483647 := rfl
      omega
    simpa using (Nat.digits_length_le_iff (by omega) value).mpr bound

private theorem leadingNumber_map_digit (seen : Nat) (digits : List Nat)
    (small : ∀ value ∈ digits, value < 10) :
    leadingNumber seen (digits.map digit) =
      digits.foldl (fun value next => 10 * value + next) seen := by
  induction digits generalizing seen with
  | nil => rfl
  | cons head tail induction =>
      have headSmall := small head (by simp)
      simp only [List.map_cons, leadingNumber, isDigit_digit headSmall, if_true,
        digit_sub headSmall, List.foldl_cons]
      exact induction _ fun value member => small value (by simp [member])

theorem leadingNumber_decimal (value : Nat) : leadingNumber 0 (decimal value) = value := by
  by_cases zero : value = 0
  · subst zero
    rfl
  · have small : ∀ digitValue ∈ (Nat.digits 10 value).reverse, digitValue < 10 :=
      fun digitValue member =>
        Nat.digits_lt_base (by omega) (List.mem_reverse.mp member)
    rw [decimal, if_neg zero, leadingNumber_map_digit _ _ small, List.foldl_reverse]
    conv => rhs; rw [← Nat.ofDigits_digits 10 value, Nat.ofDigits_eq_foldr]
    simp only [Nat.cast_id, Nat.add_comm]

private theorem isSpace_of_isDigit {byte : UInt8} (isNumber : isDigit byte = true) :
    isSpace byte = false := by
  simp only [isDigit, Bool.and_eq_true, decide_eq_true_eq, UInt8.le_iff_toNat_le] at isNumber
  simp only [isSpace, Bool.or_eq_false_iff, Bool.and_eq_false_iff, decide_eq_false_iff_not,
    UInt8.le_iff_toNat_le, ← UInt8.toNat_inj]
  simp only [UInt8.reduceToNat] at isNumber ⊢
  omega

theorem atoi_decimal {value : Nat} (inRange : (value : Int) ≤ intMax) :
    atoi (decimal value) = value := by
  have number := leadingNumber_decimal value
  cases printed : decimal value with
  | nil => exact (decimal_ne_nil value printed).elim
  | cons first rest =>
      have firstDigit : isDigit first = true :=
        isDigit_of_mem_decimal (by rw [printed]; simp)
      have notMinus : first ≠ 45 := by
        rintro rfl
        exact absurd firstDigit (by decide)
      have notPlus : first ≠ 43 := by
        rintro rfl
        exact absurd firstDigit (by decide)
      rw [printed] at number
      rw [atoi, List.dropWhile_cons_of_neg (by simp [isSpace_of_isDigit firstDigit])]
      split
      · simp_all
      · simp_all
      · rw [number]
        exact min_eq_left inRange

end RaspberryPi.CString
