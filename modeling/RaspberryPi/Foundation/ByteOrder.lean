import Mathlib.Algebra.Group.Nat.Defs
import Mathlib.Data.List.Basic

/-! # Numbers in bytes

The bytes of an unsigned number of a given width, in either order. -/

namespace RaspberryPi

inductive ByteOrder
  | little
  | big
deriving DecidableEq

namespace ByteOrder

def ofLittle : List UInt8 → Nat
  | [] => 0
  | byte :: bytes => byte.toNat + 256 * ofLittle bytes

def toLittle : Nat → Nat → List UInt8
  | 0, _ => []
  | width + 1, value => UInt8.ofNat value :: toLittle width (value / 256)

def value : ByteOrder → List UInt8 → Nat
  | little, bytes => ofLittle bytes
  | big, bytes => ofLittle bytes.reverse

def bytes : ByteOrder → Nat → Nat → List UInt8
  | little, width, value => toLittle width value
  | big, width, value => (toLittle width value).reverse

@[simp] theorem length_toLittle (width value : Nat) : (toLittle width value).length = width := by
  induction width generalizing value with
  | zero => rfl
  | succ width induction => simp [toLittle, induction]

@[simp] theorem length_bytes (order : ByteOrder) (width value : Nat) :
    (order.bytes width value).length = width := by
  cases order <;> simp [bytes]

theorem ofLittle_toLittle {width value : Nat} (fits : value < 256 ^ width) :
    ofLittle (toLittle width value) = value := by
  induction width generalizing value with
  | zero =>
      rw [Nat.pow_zero] at fits
      exact (Nat.lt_one_iff.mp fits).symm
  | succ width induction =>
      have rest : value / 256 < 256 ^ width := by
        rw [Nat.div_lt_iff_lt_mul (by decide)]
        rwa [Nat.pow_succ] at fits
      rw [toLittle, ofLittle, induction rest, UInt8.toNat_ofNat']
      exact Nat.mod_add_div value 256

theorem toLittle_ofLittle (bytes : List UInt8) :
    toLittle bytes.length (ofLittle bytes) = bytes := by
  induction bytes with
  | nil => rfl
  | cons byte bytes induction =>
      have low : byte.toNat < 256 := byte.toNat_lt
      have quotient : (byte.toNat + 256 * ofLittle bytes) / 256 = ofLittle bytes := by omega
      have first : UInt8.ofNat (byte.toNat + 256 * ofLittle bytes) = byte := by
        apply UInt8.toNat_inj.mp
        rw [UInt8.toNat_ofNat']
        omega
      rw [List.length_cons, ofLittle, toLittle, quotient, induction, first]

theorem ofLittle_lt (bytes : List UInt8) : ofLittle bytes < 256 ^ bytes.length := by
  induction bytes with
  | nil => decide
  | cons byte bytes induction =>
      have low : byte.toNat < 256 := byte.toNat_lt
      rw [List.length_cons, ofLittle, Nat.pow_succ]
      omega

theorem value_lt (order : ByteOrder) (bytes : List UInt8) :
    order.value bytes < 256 ^ bytes.length := by
  cases order with
  | little => exact ofLittle_lt bytes
  | big =>
      rw [← List.length_reverse]
      exact ofLittle_lt bytes.reverse

theorem value_bytes (order : ByteOrder) {width number : Nat} (fits : number < 256 ^ width) :
    order.value (order.bytes width number) = number := by
  cases order with
  | little => exact ofLittle_toLittle fits
  | big =>
      rw [bytes, value, List.reverse_reverse]
      exact ofLittle_toLittle fits

theorem bytes_value (order : ByteOrder) (bytes : List UInt8) :
    order.bytes bytes.length (order.value bytes) = bytes := by
  cases order with
  | little => exact toLittle_ofLittle bytes
  | big =>
      have reversed := toLittle_ofLittle bytes.reverse
      rw [List.length_reverse] at reversed
      rw [value, ByteOrder.bytes, reversed, List.reverse_reverse]

/-! ## Words of 32 bits -/

def wordBytes (order : ByteOrder) (word : BitVec 32) : List UInt8 := order.bytes 4 word.toNat

def word (order : ByteOrder) (bytes : List UInt8) : BitVec 32 := BitVec.ofNat 32 (order.value bytes)

@[simp] theorem length_wordBytes (order : ByteOrder) (word : BitVec 32) :
    (order.wordBytes word).length = 4 := length_bytes order 4 _

@[simp] theorem word_wordBytes (order : ByteOrder) (word : BitVec 32) :
    order.word (order.wordBytes word) = word := by
  rw [wordBytes, ByteOrder.word, value_bytes order word.isLt, BitVec.ofNat_toNat,
    BitVec.setWidth_eq]

theorem wordBytes_word (order : ByteOrder) {bytes : List UInt8} (length : bytes.length = 4) :
    order.wordBytes (order.word bytes) = bytes := by
  have below := value_lt order bytes
  rw [length] at below
  have fits : order.value bytes < 2 ^ 32 := Nat.lt_of_lt_of_eq below (by decide)
  rw [wordBytes, ByteOrder.word, BitVec.toNat_ofNat, Nat.mod_eq_of_lt fits, ← length, bytes_value]

theorem wordBytes_injective (order : ByteOrder) : Function.Injective order.wordBytes := by
  intro first second equal
  rw [← word_wordBytes order first, equal, word_wordBytes]

end ByteOrder

end RaspberryPi
