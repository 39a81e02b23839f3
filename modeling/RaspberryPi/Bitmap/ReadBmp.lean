import Mathlib.Algebra.Group.Int.Defs
import RaspberryPi.Foundation.ByteOrder
import RaspberryPi.Foundation.CString

/-! # Reading a bitmap

`readBmp` of `bmpHeader.c` on a machine whose `int`, `long` and `size_t` have 32
bits and that stores the lowest byte of a number first. -/

namespace RaspberryPi.Bitmap

/-- The value that an `int` keeps of a number. -/
def int32 (value : Int) : Int := (BitVec.ofInt 32 value).toInt

def size32 (value : Int) : Nat := (BitVec.ofInt 32 value).toNat

def field (file : Bytes) (offset width : Nat) : Nat :=
  ByteOrder.little.value ((file.drop offset).take width)

/-! The fields of the two headers that `readBmp` looks at. -/

def bfType (file : Bytes) : Nat := field file 0 2

def bfOffBits (file : Bytes) : Nat := field file 10 4

def biWidth (file : Bytes) : Nat := field file 18 4

def biHeight (file : Bytes) : Nat := field file 22 4

def biBitCount (file : Bytes) : Nat := field file 28 2

def biCompression (file : Bytes) : Nat := field file 30 4

def fileHeaderSize : Nat := 14

def infoHeaderSize : Nat := 40

structure BmpImage where
  cols : Int
  rows : Int
  data : Bytes

def bytesPerPixel : Int := 3

def paddedRowSize (cols : Int) : Int :=
  int32 ((int32 (int32 (cols * bytesPerPixel) + 3)).tdiv 4 * 4)

def totalDataSize (cols rows : Int) : Nat := size32 (paddedRowSize cols * rows)

def pixelData (file : Bytes) (cols rows : Int) : Bytes :=
  (file.drop (bfOffBits file)).take (totalDataSize cols rows)

/-- The `fseek`, which must not be to a negative offset, and a complete `fread`. -/
def readPixels (file : Bytes) (cols rows : Int) : Option BmpImage :=
  if int32 (bfOffBits file) < 0 then none
  else if (pixelData file cols rows).length ≠ totalDataSize cols rows then none
  else some ⟨cols, rows, pixelData file cols rows⟩

def readBmp (file : Bytes) : Option BmpImage :=
  if file.length < fileHeaderSize then none
  else if bfType file ≠ 0x4D42 then none
  else if file.length < fileHeaderSize + infoHeaderSize then none
  else if biBitCount file ≠ 24 then none
  else if biCompression file ≠ 0 then none
  else readPixels file (int32 (biWidth file)) (int32 (biHeight file))

/-! ## Numbers that overflow and numbers that do not -/

theorem int32_eq_bmod (value : Int) : int32 value = value.bmod (2 ^ 32) := by
  rw [int32, BitVec.toInt_ofInt]

theorem int32_mul (value factor : Int) : int32 (int32 value * factor) = int32 (value * factor) := by
  rw [int32_eq_bmod, int32_eq_bmod, int32_eq_bmod, Int.bmod_mul_bmod]

theorem int32_add (value term : Int) : int32 (int32 value + term) = int32 (value + term) := by
  rw [int32_eq_bmod, int32_eq_bmod, int32_eq_bmod, Int.bmod_add_bmod]

theorem int32_eq_self {value : Int} (lower : -2 ^ 31 ≤ value) (upper : value < 2 ^ 31) :
    int32 value = value := by
  rw [int32_eq_bmod]
  apply Int.bmod_eq_of_le <;> omega

theorem size32_eq_self {value : Nat} (upper : value < 2 ^ 32) : size32 value = value := by
  rw [size32, BitVec.toNat_ofInt]
  omega

def stride (cols : Nat) : Nat := (cols * 3 + 3) / 4 * 4

theorem paddedRowSize_eq {cols : Nat} (fits : cols * 3 + 3 < 2 ^ 31) :
    paddedRowSize cols = stride cols := by
  have product : int32 (cols * bytesPerPixel) = (cols * 3 : Nat) := by
    rw [int32_eq_self] <;> simp only [bytesPerPixel] <;> omega
  have sum : int32 ((cols * 3 : Nat) + 3) = (cols * 3 + 3 : Nat) := by
    rw [int32_eq_self] <;> omega
  have quotient : ((cols * 3 + 3 : Nat) : Int).tdiv 4 = ((cols * 3 + 3) / 4 : Nat) := by
    rw [Int.tdiv_eq_ediv_of_nonneg (by omega)]
    omega
  have rounded : ((cols * 3 + 3) / 4 : Nat) * (4 : Int) = stride cols := by
    rw [stride]
    omega
  have small : stride cols < 2 ^ 31 := by
    rw [stride]
    omega
  rw [paddedRowSize, product, sum, quotient, rounded, int32_eq_self] <;> omega

theorem totalDataSize_eq {cols rows : Nat} (fits : cols * 3 + 3 < 2 ^ 31)
    (total : stride cols * rows < 2 ^ 32) : totalDataSize cols rows = stride cols * rows := by
  rw [totalDataSize, paddedRowSize_eq fits, ← Int.natCast_mul, size32_eq_self total]

theorem readPixels_eq_some {file : Bytes} {cols rows : Int} {image : BmpImage}
    (done : readPixels file cols rows = some image) :
    image = ⟨cols, rows, pixelData file cols rows⟩ ∧
      (pixelData file cols rows).length = totalDataSize cols rows := by
  rw [readPixels] at done
  split_ifs at done with negative incomplete
  exact ⟨(Option.some.inj done).symm, not_ne_iff.mp incomplete⟩

theorem readBmp_eq_some {file : Bytes} {image : BmpImage} (accepted : readBmp file = some image) :
    image.cols = int32 (biWidth file) ∧ image.rows = int32 (biHeight file) ∧
      image.data = pixelData file image.cols image.rows ∧
      image.data.length = totalDataSize image.cols image.rows := by
  rw [readBmp] at accepted
  split_ifs at accepted
  rcases readPixels_eq_some accepted with ⟨same, complete⟩
  rw [same]
  exact ⟨rfl, rfl, rfl, complete⟩

end RaspberryPi.Bitmap
