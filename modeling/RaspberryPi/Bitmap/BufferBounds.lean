import Mathlib.Tactic.IntervalCases
import RaspberryPi.Bitmap.Viewer

/-! # Where the conversion loop reads

`readBmp` allocates `total_data_size` bytes, computed from the width and the height
of the header; the loop of `bmpViewer.c` computes its offsets from the same two
fields. All of it is `int` arithmetic that wraps. -/

namespace RaspberryPi.Bitmap

def readOffset (image : BmpImage) (x y channel : Nat) : Int :=
  int32 (rowOffset image y + x * bytesPerPixel + channel)

def ReadsInData (image : BmpImage) (fb : Framebuffer) : Prop :=
  ∀ x y channel, x < image.cols.toNat → y < image.rows.toNat → x < fb.width → y < fb.height →
    channel < 3 → 0 ≤ readOffset image x y channel ∧
      readOffset image x y channel < totalDataSize image.cols image.rows

/-- The part of each row that is on the screen is in the data. The beginning of the
row is taken modulo `2 ^ 32`, and an offset from `2 ^ 31` on is negative. -/
def RowsFit (image : BmpImage) (fb : Framebuffer) : Prop :=
  ∀ y < min image.rows.toNat fb.height, 0 < min image.cols.toNat fb.width →
    (image.rows.toNat - 1 - y) * (image.cols.toNat * 3) % 2 ^ 32 +
      min image.cols.toNat fb.width * 3 ≤ min (totalDataSize image.cols image.rows) (2 ^ 31)

/-! ## Wrapped arithmetic -/

theorem int32_mem_iff (value size : Nat) :
    0 ≤ int32 value ∧ int32 value < size ↔ value % 2 ^ 32 < min size (2 ^ 31) := by
  rw [int32_eq_bmod, Int.bmod_def]
  split_ifs with small
  · omega
  · omega

theorem consecutive_lt_iff {begin count limit : Nat} (positive : 0 < count)
    (small : limit ≤ 2 ^ 31) :
    (∀ index < count, (begin + index) % 2 ^ 32 < limit) ↔ begin % 2 ^ 32 + count ≤ limit := by
  constructor
  · intro inside
    by_contra beyond
    have first := inside 0 positive
    -- the first number that reaches the limit
    have reached := inside (limit - begin % 2 ^ 32) (by omega)
    omega
  · intro fits index below
    omega

variable {image : BmpImage} {fb : Framebuffer}

theorem readOffset_eq {x y channel : Nat} (column : x < image.cols.toNat)
    (row : y < image.rows.toNat) : readOffset image x y channel =
      int32 ((image.rows.toNat - 1 - y) * (image.cols.toNat * 3) + x * 3 + channel : Nat) := by
  have wide : image.cols = image.cols.toNat := by omega
  have high : image.rows - 1 - y = (image.rows.toNat - 1 - y : Nat) := by omega
  have begins : rowOffset image y =
      int32 ((image.rows - 1 - y) * (image.cols * bytesPerPixel)) := by
    rw [rowOffset, int32_mul, Int.mul_assoc, int32_mul]
  rw [readOffset, begins, Int.add_assoc, int32_add, high, bytesPerPixel]
  generalize image.cols.toNat = w at wide
  rw [wide]
  push_cast
  rw [Int.add_assoc]

/-- The bytes of the visible part of a row follow each other. -/
theorem readsInData_iff_rowsFit : ReadsInData image fb ↔ RowsFit image fb := by
  constructor
  · intro inside y row columns
    rw [Nat.lt_min] at row
    apply (consecutive_lt_iff (by omega) (Nat.min_le_right _ _)).mp
    intro index below
    have bounds := inside (index / 3) y (index % 3) (by omega) row.1 (by omega) row.2 (by omega)
    rw [readOffset_eq (by omega) row.1, int32_mem_iff] at bounds
    rwa [Nat.add_assoc, Nat.mul_comm (index / 3), Nat.div_add_mod] at bounds
  · intro fits x y channel column row inWidth inHeight isChannel
    have rowFits := fits y (by omega) (by omega)
    have inside := (consecutive_lt_iff (by omega) (Nat.min_le_right _ _)).mpr rowFits
    rw [readOffset_eq column row, int32_mem_iff, Nat.add_assoc]
    exact inside _ (by omega)

/-! ## Every framebuffer -/

def OffsetsFit (cols rows : Int) : Prop := cols ≤ 0 ∨ rows ≤ 0 ∨ cols * rows * 3 ≤ 2 ^ 31

theorem le_totalDataSize {w h : Nat} (rowPos : 0 < h) (fits : h * (w * 3) ≤ 2 ^ 31) :
    h * (w * 3) ≤ totalDataSize w h := by
  have narrow : w * 3 ≤ h * (w * 3) := Nat.le_mul_of_pos_left _ rowPos
  by_cases roundable : w * 3 + 3 < 2 ^ 31
  · have round : stride w ≤ w * 4 := by
      rw [stride]
      omega
    have total : stride w * h ≤ w * 4 * h := Nat.mul_le_mul_right h round
    have product : w * 4 * h * 3 = 4 * (h * (w * 3)) := by ring
    rw [totalDataSize_eq roundable (by omega), Nat.mul_comm (stride w)]
    exact Nat.mul_le_mul_left h (three_mul_le_stride w)
  · -- the widest picture, of one row, whose padded size wraps
    have widest : w = 715827882 := by omega
    subst widest
    have single : h = 1 := by omega
    subst single
    decide

theorem rowsFit_of_offsetsFit {w h : Nat} (cols : image.cols = w) (rows : image.rows = h)
    (fits : h * (w * 3) ≤ 2 ^ 31) (fb : Framebuffer) : RowsFit image fb := by
  intro y row columns
  rw [rows, Int.toNat_natCast] at row
  have total := le_totalDataSize (show 0 < h by omega) fits
  have last : (h - 1 - y + 1) * (w * 3) ≤ h * (w * 3) := Nat.mul_le_mul_right _ (by omega)
  rw [Nat.succ_mul] at last
  rw [cols, rows, Int.toNat_natCast, Int.toNat_natCast]
  omega

theorem offsets_le_of_rowsFit {w h : Nat} (cols : image.cols = w) (rows : image.rows = h)
    (widthPos : 0 < w) (fits : RowsFit image ⟨w, h⟩) : h * (w * 3) ≤ 2 ^ 31 := by
  have begins : ∀ row ≤ h, row * (w * 3) ≤ 2 ^ 31 := by
    intro row
    induction row with
    | zero => omega
    | succ row induction =>
        intro inside
        have before := induction (by omega)
        have rowFits := fits (h - 1 - row)
        rw [cols, rows, Int.toNat_natCast, Int.toNat_natCast, Nat.min_self, Nat.min_self] at rowFits
        have fitting := rowFits (by omega) widthPos
        rw [show h - 1 - (h - 1 - row) = row by omega] at fitting
        rw [Nat.succ_mul]
        omega
  exact begins h (Nat.le_refl h)

theorem readsInData_forall_iff :
    (∀ fb, ReadsInData image fb) ↔ OffsetsFit image.cols image.rows := by
  simp only [readsInData_iff_rowsFit]
  by_cases visible : 0 < image.cols ∧ 0 < image.rows
  · rcases Int.eq_ofNat_of_zero_le (Int.le_of_lt visible.1) with ⟨w, cols⟩
    rcases Int.eq_ofNat_of_zero_le (Int.le_of_lt visible.2) with ⟨h, rows⟩
    have product : image.cols * image.rows * 3 = (h * (w * 3) : Nat) := by
      rw [cols, rows]
      push_cast
      ring
    constructor
    · intro fits
      have small := offsets_le_of_rowsFit cols rows (by omega) (fits ⟨w, h⟩)
      exact Or.inr (Or.inr (by omega))
    · rintro (noColumn | noRow | small) fb
      · omega
      · omega
      · exact rowsFit_of_offsetsFit cols rows (by omega) fb
  · refine iff_of_true (fun fb y row columns => by omega) ?_
    rw [OffsetsFit]
    omega

/-! ## The loop itself -/

theorem isSome_readAt {data : Bytes} {index : Int} :
    (readAt data index).isSome ↔ 0 ≤ index ∧ index < data.length := by
  rw [readAt]
  split_ifs with negative
  · simp [negative]
  · rw [Option.isSome_iff_ne_none, ne_eq, List.getElem?_eq_none_iff]
    omega

theorem isSome_convertPixel {x y : Nat} {pixels : Nat → UInt16} :
    (convertPixel image fb x y pixels).isSome ↔ (x < fb.width → y < fb.height →
      ∀ channel < 3, (readAt image.data (readOffset image x y channel)).isSome) := by
  have three : (∀ channel < 3, (readAt image.data (readOffset image x y channel)).isSome) ↔
      (readAt image.data (readOffset image x y 0)).isSome ∧
      (readAt image.data (readOffset image x y 1)).isSome ∧
      (readAt image.data (readOffset image x y 2)).isSome := by
    constructor
    · exact fun all => ⟨all 0 (by decide), all 1 (by decide), all 2 (by decide)⟩
    · rintro ⟨blue, green, red⟩ channel isChannel
      interval_cases channel
      · exact blue
      · exact green
      · exact red
  rw [convertPixel, three]
  split_ifs with visible
  · rw [forall_prop_of_true visible.1, forall_prop_of_true visible.2]
    change (((readAt image.data (readOffset image x y 0)).bind fun b =>
      (readAt image.data (readOffset image x y 1)).bind fun g =>
        (readAt image.data (readOffset image x y 2)).bind fun r =>
          some (Function.update pixels (y * fb.width + x) (makepixel r g b))).isSome) ↔ _
    cases readAt image.data (readOffset image x y 0) <;>
      cases readAt image.data (readOffset image x y 1) <;>
      cases readAt image.data (readOffset image x y 2) <;>
      simp
  · refine iff_of_true rfl fun inWidth inHeight => ?_
    exact absurd ⟨inWidth, inHeight⟩ visible

theorem isSome_convert {file : Bytes} (accepted : readBmp file = some image)
    (initial : Nat → UInt16) : (convert image fb initial).isSome ↔ ReadsInData image fb := by
  rcases readBmp_eq_some accepted with ⟨_, _, _, length⟩
  have alike : ∀ x < image.cols.toNat, ∀ y < image.rows.toNat, ∀ pixels,
      (convertPixel image fb x y pixels).isSome ↔ (x < fb.width → y < fb.height →
        ∀ channel < 3, (readAt image.data (readOffset image x y channel)).isSome) :=
    fun x _ y _ pixels => isSome_convertPixel
  rw [convert, Raster.isSome_sweep_iff alike]
  constructor
  · intro read x y channel column row inWidth inHeight isChannel
    rw [← length, ← isSome_readAt]
    exact read x column y row inWidth inHeight channel isChannel
  · intro inside x column y row inWidth inHeight channel isChannel
    rw [isSome_readAt, length]
    exact inside x y channel column row inWidth inHeight isChannel

/-- What the loop reads for the pixels inside of the framebuffer was allocated, for
every framebuffer exactly when all offsets are `int`s; for one framebuffer exactly
when the visible parts of the rows fit. -/
theorem readsInData_iff (file : Bytes) (image : BmpImage) (accepted : readBmp file = some image) :
    ((∀ fb, ReadsInData image fb) ↔ OffsetsFit (int32 (biWidth file)) (int32 (biHeight file))) ∧
      ∀ fb, (ReadsInData image fb ↔ RowsFit image fb) ∧
        ∀ initial, ((convert image fb initial).isSome ↔ ReadsInData image fb) := by
  rcases readBmp_eq_some accepted with ⟨cols, rows, _⟩
  rw [← cols, ← rows]
  exact ⟨readsInData_forall_iff, fun fb => ⟨readsInData_iff_rowsFit, isSome_convert accepted⟩⟩

def onePixel : BmpImage := ⟨1, 1, [1, 2, 3, 0]⟩

theorem readsInData_iff_onePixel :
    ((∀ fb, ReadsInData onePixel fb) ↔ OffsetsFit (int32 (biWidth (bmpFile 1 1 [1, 2, 3, 0])))
        (int32 (biHeight (bmpFile 1 1 [1, 2, 3, 0])))) ∧
      ∀ fb, (ReadsInData onePixel fb ↔ RowsFit onePixel fb) ∧
        ∀ initial, ((convert onePixel fb initial).isSome ↔ ReadsInData onePixel fb) :=
  readsInData_iff (bmpFile 1 1 [1, 2, 3, 0]) onePixel rfl

/-- A width for which three bytes a pixel wrap to two bytes a row. -/
def wrappedWidth : Nat := 1431655766

/-- Four bytes are allocated and read for a picture that fills the screen. -/
theorem not_readsInData_wrapped :
    readBmp (bmpFile wrappedWidth 1 [1, 2, 3, 4]) = some ⟨wrappedWidth, 1, [1, 2, 3, 4]⟩ ∧
      ¬ReadsInData ⟨wrappedWidth, 1, [1, 2, 3, 4]⟩ ⟨800, 480⟩ := by
  refine ⟨rfl, fun inside => ?_⟩
  have second := inside 1 0 1 (by decide) (by decide) (by decide) (by decide) (by decide)
  exact absurd second.2 (by decide)

end RaspberryPi.Bitmap
