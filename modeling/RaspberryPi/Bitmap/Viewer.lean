import Mathlib.Data.List.GetD
import Mathlib.Tactic.Ring
import RaspberryPi.Foundation.Raster
import RaspberryPi.Bitmap.ReadBmp

/-! # Showing a bitmap

The conversion loop of `bmpViewer.c`, for a framebuffer of 16 bits per pixel.
The loop computes on its own where a row begins in what `readBmp` has read. -/

namespace RaspberryPi.Bitmap

structure Framebuffer where
  width : Nat
  height : Nat

def makepixel (r g b : UInt8) : UInt16 :=
  UInt16.ofNat ((r.toNat >>> 3) <<< 11 ||| (g.toNat >>> 2) <<< 5 ||| b.toNat >>> 3)

/-- `pData[index]`; no result outside of the buffer. -/
def readAt (data : Bytes) (index : Int) : Option UInt8 :=
  if index < 0 then none else data[index.toNat]?

/-- `k`, where the loop takes row `y` of the picture from. -/
def rowOffset (image : BmpImage) (y : Nat) : Int :=
  int32 (int32 (int32 (image.rows - 1 - y) * image.cols) * bytesPerPixel)

def convertPixel (image : BmpImage) (fb : Framebuffer) (x y : Nat) (pixels : Nat → UInt16) :
    Option (Nat → UInt16) :=
  if x < fb.width ∧ y < fb.height then do
    let b ← readAt image.data (int32 (rowOffset image y + x * bytesPerPixel + 0))
    let g ← readAt image.data (int32 (rowOffset image y + x * bytesPerPixel + 1))
    let r ← readAt image.data (int32 (rowOffset image y + x * bytesPerPixel + 2))
    some (Function.update pixels (y * fb.width + x) (makepixel r g b))
  else some pixels

def convert (image : BmpImage) (fb : Framebuffer) (pixels : Nat → UInt16) :
    Option (Nat → UInt16) :=
  Raster.sweep image.cols.toNat image.rows.toNat (convertPixel image fb) pixels

/-- A byte of the pixel in column `x` of row `y` from the top, in a file whose
rows go from the bottom up and are padded. -/
def bmpByte (file : Bytes) (x y channel : Nat) : Option UInt8 :=
  file[bfOffBits file +
    ((biHeight file - 1 - y) * stride (biWidth file) + x * 3 + channel)]?

def Shows (file : Bytes) (fb : Framebuffer) (pixels : Nat → UInt16) : Prop :=
  ∀ x < min (biWidth file) fb.width, ∀ y < min (biHeight file) fb.height, ∃ r g b,
    bmpByte file x y 2 = some r ∧ bmpByte file x y 1 = some g ∧ bmpByte file x y 0 = some b ∧
      pixels (y * fb.width + x) = makepixel r g b

/-- Whatever is in the buffer before, the picture is there afterwards. -/
def ViewerAgrees (file : Bytes) (fb : Framebuffer) : Prop :=
  ∀ image, readBmp file = some image →
    ∀ initial, ∃ pixels, convert image fb initial = some pixels ∧ Shows file fb pixels

/-! ## A picture without overflow -/

/-- A positive size for which no `int` overflows, in `readBmp` or in the loop. -/
structure Size (w h : Nat) (fb : Framebuffer) : Prop where
  widthPos : 0 < w
  heightPos : 0 < h
  rowFits : w * 3 + 3 < 2 ^ 31
  offsetFits : (h - 1) * (w * 3) < 2 ^ 31
  indexFits : ∀ x < w, ∀ y < h, x < fb.width → y < fb.height →
    (h - 1 - y) * (w * 3) + x * 3 + 2 < 2 ^ 31

structure Loaded (w h : Nat) (file : Bytes) (image : BmpImage) : Prop where
  cols : image.cols = w
  rows : image.rows = h
  data : image.data = (file.drop (bfOffBits file)).take (stride w * h)
  length : image.data.length = stride w * h

variable {w h : Nat} {file : Bytes} {image : BmpImage} {fb : Framebuffer}

theorem three_mul_le_stride (w : Nat) : w * 3 ≤ stride w := by
  rw [stride]
  omega

theorem Size.heightFits (size : Size w h fb) : h < 2 ^ 31 := by
  have widthPos := size.widthPos
  have offsetFits := size.offsetFits
  have several : (h - 1) * 3 ≤ (h - 1) * (w * 3) := Nat.mul_le_mul_left _ (by omega)
  omega

theorem Size.dataFits (size : Size w h fb) : stride w * h < 2 ^ 32 := by
  have rowFits := size.rowFits
  have heightPos := size.heightPos
  have offsetFits := size.offsetFits
  have narrow : stride w ≤ w * 4 := by
    rw [stride]
    omega
  have split : w * 4 * h * 3 = 4 * ((h - 1) * (w * 3)) + 4 * (w * 3) := by
    obtain ⟨above, rfl⟩ : ∃ above, h = above + 1 := ⟨h - 1, by omega⟩
    rw [Nat.add_sub_cancel]
    ring
  have total : stride w * h ≤ w * 4 * h := Nat.mul_le_mul_right h narrow
  by_cases few : h ≤ 2
  · have twice : stride w * h ≤ stride w * 2 := Nat.mul_le_mul_left _ few
    rw [stride] at twice ⊢
    omega
  · have rows : 2 * (w * 3) ≤ (h - 1) * (w * 3) := Nat.mul_le_mul_right _ (by omega)
    omega

theorem loaded_of_readBmp (size : Size w h fb) (width : biWidth file = w)
    (height : biHeight file = h) (accepted : readBmp file = some image) :
    Loaded w h file image := by
  rcases readBmp_eq_some accepted with ⟨cols, rows, data, length⟩
  have rowFits := size.rowFits
  have heightFits := size.heightFits
  rw [width, int32_eq_self (by omega) (by omega)] at cols
  rw [height, int32_eq_self (by omega) (by omega)] at rows
  rw [cols, rows, totalDataSize_eq size.rowFits size.dataFits] at length
  rw [cols, rows, pixelData, totalDataSize_eq size.rowFits size.dataFits] at data
  exact ⟨cols, rows, data, length⟩

theorem offset_lt {row x channel begin : Nat} (rowBelow : row < h) (columnBelow : x < w)
    (isChannel : channel < 3) (begins : begin ≤ row * stride w) :
    begin + x * 3 + channel < stride w * h := by
  have wide := three_mul_le_stride w
  calc begin + x * 3 + channel < row * stride w + stride w := by omega
    _ = stride w * (row + 1) := by rw [Nat.mul_add_one, Nat.mul_comm]
    _ ≤ stride w * h := Nat.mul_le_mul_left _ rowBelow

theorem Loaded.rowOffset_eq (loaded : Loaded w h file image) (size : Size w h fb) {y : Nat}
    (inside : y < h) : rowOffset image y = ((h - 1 - y) * (w * 3) : Nat) := by
  have bound : (h - 1 - y) * (w * 3) < 2 ^ 31 :=
    Nat.lt_of_le_of_lt (Nat.mul_le_mul_right _ (by omega)) size.offsetFits
  have smaller : (h - 1 - y) * w ≤ (h - 1 - y) * (w * 3) := Nat.mul_le_mul_left _ (by omega)
  have heightFits := size.heightFits
  have row : int32 (image.rows - 1 - y) = (h - 1 - y : Nat) := by
    rw [loaded.rows, int32_eq_self] <;> omega
  have product : int32 ((h - 1 - y : Nat) * image.cols) = ((h - 1 - y) * w : Nat) := by
    rw [loaded.cols, ← Int.natCast_mul, int32_eq_self] <;> omega
  have triple : ((h - 1 - y) * w : Nat) * bytesPerPixel = ((h - 1 - y) * (w * 3) : Nat) := by
    rw [← Nat.mul_assoc, Int.natCast_mul _ 3]
    rfl
  rw [rowOffset, row, product, triple, int32_eq_self] <;> omega

def pixelAt (data : Bytes) (offset : Nat) : UInt16 :=
  makepixel (data.getD (offset + 2) 0) (data.getD (offset + 1) 0) (data.getD offset 0)

theorem Loaded.readAt_eq (loaded : Loaded w h file image) (size : Size w h fb)
    {x y channel : Nat} (column : x < w) (row : y < h) (inWidth : x < fb.width)
    (inHeight : y < fb.height) (isChannel : channel < 3) :
    readAt image.data (int32 (rowOffset image y + x * bytesPerPixel + channel)) =
      some (image.data.getD ((h - 1 - y) * (w * 3) + x * 3 + channel) 0) := by
  have inData : (h - 1 - y) * (w * 3) + x * 3 + channel < stride w * h :=
    offset_lt (by omega) column isChannel (Nat.mul_le_mul_left _ (three_mul_le_stride w))
  have fits := size.indexFits x column y row inWidth inHeight
  have index : rowOffset image y + x * bytesPerPixel + channel =
      ((h - 1 - y) * (w * 3) + x * 3 + channel : Nat) := by
    rw [loaded.rowOffset_eq size row, bytesPerPixel]
    omega
  have present : (h - 1 - y) * (w * 3) + x * 3 + channel < image.data.length := by
    rwa [loaded.length]
  rw [index, int32_eq_self (by omega) (by omega), readAt, if_neg (by omega), Int.toNat_natCast,
    List.getElem?_eq_getElem present, List.getD_eq_getElem _ _ present]

theorem Loaded.convertPixel_eq (loaded : Loaded w h file image) (size : Size w h fb) {x y : Nat}
    (column : x < w) (row : y < h) (pixels : Nat → UInt16) :
    convertPixel image fb x y pixels = some (if x < fb.width ∧ y < fb.height then
      Function.update pixels (y * fb.width + x)
        (pixelAt image.data ((h - 1 - y) * (w * 3) + x * 3)) else pixels) := by
  rw [convertPixel]
  split_ifs with visible
  · rcases visible with ⟨inWidth, inHeight⟩
    have blue := loaded.readAt_eq size column row inWidth inHeight (show 0 < 3 by decide)
    have green := loaded.readAt_eq size column row inWidth inHeight (show 1 < 3 by decide)
    have red := loaded.readAt_eq size column row inWidth inHeight (show 2 < 3 by decide)
    rw [Int.cast_ofNat_Int] at blue green red
    rw [blue, green, red]
    rfl
  · rfl

theorem Loaded.convert_eq (loaded : Loaded w h file image) (size : Size w h fb)
    (initial : Nat → UInt16) :
    ∃ pixels, convert image fb initial = some pixels ∧
      ∀ x < w, ∀ y < h, x < fb.width → y < fb.height →
        pixels (y * fb.width + x) = pixelAt image.data ((h - 1 - y) * (w * 3) + x * 3) := by
  have apart : ∀ x y otherX otherY, x < fb.width ∧ y < fb.height →
      otherX < fb.width ∧ otherY < fb.height →
      y * fb.width + x = otherY * fb.width + otherX → x = otherX ∧ y = otherY :=
    fun _ _ _ _ visible otherVisible => Raster.cell_eq_of_index_eq visible.1 otherVisible.1
  rcases Raster.sweep_writes (fun x column y row => loaded.convertPixel_eq size column row) apart
    initial with ⟨pixels, swept, written⟩
  refine ⟨pixels, ?_, fun x column y row inWidth inHeight =>
    written x column y row ⟨inWidth, inHeight⟩⟩
  rw [convert, loaded.cols, loaded.rows]
  exact swept

theorem Loaded.bmpByte_eq (loaded : Loaded w h file image) (width : biWidth file = w)
    (height : biHeight file = h) {x y channel : Nat} (column : x < w) (row : y < h)
    (isChannel : channel < 3) :
    bmpByte file x y channel =
      some (image.data.getD ((h - 1 - y) * stride w + x * 3 + channel) 0) := by
  have inData : (h - 1 - y) * stride w + x * 3 + channel < stride w * h :=
    offset_lt (by omega) column isChannel (Nat.le_refl _)
  have present : (h - 1 - y) * stride w + x * 3 + channel < image.data.length := by
    rwa [loaded.length]
  rw [bmpByte, width, height, List.getD_eq_getElem _ _ present, ← List.getElem?_eq_getElem present,
    loaded.data, List.getElem?_take_of_lt inData, List.getElem?_drop]

theorem Loaded.shows_iff (loaded : Loaded w h file image) (width : biWidth file = w)
    (height : biHeight file = h) (pixels : Nat → UInt16) :
    Shows file fb pixels ↔ ∀ x < w, ∀ y < h, x < fb.width → y < fb.height →
      pixels (y * fb.width + x) = pixelAt image.data ((h - 1 - y) * stride w + x * 3) := by
  constructor
  · intro shows x column y row inWidth inHeight
    rcases shows x (by omega) y (by omega) with ⟨r, g, b, red, green, blue, shown⟩
    rw [loaded.bmpByte_eq width height column row (by decide)] at red green blue
    rw [shown, ← Option.some.inj red, ← Option.some.inj green, ← Option.some.inj blue]
    rfl
  · intro shown x inWidth y inHeight
    have column : x < w := by omega
    have row : y < h := by omega
    exact ⟨_, _, _, loaded.bmpByte_eq width height column row (by decide),
      loaded.bmpByte_eq width height column row (by decide),
      loaded.bmpByte_eq width height column row (by decide),
      shown x column y row (by omega) (by omega)⟩

/-- A file with a picture of that size that `readBmp` accepts. -/
structure Accepted (w h : Nat) (file : Bytes) : Prop where
  width : biWidth file = w
  height : biHeight file = h
  accepted : (readBmp file).isSome

/-- At each place that is shown, the bytes where a row would begin without padding
make the same pixel as those where it does begin. -/
def SamePixels (file : Bytes) (fb : Framebuffer) : Prop :=
  ∀ x < min (biWidth file) fb.width, ∀ y < min (biHeight file) fb.height,
    pixelAt (file.drop (bfOffBits file))
        ((biHeight file - 1 - y) * (biWidth file * 3) + x * 3) =
      pixelAt (file.drop (bfOffBits file)) ((biHeight file - 1 - y) * stride (biWidth file) + x * 3)

theorem Loaded.pixelAt_eq (loaded : Loaded w h file image) {offset : Nat}
    (inside : offset + 2 < stride w * h) :
    pixelAt image.data offset = pixelAt (file.drop (bfOffBits file)) offset := by
  have byte : ∀ index < stride w * h,
      image.data.getD index 0 = (file.drop (bfOffBits file)).getD index 0 := by
    intro index below
    rw [loaded.data, List.getD_eq_getElem?_getD, List.getD_eq_getElem?_getD,
      List.getElem?_take_of_lt below]
  rw [pixelAt, byte _ (by omega), byte _ (by omega), byte _ (by omega)]
  rfl

theorem Loaded.samePixels_iff (loaded : Loaded w h file image) (width : biWidth file = w)
    (height : biHeight file = h) :
    SamePixels file fb ↔ ∀ x < w, ∀ y < h, x < fb.width → y < fb.height →
      pixelAt image.data ((h - 1 - y) * (w * 3) + x * 3) =
        pixelAt image.data ((h - 1 - y) * stride w + x * 3) := by
  have inData : ∀ x < w, ∀ y < h, ∀ row ≤ stride w,
      (h - 1 - y) * row + x * 3 + 2 < stride w * h := fun x column y _ row narrow =>
    offset_lt (by omega) column (by decide) (Nat.mul_le_mul_left _ narrow)
  rw [SamePixels, width, height]
  constructor
  · intro same x column y row inWidth inHeight
    rw [loaded.pixelAt_eq (inData x column y row _ (three_mul_le_stride w)),
      loaded.pixelAt_eq (inData x column y row _ (Nat.le_refl _))]
    exact same x (by omega) y (by omega)
  · intro same x inWidth y inHeight
    have column : x < w := by omega
    have row : y < h := by omega
    rw [← loaded.pixelAt_eq (inData x column y row _ (three_mul_le_stride w)),
      ← loaded.pixelAt_eq (inData x column y row _ (Nat.le_refl _))]
    exact same x column y row (by omega) (by omega)

theorem Accepted.viewerAgrees_iff (accepted : Accepted w h file) (size : Size w h fb) :
    ViewerAgrees file fb ↔ SamePixels file fb := by
  rcases Option.isSome_iff_exists.mp accepted.accepted with ⟨image, read⟩
  have loaded := loaded_of_readBmp size accepted.width accepted.height read
  rw [loaded.samePixels_iff accepted.width accepted.height]
  constructor
  · intro agrees x column y row inWidth inHeight
    rcases agrees image read (fun _ => 0) with ⟨pixels, run, shows⟩
    rcases loaded.convert_eq size (fun _ => 0) with ⟨same, sameRun, shown⟩
    obtain rfl := Option.some.inj (run.symm.trans sameRun)
    have own := (loaded.shows_iff accepted.width accepted.height pixels).mp shows
    rw [← shown x column y row inWidth inHeight]
    exact own x column y row inWidth inHeight
  · intro same other otherRead initial
    obtain rfl := Option.some.inj (read.symm.trans otherRead)
    rcases loaded.convert_eq size initial with ⟨pixels, run, shown⟩
    refine ⟨pixels, run, (loaded.shows_iff accepted.width accepted.height pixels).mpr ?_⟩
    intro x column y row inWidth inHeight
    rw [shown x column y row inWidth inHeight]
    exact same x column y row inWidth inHeight

/-! ## Pictures that are shown wrong -/

def headers (w h : Nat) : Bytes :=
  [0x42, 0x4D] ++ List.replicate 8 0 ++ ByteOrder.little.bytes 4 54 ++
    (ByteOrder.little.bytes 4 40 ++ ByteOrder.little.bytes 4 w ++ ByteOrder.little.bytes 4 h ++
      [1, 0, 24, 0] ++ List.replicate 24 0)

def bmpFile (w h : Nat) (data : Bytes) : Bytes := headers w h ++ data

theorem length_headers (w h : Nat) : (headers w h).length = 54 := by
  simp [headers]

theorem Size.widthFits (size : Size w h fb) : w < 2 ^ 31 := by
  have rowFits := size.rowFits
  omega

theorem biWidth_bmpFile (size : Size w h fb) (data : Bytes) : biWidth (bmpFile w h data) = w := by
  have fits : w < 256 ^ 4 := lt_trans size.widthFits (by decide)
  exact ByteOrder.value_bytes .little fits

theorem biHeight_bmpFile (size : Size w h fb) (data : Bytes) : biHeight (bmpFile w h data) = h := by
  have fits : h < 256 ^ 4 := lt_trans size.heightFits (by decide)
  exact ByteOrder.value_bytes .little fits

theorem bfOffBits_bmpFile (w h : Nat) (data : Bytes) : bfOffBits (bmpFile w h data) = 54 := rfl

theorem bfType_bmpFile (w h : Nat) (data : Bytes) : bfType (bmpFile w h data) = 0x4D42 := by
  show ByteOrder.little.value [0x42, 0x4D] = 0x4D42
  decide

theorem accepted_bmpFile (size : Size w h fb) {data : Bytes} (length : data.length = stride w * h) :
    Accepted w h (bmpFile w h data) := by
  have rowFits := size.rowFits
  have heightFits := size.heightFits
  have cols : int32 (biWidth (bmpFile w h data)) = w := by
    rw [biWidth_bmpFile size, int32_eq_self] <;> omega
  have rows : int32 (biHeight (bmpFile w h data)) = h := by
    rw [biHeight_bmpFile size, int32_eq_self] <;> omega
  have whole : (bmpFile w h data).length = 54 + data.length := by
    rw [bmpFile, List.length_append, length_headers]
  have begins : (bmpFile w h data).drop (bfOffBits (bmpFile w h data)) = data := by
    rw [bfOffBits_bmpFile, bmpFile]
    exact List.drop_left' (length_headers w h)
  have complete : pixelData (bmpFile w h data) w h = data := by
    rw [pixelData, begins, totalDataSize_eq size.rowFits size.dataFits]
    exact List.take_of_length_le (Nat.le_of_eq length)
  refine ⟨biWidth_bmpFile size data, biHeight_bmpFile size data, ?_⟩
  rw [readBmp, cols, rows, if_neg, if_neg, if_neg, if_neg, if_neg, readPixels, if_neg, if_neg]
  · rfl
  · rw [complete, totalDataSize_eq size.rowFits size.dataFits, length]
    exact not_not_intro rfl
  · rw [bfOffBits_bmpFile]
    decide
  · exact not_not_intro rfl
  · exact not_not_intro rfl
  · rw [whole, fileHeaderSize, infoHeaderSize]
    omega
  · exact not_not_intro (bfType_bmpFile w h data)
  · rw [whole, fileHeaderSize]
    omega

theorem makepixel_toNat_mod (r g b : UInt8) : (makepixel r g b).toNat % 32 = b.toNat / 8 := by
  have blue : b.toNat >>> 3 < 2 ^ 5 := by
    have small := b.toNat_lt
    rw [Nat.shiftRight_eq_div_pow]
    omega
  have lower : (r.toNat >>> 3) <<< 11 ||| (g.toNat >>> 2) <<< 5 ||| b.toNat >>> 3 =
      ((r.toNat >>> 3) <<< 6 ||| g.toNat >>> 2) <<< 5 + b.toNat >>> 3 := by
    rw [Nat.shiftLeft_add_eq_or_of_lt blue, Nat.shiftLeft_or_distrib, ← Nat.shiftLeft_add]
  rw [makepixel, UInt16.toNat_ofNat', lower, Nat.shiftLeft_eq, Nat.shiftRight_eq_div_pow b.toNat 3]
  rw [Nat.shiftRight_eq_div_pow b.toNat 3] at blue
  omega

/-- Black but for the blue of the pixel in the corner at the top left. -/
def blueCorner (w h : Nat) : Bytes := (List.replicate (stride w * h) 0).set ((h - 1) * stride w) 255

theorem getD_blueCorner {index : Nat} (inside : index < stride w * h) :
    (blueCorner w h).getD index 0 = if (h - 1) * stride w = index then 255 else 0 := by
  rw [blueCorner, List.getD_eq_getElem?_getD, List.getElem?_set, List.length_replicate]
  split_ifs with atCorner
  · rfl
  · exact absurd (atCorner ▸ inside) (by assumption)
  · rw [List.getElem?_replicate, if_pos inside]
    rfl

theorem unpadded_ne (unaligned : w % 4 ≠ 0) (several : 1 < h) :
    (h - 1) * stride w ≠ (h - 1) * (w * 3) := by
  intro same
  have equal : stride w = w * 3 := Nat.eq_of_mul_eq_mul_left (by omega) same
  rw [stride] at equal
  omega

theorem length_blueCorner (w h : Nat) : (blueCorner w h).length = stride w * h := by
  rw [blueCorner, List.length_set, List.length_replicate]

/-- The byte of padding before the blue corner is taken for its blue, and the blue for its green:
the corner is shown green. -/
theorem not_samePixels_blueCorner (size : Size w h fb) (unaligned : w % 4 ≠ 0) (several : 1 < h)
    (widthPos : 0 < fb.width) (heightPos : 0 < fb.height) :
    ¬SamePixels (bmpFile w h (blueCorner w h)) fb := by
  intro same
  have columnBelow := size.widthPos
  have rowBelow := size.heightPos
  have accepted := accepted_bmpFile size (length_blueCorner w h)
  rcases Option.isSome_iff_exists.mp accepted.accepted with ⟨image, read⟩
  have loaded := loaded_of_readBmp size accepted.width accepted.height read
  have complete : image.data = blueCorner w h := by
    rw [loaded.data, bfOffBits_bmpFile, bmpFile, List.drop_left' (length_headers w h)]
    exact List.take_of_length_le (Nat.le_of_eq (length_blueCorner w h))
  have corner := (loaded.samePixels_iff accepted.width accepted.height).mp same 0 columnBelow 0
    rowBelow widthPos heightPos
  rw [complete] at corner
  have lit : (blueCorner w h).getD ((h - 1 - 0) * stride w + 0 * 3) 0 = 255 := by
    rw [getD_blueCorner, if_pos]
    · rfl
    · exact offset_lt (by omega) columnBelow (show 0 < 3 by decide) (Nat.le_refl _)
  have black : (blueCorner w h).getD ((h - 1 - 0) * (w * 3) + 0 * 3) 0 = 0 := by
    rw [getD_blueCorner, if_neg]
    · exact unpadded_ne unaligned several
    · exact offset_lt (by omega) columnBelow (show 0 < 3 by decide)
        (Nat.mul_le_mul_left _ (three_mul_le_stride w))
  have blues := congrArg (fun pixel => pixel.toNat % 32) corner
  simp only [pixelAt, makepixel_toNat_mod, lit, black] at blues
  exact absurd blues (by decide)

theorem samePixels_of_size (width : biWidth file = w) (height : biHeight file = h)
    (fits : w % 4 = 0 ∨ h = 1 ∨ fb.width = 0 ∨ fb.height = 0) : SamePixels file fb := by
  intro x inWidth y inHeight
  rw [width] at inWidth
  rw [height] at inHeight
  rw [width, height]
  rcases fits with aligned | single | noColumn | noRow
  · have exact : w * 3 = stride w := by
      rw [stride]
      omega
    rw [exact]
  · have first : h - 1 - y = 0 := by omega
    rw [first, Nat.zero_mul, Nat.zero_mul]
  · omega
  · omega

/-- A picture is shown right when the pixels at the places without padding are the
same; all pictures of a size are when rows of this width have no padding, or there
is one row only, or no room to show a pixel. -/
theorem agrees_iff (size : Size w h fb) :
    (∀ file, Accepted w h file → (ViewerAgrees file fb ↔ SamePixels file fb)) ∧
      ((∀ file, Accepted w h file → ViewerAgrees file fb) ↔
        w % 4 = 0 ∨ h = 1 ∨ fb.width = 0 ∨ fb.height = 0) := by
  refine ⟨fun file accepted => accepted.viewerAgrees_iff size, ?_, ?_⟩
  · intro agrees
    by_contra unfit
    have accepted := accepted_bmpFile size (length_blueCorner w h)
    have same := (accepted.viewerAgrees_iff size).mp (agrees _ accepted)
    have heightPos := size.heightPos
    exact not_samePixels_blueCorner size (by omega) (by omega) (by omega) (by omega) same
  · intro fits file accepted
    exact (accepted.viewerAgrees_iff size).mpr
      (samePixels_of_size accepted.width accepted.height fits)

theorem size_three_two : Size 3 2 ⟨4, 4⟩ :=
  ⟨by decide, by decide, by decide, by decide, by decide⟩

theorem agrees_iff_three_two :
    Size 3 2 ⟨4, 4⟩ ∧
      (∀ file, Accepted 3 2 file → (ViewerAgrees file ⟨4, 4⟩ ↔ SamePixels file ⟨4, 4⟩)) ∧
        ((∀ file, Accepted 3 2 file → ViewerAgrees file ⟨4, 4⟩) ↔
          3 % 4 = 0 ∨ 2 = 1 ∨ 4 = 0 ∨ 4 = 0) :=
  ⟨size_three_two, agrees_iff size_three_two⟩

theorem not_agrees_oneColumn :
    Size 1 2 ⟨1, 1⟩ ∧ Accepted 1 2 (bmpFile 1 2 [0, 0, 0, 0, 255, 0, 0, 0]) ∧
      ¬ViewerAgrees (bmpFile 1 2 [0, 0, 0, 0, 255, 0, 0, 0]) ⟨1, 1⟩ := by
  have size : Size 1 2 ⟨1, 1⟩ := ⟨by decide, by decide, by decide, by decide, by decide⟩
  have accepted := accepted_bmpFile size (length_blueCorner 1 2)
  refine ⟨size, accepted, fun agrees => ?_⟩
  have same := (accepted.viewerAgrees_iff size).mp agrees
  exact not_samePixels_blueCorner size (by decide) (by decide) (by decide) (by decide) same

end RaspberryPi.Bitmap
