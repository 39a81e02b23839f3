import Mathlib.Tactic.Ring
import RaspberryPi.Bitmap.ReadBmp
import RaspberryPi.Foundation.Raster

/-! # Filling a rectangle

`drawpoint`, `drawface` and `drawfacemmap` of `fbdraw.c`, for a framebuffer of 16
bits per pixel. The resolution is unsigned, and so is what is computed with it; the
offset for `lseek` is an `int`. -/

namespace RaspberryPi.Fbdraw

open Bitmap (int32 int32_eq_bmod int32_eq_self)

structure Vinfo where
  xres : Nat
  yres : Nat
  xresFits : xres < 2 ^ 32
  yresFits : yres < 2 ^ 32

def makepixel (r g b : UInt8) : UInt16 :=
  UInt16.ofNat ((r.toNat >>> 3) <<< 11 ||| (g.toNat >>> 2) <<< 5 ||| b.toNat >>> 3)

/-- The framebuffer as a file: its pixels, and the position in it, also in pixels. -/
structure Device where
  pixels : Nat → UInt16
  position : Nat

namespace Device

/-- `lseek(fd, offset, SEEK_SET)`, which fails for a negative offset. -/
def lseek (device : Device) (offset : Int) : Device :=
  if offset < 0 then device else { device with position := offset.toNat / 2 }

def write (device : Device) (pixel : UInt16) : Device :=
  ⟨Function.update device.pixels device.position pixel, device.position + 1⟩

end Device

def offset (vinfo : Vinfo) (x y : Int) : Int := int32 ((x + y * vinfo.xres) * 2)

/-- The `lseek`, whose result nobody looks at, and the `write`. -/
def put (vinfo : Vinfo) (pixel : UInt16) (device : Device) (x y : Int) : Device :=
  (device.lseek (offset vinfo x y)).write pixel

def drawpoint (vinfo : Vinfo) (x y : Int) (r g b : UInt8) (device : Device) : Device :=
  if x < 0 ∨ x ≥ vinfo.xres ∨ y < 0 ∨ y ≥ vinfo.yres then device
  else put vinfo (makepixel r g b) device x y

structure Rectangle where
  start_x : Nat
  start_y : Nat
  end_x : Int
  end_y : Int
  startXFits : start_x < 2 ^ 31
  startYFits : start_y < 2 ^ 31
  endXFits : -2 ^ 31 ≤ end_x ∧ end_x < 2 ^ 31
  endYFits : -2 ^ 31 ≤ end_y ∧ end_y < 2 ^ 31

namespace Rectangle

variable (rectangle : Rectangle) (vinfo : Vinfo)

def endX : Int := if rectangle.end_x = 0 then int32 vinfo.xres else rectangle.end_x

def endY : Int := if rectangle.end_y = 0 then int32 vinfo.yres else rectangle.end_y

def columns : Nat := (rectangle.endX vinfo - rectangle.start_x).toNat

def rows : Nat := (rectangle.endY vinfo - rectangle.start_y).toNat

end Rectangle

def drawface (vinfo : Vinfo) (rectangle : Rectangle) (r g b : UInt8) (device : Device) : Device :=
  (List.range (rectangle.columns vinfo)).foldl (fun device column =>
    (List.range (rectangle.rows vinfo)).foldl (fun device row =>
      put vinfo (makepixel r g b) device (rectangle.start_x + column : Nat)
        (rectangle.start_y + row : Nat)) device) device

/-- The pixels in the `vinfo.xres * vinfo.yres * color` bytes of the mapping. -/
def mapped (vinfo : Vinfo) : Nat := vinfo.xres * vinfo.yres * 2 % 2 ^ 32 / 2

/-- `*(pfb + x + y * vinfo.xres) = pixel_color`; no result outside of the mapping. -/
def store (vinfo : Vinfo) (pixel : UInt16) (pixels : Nat → UInt16) (x y : Nat) :
    Option (Nat → UInt16) :=
  if x + y * vinfo.xres % 2 ^ 32 < mapped vinfo then
    some (Function.update pixels (x + y * vinfo.xres % 2 ^ 32) pixel)
  else none

def drawfacemmap (vinfo : Vinfo) (rectangle : Rectangle) (r g b : UInt8)
    (pixels : Nat → UInt16) : Option (Nat → UInt16) :=
  Raster.sweep (rectangle.columns vinfo) (rectangle.rows vinfo) (fun column row pixels =>
    store vinfo (makepixel r g b) pixels (rectangle.start_x + column) (rectangle.start_y + row))
    pixels

/-! ## What should be filled -/

namespace Rectangle

variable (rectangle : Rectangle) (vinfo : Vinfo)

/-- The point is in the rectangle, where 0 stands for the full size. -/
def Inside (x y : Nat) : Prop :=
  rectangle.start_x ≤ x ∧ (rectangle.end_x = 0 ∨ x < rectangle.end_x) ∧
    rectangle.start_y ≤ y ∧ (rectangle.end_y = 0 ∨ y < rectangle.end_y)

def Visible (place : Nat) : Prop :=
  ∃ x < vinfo.xres, ∃ y < vinfo.yres, rectangle.Inside x y ∧ y * vinfo.xres + x = place

def cells : List (Nat × Nat) :=
  (Raster.cells (rectangle.columns vinfo) (rectangle.rows vinfo)).map fun cell =>
    (rectangle.start_x + cell.1, rectangle.start_y + cell.2)

end Rectangle

/-- The three ways give the visible part of the rectangle the colour and leave
everything else as it was, `drawpoint` in whatever order it is called. -/
structure FillsAlike (vinfo : Vinfo) (rectangle : Rectangle) (r g b : UInt8) : Prop where
  face : Raster.Paints Device.pixels (makepixel r g b) (rectangle.Visible vinfo)
    (drawface vinfo rectangle r g b)
  points : ∀ order : List (Nat × Nat), order.Perm (rectangle.cells vinfo) →
    Raster.Paints Device.pixels (makepixel r g b) (rectangle.Visible vinfo) fun device =>
      order.foldl (fun device cell => drawpoint vinfo cell.1 cell.2 r g b device) device
  mmap : ∃ fill, (∀ pixels, drawfacemmap vinfo rectangle r g b pixels = some (fill pixels)) ∧
    Raster.Paints id (makepixel r g b) (rectangle.Visible vinfo) fill

namespace Rectangle

variable (rectangle : Rectangle) (vinfo : Vinfo)

def lastIndex : Int :=
  (rectangle.endY vinfo - 1) * vinfo.xres + (rectangle.endX vinfo - 1)

/-- The rectangle is on the screen, no offset is negative, and all of it is mapped. -/
structure Fits : Prop where
  columns : rectangle.endX vinfo ≤ vinfo.xres
  rows : rectangle.endY vinfo ≤ vinfo.yres
  seeks : rectangle.lastIndex vinfo < 2 ^ 30
  mapped : rectangle.lastIndex vinfo < mapped vinfo

def NoRound : Prop :=
  rectangle.endX vinfo ≤ rectangle.start_x ∨ rectangle.endY vinfo ≤ rectangle.start_y

instance : Decidable (rectangle.NoRound vinfo) := inferInstanceAs (Decidable (_ ∨ _))

end Rectangle

variable {vinfo : Vinfo} {rectangle : Rectangle} {r g b : UInt8} {pixel : UInt16} {x y : Nat}

theorem int32_eq_of_pos {value : Nat} (fits : value < 2 ^ 32) (positive : 0 < int32 value) :
    int32 value = value := by
  rw [int32_eq_bmod, Int.bmod_def] at positive ⊢
  split_ifs at positive ⊢ <;> omega

/-! ## A rectangle that fits -/

namespace Rectangle

theorem mem_cells : (x, y) ∈ rectangle.cells vinfo ↔
    (rectangle.start_x ≤ x ∧ x < rectangle.endX vinfo) ∧
      rectangle.start_y ≤ y ∧ y < rectangle.endY vinfo := by
  rw [cells, List.mem_map]
  constructor
  · rintro ⟨⟨column, row⟩, member, same⟩
    rcases Raster.mem_cells.mp member with ⟨inColumns, inRows⟩
    rw [columns] at inColumns
    rw [rows] at inRows
    cases same
    omega
  · rintro ⟨inColumns, inRows⟩
    refine ⟨(x - rectangle.start_x, y - rectangle.start_y), Raster.mem_cells.mpr ?_, ?_⟩
    · rw [columns, rows]
      omega
    · exact Prod.ext (by dsimp only; omega) (by dsimp only; omega)

theorem inside_iff (round : ¬rectangle.NoRound vinfo) (column : x < vinfo.xres)
    (row : y < vinfo.yres) : rectangle.Inside x y ↔ (x, y) ∈ rectangle.cells vinfo := by
  rw [NoRound, not_or, Int.not_le, Int.not_le] at round
  have columns : rectangle.end_x = 0 ∨ x < rectangle.end_x ↔ x < rectangle.endX vinfo := by
    rw [endX] at round ⊢
    split_ifs at round ⊢ with full
    · rw [int32_eq_of_pos vinfo.xresFits (by omega)]
      omega
    · exact or_iff_right full
  have rows : rectangle.end_y = 0 ∨ y < rectangle.end_y ↔ y < rectangle.endY vinfo := by
    rw [endY] at round ⊢
    split_ifs at round ⊢ with full
    · rw [int32_eq_of_pos vinfo.yresFits (by omega)]
      omega
    · exact or_iff_right full
  rw [Inside, columns, rows, mem_cells, and_assoc]

theorem index_le (member : (x, y) ∈ rectangle.cells vinfo) :
    (y * vinfo.xres + x : Nat) ≤ rectangle.lastIndex vinfo := by
  have inside := mem_cells.mp member
  have rows : (y : Int) * vinfo.xres ≤ (rectangle.endY vinfo - 1) * vinfo.xres :=
    Int.mul_le_mul_of_nonneg_right (by omega) (by omega)
  rw [lastIndex, Int.natCast_add, Int.natCast_mul]
  omega

namespace Fits

variable (fits : rectangle.Fits vinfo)

include fits

theorem onScreen (member : (x, y) ∈ rectangle.cells vinfo) : x < vinfo.xres ∧ y < vinfo.yres := by
  have columns := fits.columns
  have rows := fits.rows
  have inside := mem_cells.mp member
  omega

theorem visible_iff (round : ¬rectangle.NoRound vinfo) (place : Nat) :
    (∃ cell ∈ rectangle.cells vinfo, cell.2 * vinfo.xres + cell.1 = place) ↔
      rectangle.Visible vinfo place := by
  constructor
  · rintro ⟨⟨x, y⟩, member, same⟩
    rcases fits.onScreen member with ⟨column, row⟩
    exact ⟨x, column, y, row, (inside_iff round column row).mpr member, same⟩
  · rintro ⟨x, column, y, row, inside, same⟩
    exact ⟨(x, y), (inside_iff round column row).mp inside, same⟩

end Fits

end Rectangle

theorem offset_eq_int32 (vinfo : Vinfo) (x y : Nat) :
    offset vinfo x y = int32 (2 * (y * vinfo.xres + x) : Nat) := by
  have value : ((x : Int) + y * vinfo.xres) * 2 = (2 * (y * vinfo.xres + x) : Nat) := by
    push_cast
    ring
  rw [offset, value]

theorem offset_eq (inside : y * vinfo.xres + x < 2 ^ 30) :
    offset vinfo x y = (2 * (y * vinfo.xres + x) : Nat) := by
  rw [offset_eq_int32, int32_eq_self] <;> omega

theorem put_eq (inside : y * vinfo.xres + x < 2 ^ 30) (device : Device) :
    put vinfo pixel device x y =
      ⟨Function.update device.pixels (y * vinfo.xres + x) pixel, y * vinfo.xres + x + 1⟩ := by
  have position : ((2 * (y * vinfo.xres + x) : Nat) : Int).toNat / 2 = y * vinfo.xres + x := by
    omega
  rw [put, offset_eq inside, Device.lseek, if_neg (by omega), Device.write, position]

theorem paints_update {σ : Type} {read : σ → Nat → UInt16} {index : Nat} {step : σ → σ}
    (updates : ∀ state, read (step state) = Function.update (read state) index pixel) :
    Raster.Paints read pixel (index = ·) step := by
  intro state place
  rw [updates]
  constructor
  · rintro rfl
    exact Function.update_self ..
  · exact fun other => Function.update_of_ne (Ne.symm other) ..

namespace Rectangle.Fits

variable (fits : rectangle.Fits vinfo)

include fits

theorem index_lt (member : (x, y) ∈ rectangle.cells vinfo) : y * vinfo.xres + x < 2 ^ 30 := by
  have bound := index_le member
  have seeks := fits.seeks
  omega

theorem paints_cells {σ : Type} {read : σ → Nat → UInt16} (round : ¬rectangle.NoRound vinfo)
    {order : List (Nat × Nat)} (same : order.Perm (rectangle.cells vinfo))
    {body : σ → Nat × Nat → σ} (updates : ∀ x y, (x, y) ∈ rectangle.cells vinfo → ∀ state,
      read (body state (x, y)) = Function.update (read state) (y * vinfo.xres + x) pixel) :
    Raster.Paints read pixel (rectangle.Visible vinfo) fun state => order.foldl body state := by
  have rounds : ∀ cell ∈ order, Raster.Paints read pixel (cell.2 * vinfo.xres + cell.1 = ·)
      fun state => body state cell := by
    rintro ⟨x, y⟩ member
    exact paints_update (updates x y (same.mem_iff.mp member))
  apply (Raster.Paints.foldl rounds).congr
  intro place
  rw [← fits.visible_iff round place]
  exact exists_congr fun cell => and_congr_left fun _ => same.mem_iff

end Rectangle.Fits

namespace Rectangle

def columnOrder (rectangle : Rectangle) (vinfo : Vinfo) : List (Nat × Nat) :=
  (Raster.cells (rectangle.rows vinfo) (rectangle.columns vinfo)).map fun cell =>
    (rectangle.start_x + cell.2, rectangle.start_y + cell.1)

theorem perm_columnOrder : (rectangle.columnOrder vinfo).Perm (rectangle.cells vinfo) := by
  apply (List.perm_ext_iff_of_nodup _ _).mpr
  · rintro ⟨x, y⟩
    rw [columnOrder, cells, List.mem_map, List.mem_map]
    constructor
    · rintro ⟨⟨row, column⟩, member, same⟩
      exact ⟨(column, row), Raster.mem_cells.mpr (Raster.mem_cells.mp member).symm, same⟩
    · rintro ⟨⟨column, row⟩, member, same⟩
      exact ⟨(row, column), Raster.mem_cells.mpr (Raster.mem_cells.mp member).symm, same⟩
  · apply (Raster.nodup_cells ..).map
    rintro ⟨row, column⟩ ⟨otherRow, otherColumn⟩ same
    simp only [Prod.mk.injEq, Nat.add_left_cancel_iff] at same ⊢
    exact same.symm
  · apply (Raster.nodup_cells ..).map
    rintro ⟨column, row⟩ ⟨otherColumn, otherRow⟩ same
    simp only [Prod.mk.injEq, Nat.add_left_cancel_iff] at same ⊢
    exact same

end Rectangle

theorem drawface_eq (device : Device) : drawface vinfo rectangle r g b device =
    (rectangle.columnOrder vinfo).foldl (fun device cell =>
      put vinfo (makepixel r g b) device cell.1 cell.2) device := by
  rw [Rectangle.columnOrder, List.foldl_map]
  exact Raster.foldl_foldl_eq_cells (rectangle.rows vinfo) (rectangle.columns vinfo)
    (fun device row column => put vinfo (makepixel r g b) device (rectangle.start_x + column : Nat)
      (rectangle.start_y + row : Nat)) device

theorem drawfacemmap_eq (pixels : Nat → UInt16) : drawfacemmap vinfo rectangle r g b pixels =
    (rectangle.cells vinfo).foldlM (fun pixels cell =>
      store vinfo (makepixel r g b) pixels cell.1 cell.2) pixels := by
  rw [drawfacemmap, Raster.sweep_eq_foldlM_cells, Rectangle.cells, List.foldlM_map]

theorem drawpoint_of_onScreen (column : x < vinfo.xres) (row : y < vinfo.yres) (device : Device) :
    drawpoint vinfo x y r g b device = put vinfo (makepixel r g b) device x y := by
  rw [drawpoint, if_neg]
  omega

theorem Rectangle.Fits.store_eq (fits : rectangle.Fits vinfo)
    (member : (x, y) ∈ rectangle.cells vinfo) (pixels : Nat → UInt16) :
    store vinfo pixel pixels x y = some (Function.update pixels (y * vinfo.xres + x) pixel) := by
  have bound := Rectangle.index_le member
  have seeks := fits.index_lt member
  have inMap := fits.mapped
  have index : x + y * vinfo.xres % 2 ^ 32 = y * vinfo.xres + x := by
    rw [Nat.mod_eq_of_lt (by omega), Nat.add_comm]
  rw [store, index, if_pos (by omega)]

theorem Rectangle.Fits.drawface_paints (fits : rectangle.Fits vinfo)
    (round : ¬rectangle.NoRound vinfo) :
    Raster.Paints Device.pixels (makepixel r g b) (rectangle.Visible vinfo)
      (drawface vinfo rectangle r g b) := by
  have paints : Raster.Paints Device.pixels (makepixel r g b) (rectangle.Visible vinfo)
      fun device => (rectangle.columnOrder vinfo).foldl (fun device cell =>
        put vinfo (makepixel r g b) device cell.1 cell.2) device := by
    apply fits.paints_cells round Rectangle.perm_columnOrder
    intro x y member device
    rw [put_eq (fits.index_lt member)]
  rw [show drawface vinfo rectangle r g b = _ from funext drawface_eq]
  exact paints

theorem Rectangle.Fits.drawfacemmap_eq (fits : rectangle.Fits vinfo) (pixels : Nat → UInt16) :
    drawfacemmap vinfo rectangle r g b pixels =
      some ((rectangle.cells vinfo).foldl (fun pixels cell =>
        Function.update pixels (cell.2 * vinfo.xres + cell.1) (makepixel r g b)) pixels) := by
  have rounds : ∀ cell ∈ rectangle.cells vinfo, ∀ pixels,
      store vinfo (makepixel r g b) pixels cell.1 cell.2 =
        some (Function.update pixels (cell.2 * vinfo.xres + cell.1) (makepixel r g b)) :=
    fun cell member pixels => fits.store_eq member pixels
  rw [Fbdraw.drawfacemmap_eq, Raster.foldlM_congr rounds]
  exact List.foldlM_pure

theorem Rectangle.Fits.fillsAlike (fits : rectangle.Fits vinfo)
    (round : ¬rectangle.NoRound vinfo) : FillsAlike vinfo rectangle r g b := by
  refine ⟨fits.drawface_paints round, fun order same => ?_, _, fits.drawfacemmap_eq, ?_⟩
  · apply fits.paints_cells round same
    intro x y member device
    rcases fits.onScreen member with ⟨column, row⟩
    rw [drawpoint_of_onScreen column row, put_eq (fits.index_lt member)]
  · exact fits.paints_cells round (List.Perm.refl _) fun x y _ pixels => rfl

/-! ## A rectangle that does not fit -/

theorem cells_eq_nil (done : rectangle.NoRound vinfo) : rectangle.cells vinfo = [] := by
  apply List.eq_nil_iff_forall_not_mem.mpr
  rintro ⟨x, y⟩ member
  have inside := Rectangle.mem_cells.mp member
  rcases done with done | done <;> omega

theorem fillsAlike_of_noRound (done : rectangle.NoRound vinfo)
    (nothing : ∀ place, ¬rectangle.Visible vinfo place) : FillsAlike vinfo rectangle r g b := by
  have noColumn : rectangle.columnOrder vinfo = [] :=
    List.Perm.eq_nil (cells_eq_nil done ▸ Rectangle.perm_columnOrder)
  refine ⟨?_, fun order same => ?_, id, fun pixels => ?_, ?_⟩
  · intro device place
    rw [drawface_eq, noColumn]
    exact ⟨fun visible => absurd visible (nothing place), fun _ => rfl⟩
  · rw [cells_eq_nil done] at same
    obtain rfl := same.eq_nil
    exact fun device place => ⟨fun visible => absurd visible (nothing place), fun _ => rfl⟩
  · rw [drawfacemmap_eq, cells_eq_nil done]
    rfl
  · exact fun pixels place => ⟨fun visible => absurd visible (nothing place), fun _ => rfl⟩

theorem mapped_of_foldlM {cells : List (Nat × Nat)} {pixels final : Nat → UInt16}
    (ran : cells.foldlM (fun pixels cell => store vinfo pixel pixels cell.1 cell.2) pixels =
      some final) : ∀ cell ∈ cells, cell.1 + cell.2 * vinfo.xres % 2 ^ 32 < mapped vinfo := by
  induction cells generalizing pixels with
  | nil => exact fun cell member => (List.not_mem_nil member).elim
  | cons first cells induction =>
      rw [List.foldlM_cons] at ran
      rcases Option.bind_eq_some_iff.mp ran with ⟨following, stored, rest⟩
      intro cell member
      rcases List.mem_cons.mp member with rfl | member
      · exact (Option.ite_none_right_eq_some.mp stored).1
      · exact induction rest cell member

/-- What a complete run of `drawfacemmap` has stored to was mapped and has the colour. -/
theorem stored_of_drawfacemmap {pixels final : Nat → UInt16}
    (ran : drawfacemmap vinfo rectangle r g b pixels = some final)
    (member : (x, y) ∈ rectangle.cells vinfo) :
    x + y * vinfo.xres % 2 ^ 32 < mapped vinfo ∧
      final (x + y * vinfo.xres % 2 ^ 32) = makepixel r g b := by
  rw [drawfacemmap_eq] at ran
  have isMapped := mapped_of_foldlM ran
  have writes : ∀ cell ∈ rectangle.cells vinfo, ∀ pixels,
      store vinfo (makepixel r g b) pixels cell.1 cell.2 =
        some (if True then Function.update pixels (cell.1 + cell.2 * vinfo.xres % 2 ^ 32)
          (makepixel r g b) else pixels) := by
    intro cell member pixels
    rw [if_pos trivial]
    exact if_pos (isMapped cell member)
  rcases Raster.foldlM_writes writes (fun _ _ _ _ _ _ _ => rfl) pixels with
    ⟨other, otherRan, written, _⟩
  obtain rfl := Option.some.inj (otherRan.symm.trans ran)
  exact ⟨isMapped (x, y) member, written (x, y) member trivial⟩

theorem exists_other (pixel : UInt16) : ∃ other, other ≠ pixel := by
  by_cases black : pixel = 0
  · exact ⟨1, by rw [black]; decide⟩
  · exact ⟨0, Ne.symm black⟩

theorem mapped_lt (vinfo : Vinfo) : mapped vinfo < 2 ^ 31 := by
  have bytes : vinfo.xres * vinfo.yres * 2 % 2 ^ 32 < 2 ^ 32 := Nat.mod_lt _ (by decide)
  rw [mapped]
  omega

structure MapFilled (vinfo : Vinfo) (rectangle : Rectangle) : Prop where
  isMapped : ∀ x y, (x, y) ∈ rectangle.cells vinfo →
    x + y * vinfo.xres % 2 ^ 32 < mapped vinfo
  visible : ∀ x y, (x, y) ∈ rectangle.cells vinfo →
    rectangle.Visible vinfo (x + y * vinfo.xres % 2 ^ 32)

theorem FillsAlike.mapFilled (fills : FillsAlike vinfo rectangle r g b) :
    MapFilled vinfo rectangle := by
  rcases fills.mmap with ⟨fill, ran, paints⟩
  rcases exists_other (makepixel r g b) with ⟨other, different⟩
  have stored := fun x y (member : (x, y) ∈ rectangle.cells vinfo) =>
    stored_of_drawfacemmap (ran fun _ => other) member
  refine ⟨fun x y member => (stored x y member).1, fun x y member => ?_⟩
  by_contra outside
  have kept := (paints (fun _ => other) _).2 outside
  exact different (kept.symm.trans (stored x y member).2)

namespace MapFilled

variable (filled : MapFilled vinfo rectangle)

include filled

theorem row_lt (column : rectangle.start_x < rectangle.endX vinfo) {below : Nat}
    (row : (rectangle.start_y + below : Nat) < rectangle.endY vinfo) :
    (rectangle.start_y + below) * vinfo.xres < 2 ^ 31 := by
  have small := mapped_lt vinfo
  have resolution := vinfo.xresFits
  induction below with
  | zero =>
      have member : (rectangle.start_x, rectangle.start_y) ∈ rectangle.cells vinfo :=
        Rectangle.mem_cells.mpr ⟨⟨Nat.le_refl _, column⟩, Nat.le_refl _, row⟩
      have isMapped := filled.isMapped _ _ member
      rcases filled.visible _ _ member with ⟨x, _, y, _, inside, place⟩
      have rows : rectangle.start_y * vinfo.xres ≤ y * vinfo.xres :=
        Nat.mul_le_mul_right _ inside.2.2.1
      show rectangle.start_y * vinfo.xres < 2 ^ 31
      omega
  | succ below induction =>
      have before := induction (by omega)
      have member : (rectangle.start_x, rectangle.start_y + (below + 1)) ∈ rectangle.cells vinfo :=
        Rectangle.mem_cells.mpr ⟨⟨Nat.le_refl _, column⟩, Nat.le_add_right _ _, row⟩
      have isMapped := filled.isMapped _ _ member
      have next : (rectangle.start_y + (below + 1)) * vinfo.xres =
          (rectangle.start_y + below) * vinfo.xres + vinfo.xres := by ring
      have bound : vinfo.xres ≤ (rectangle.start_y + below) * vinfo.xres ∨
          (rectangle.start_y + below) * vinfo.xres = 0 := by
        rcases Nat.eq_zero_or_pos (rectangle.start_y + below) with first | later
        · rw [first, Nat.zero_mul]
          exact Or.inr rfl
        · exact Or.inl (Nat.le_mul_of_pos_left _ later)
      omega

theorem last {lastX lastY : Nat} (column : rectangle.start_x ≤ lastX)
    (row : rectangle.start_y ≤ lastY) (endX : rectangle.endX vinfo = lastX + 1)
    (endY : rectangle.endY vinfo = lastY + 1) :
    lastX < vinfo.xres ∧ lastY < vinfo.yres ∧ lastY * vinfo.xres + lastX < mapped vinfo := by
  have member : (lastX, lastY) ∈ rectangle.cells vinfo :=
    Rectangle.mem_cells.mpr ⟨⟨column, by omega⟩, row, by omega⟩
  have noWrap : lastY * vinfo.xres < 2 ^ 31 := by
    obtain ⟨below, rfl⟩ := Nat.exists_eq_add_of_le row
    exact filled.row_lt (by omega) (by omega)
  have isMapped := filled.isMapped _ _ member
  have visible := filled.visible _ _ member
  rw [Nat.mod_eq_of_lt (by omega)] at isMapped visible
  rcases visible with ⟨x, inRow, y, inColumn, inside, place⟩
  have round : ¬rectangle.NoRound vinfo := by
    rw [Rectangle.NoRound]
    omega
  have inLoops := Rectangle.mem_cells.mp ((Rectangle.inside_iff round inRow inColumn).mp inside)
  have rows : y * vinfo.xres ≤ lastY * vinfo.xres := Nat.mul_le_mul_right _ (by omega)
  have sameRow : y = lastY :=
    Nat.eq_of_mul_eq_mul_right (Nat.zero_lt_of_lt inRow) (by omega : y * vinfo.xres = lastY * _)
  omega

end MapFilled

theorem lseek_pixels (device : Device) (offset : Int) :
    (device.lseek offset).pixels = device.pixels := by
  rw [Device.lseek]
  split_ifs <;> rfl

theorem write_pixels (device : Device) (pixel : UInt16) (place : Nat) :
    (device.write pixel).pixels place =
      if place = device.position then pixel else device.pixels place :=
  Function.update_apply ..

theorem foldl_put_of_painted (order : List (Nat × Nat)) {device : Device} {place : Nat}
    (painted : device.pixels place = makepixel r g b) :
    (order.foldl (fun device cell => drawpoint vinfo cell.1 cell.2 r g b device) device).pixels
      place = makepixel r g b := by
  induction order generalizing device with
  | nil => exact painted
  | cons cell order induction =>
      have kept : (drawpoint vinfo cell.1 cell.2 r g b device).pixels place = makepixel r g b := by
        rw [drawpoint]
        split_ifs
        · exact painted
        · rw [put, write_pixels, lseek_pixels]
          split_ifs
          · rfl
          · exact painted
      exact induction kept

theorem offset_negative (small : y * vinfo.xres + x < 2 ^ 31)
    (large : 2 ^ 30 ≤ y * vinfo.xres + x) : offset vinfo x y < 0 := by
  rw [offset_eq_int32, int32_eq_bmod, Int.bmod_def]
  split_ifs <;> omega

/-- A point with a negative offset is drawn wherever the file position is, and that
may be behind the last pixel. -/
theorem FillsAlike.index_lt (fills : FillsAlike vinfo rectangle r g b)
    (member : (x, y) ∈ rectangle.cells vinfo) (column : x < vinfo.xres) (row : y < vinfo.yres)
    (small : y * vinfo.xres + x < 2 ^ 31) : y * vinfo.xres + x < 2 ^ 30 := by
  by_contra large
  have negative := offset_negative small (Nat.le_of_not_lt large)
  rcases exists_other (makepixel r g b) with ⟨other, different⟩
  have notVisible : ¬rectangle.Visible vinfo (vinfo.yres * vinfo.xres) := by
    rintro ⟨otherX, inRow, otherY, inColumn, _, place⟩
    have inside := Raster.cellIndex_lt inRow inColumn
    omega
  have paints := fills.points _ (List.perm_cons_erase member).symm
    ⟨fun _ => other, vinfo.yres * vinfo.xres⟩
  have kept := (paints (vinfo.yres * vinfo.xres)).2 notVisible
  have first : (drawpoint vinfo x y r g b ⟨fun _ => other, vinfo.yres * vinfo.xres⟩).pixels
      (vinfo.yres * vinfo.xres) = makepixel r g b := by
    rw [drawpoint_of_onScreen column row, put, Device.lseek, if_pos negative, write_pixels]
    exact if_pos rfl
  apply different
  apply kept.symm.trans
  exact foldl_put_of_painted ((rectangle.cells vinfo).erase (x, y)) first

theorem FillsAlike.fits (fills : FillsAlike vinfo rectangle r g b)
    (round : ¬rectangle.NoRound vinfo) : rectangle.Fits vinfo := by
  rw [Rectangle.NoRound, not_or, Int.not_le, Int.not_le] at round
  obtain ⟨lastX, endX⟩ : ∃ lastX : Nat, rectangle.endX vinfo = lastX + 1 :=
    ⟨(rectangle.endX vinfo - 1).toNat, by omega⟩
  obtain ⟨lastY, endY⟩ : ∃ lastY : Nat, rectangle.endY vinfo = lastY + 1 :=
    ⟨(rectangle.endY vinfo - 1).toNat, by omega⟩
  rcases fills.mapFilled.last (by omega) (by omega) endX endY with ⟨column, row, isMapped⟩
  have small := mapped_lt vinfo
  have member : (lastX, lastY) ∈ rectangle.cells vinfo :=
    Rectangle.mem_cells.mpr ⟨⟨by omega, by omega⟩, by omega, by omega⟩
  have seeks := fills.index_lt member column row (by omega)
  have index : rectangle.lastIndex vinfo = (lastY * vinfo.xres + lastX : Nat) := by
    rw [Rectangle.lastIndex, endX, endY]
    push_cast
    ring
  constructor
  · omega
  · omega
  · omega
  · omega

theorem FillsAlike.nothing (fills : FillsAlike vinfo rectangle r g b)
    (done : rectangle.NoRound vinfo) (place : Nat) : ¬rectangle.Visible vinfo place := by
  intro visible
  rcases exists_other (makepixel r g b) with ⟨other, different⟩
  have painted := (fills.points [] (cells_eq_nil done ▸ List.Perm.refl _) ⟨fun _ => other, 0⟩
    place).1 visible
  exact different painted

/-- The three ways agree exactly if the rectangle is on the screen and no offset, row
or mapping is too large for its type, or if there is nothing to fill. -/
theorem fillsAlike_iff (vinfo : Vinfo) (rectangle : Rectangle) (r g b : UInt8) :
    FillsAlike vinfo rectangle r g b ↔
      (rectangle.NoRound vinfo ∧ ∀ place, ¬rectangle.Visible vinfo place) ∨
        (¬rectangle.NoRound vinfo ∧ rectangle.Fits vinfo) := by
  constructor
  · intro fills
    by_cases done : rectangle.NoRound vinfo
    · exact Or.inl ⟨done, fills.nothing done⟩
    · exact Or.inr ⟨done, fills.fits done⟩
  · rintro (⟨done, nothing⟩ | ⟨round, fits⟩)
    · exact fillsAlike_of_noRound done nothing
    · exact fits.fillsAlike round

/-- A rectangle that ends at column 1024, on a screen that is narrower. -/
theorem not_fillsAlike_narrow :
    ¬∀ (vinfo : Vinfo) (rectangle : Rectangle) (r g b : UInt8),
      FillsAlike vinfo rectangle r g b := by
  intro always
  have fills := always ⟨800, 600, by decide, by decide⟩
    ⟨700, 0, 1024, 500, by decide, by decide, by decide, by decide⟩ 255 0 0
  exact absurd (fills.fits (by decide)).columns (by decide)

end RaspberryPi.Fbdraw
