import Mathlib.Data.List.GetD
import RaspberryPi.Foundation.Raster
import RaspberryPi.Streaming.Color

/-! # Showing a frame

`display_frame`, the same in the server and in `v4l2_capture.c`. A number that
an `int` has no room for leaves the rest undefined; what is computed with the
unsigned resolution is reduced modulo `2 ^ 32`. How a pixel is computed is a
parameter `color`, since its place does not depend on it. -/

namespace RaspberryPi.Streaming

structure Screen where
  xres : Nat
  yres : Nat
  xresFits : xres < 2 ^ 32
  yresFits : yres < 2 ^ 32

structure Store where
  index : Nat
  pixel : UInt16
deriving DecidableEq

/-- `(resolution - size) / 2`, where the difference is unsigned. -/
def centreOffset (resolution size : Nat) : Nat := (resolution + 2 ^ 32 - size) % 2 ^ 32 / 2

def addInt (first second : Nat) : Option Nat :=
  if first + second < 2 ^ 31 then some (first + second) else none

def readData (data : Bytes) (index : Nat) : Option UInt8 :=
  if index < 2 ^ 31 then data[index]? else none

def pixelIndex (screen : Screen) (width height x y : Nat) : Option Nat := do
  let row ← addInt y (centreOffset screen.yres height)
  let column ← addInt x (centreOffset screen.xres width)
  some ((row * screen.xres + column) % 2 ^ 32)

def showPair (color : YuvPixel → UInt16) (screen : Screen) (data : Bytes)
    (width height x y : Nat) : Option (List Store) := do
  let luma1 ← readData data ((y * width + x) * 2)
  let u ← readData data ((y * width + x) * 2 + 1)
  let luma2 ← readData data ((y * width + (x + 1)) * 2)
  let v ← readData data ((y * width + (x + 1)) * 2 + 1)
  let index1 ← pixelIndex screen width height x y
  let index2 ← pixelIndex screen width height (x + 1) y
  some [⟨index1, color ⟨luma1, u, v⟩⟩, ⟨index2, color ⟨luma2, u, v⟩⟩]

/-- The assignments of `display_frame`, in order. -/
def displayFrameWith (color : YuvPixel → UInt16) (screen : Screen) (data : Bytes)
    (width height : Nat) : Option (List Store) :=
  Raster.sweep ((width + 1) / 2) height (fun pair y log =>
    (showPair color screen data width height (pair * 2) y).map (log ++ ·)) []

/-- With exact coefficients. -/
abbrev displayFrame (screen : Screen) (data : Bytes) (width height : Nat) : Option (List Store) :=
  displayFrameWith YuvPixel.pixel screen data width height

structure EvenSize (width height : Nat) : Prop where
  widthPos : 0 < width
  widthEven : width % 2 = 0
  widthFits : width < 2 ^ 31
  heightPos : 0 < height
  heightFits : height < 2 ^ 31

/-! ## What should be shown -/

def framePixel (data : Bytes) (width x y : Nat) : YuvPixel where
  luma := data.getD ((y * width + x) * 2) 0
  u := data.getD ((y * width + x / 2 * 2) * 2 + 1) 0
  v := data.getD ((y * width + (x / 2 * 2 + 1)) * 2 + 1) 0

def centredIndex (screen : Screen) (width height x y : Nat) : Nat :=
  (y + (screen.yres - height) / 2) * screen.xres + (x + (screen.xres - width) / 2)

def centredStore (color : YuvPixel → UInt16) (screen : Screen) (data : Bytes)
    (width height x y : Nat) : Store where
  index := centredIndex screen width height x y
  pixel := color (framePixel data width x y)

def centredFrameWith (color : YuvPixel → UInt16) (screen : Screen) (data : Bytes)
    (width height : Nat) : List Store :=
  (Raster.cells width height).map fun cell =>
    centredStore color screen data width height cell.1 cell.2

abbrev centredFrame (screen : Screen) (data : Bytes) (width height : Nat) : List Store :=
  centredFrameWith YuvPixel.pixel screen data width height

/-- Nothing is written behind the last pixel of the screen, and a frame that the
screen has room for is shown in its middle. -/
def ShowsFrame (screen : Screen) (data : Bytes) (width height : Nat) : Prop :=
  ∃ stores, displayFrame screen data width height = some stores ∧
    (∀ store ∈ stores, store.index < screen.xres * screen.yres) ∧
    (width ≤ screen.xres → height ≤ screen.yres →
      stores = centredFrame screen data width height ∧ (stores.map Store.index).Nodup)

/-- The screen has room for the frame, and no number on the way to the last pixel
overflows. -/
structure HasRoom (screen : Screen) (width height : Nat) : Prop where
  columns : width ≤ screen.xres
  rows : height ≤ screen.yres
  dataFits : height * width ≤ 2 ^ 30
  columnFits : width - 1 + (screen.xres - width) / 2 < 2 ^ 31
  rowFits : height - 1 + (screen.yres - height) / 2 < 2 ^ 31
  indexFits : centredIndex screen width height (width - 1) (height - 1) < 2 ^ 32

variable {color : YuvPixel → UInt16} {screen : Screen} {data : Bytes} {width height x y : Nat}

/-! ## A frame that fits -/

theorem centreOffset_of_le {resolution size : Nat} (fits : resolution < 2 ^ 32)
    (room : size ≤ resolution) : centreOffset resolution size = (resolution - size) / 2 := by
  rw [centreOffset]
  omega

/-- An offset from a difference below zero is about half of what an `int` holds. -/
theorem centreOffset_of_lt {resolution size : Nat} (fits : size < 2 ^ 31)
    (short : resolution < size) :
    centreOffset resolution size = (2 ^ 32 - (size - resolution)) / 2 := by
  rw [centreOffset]
  omega

theorem readData_eq_some {index : Nat} (fits : index < 2 ^ 31) (inside : index < data.length) :
    readData data index = some (data.getD index 0) := by
  rw [readData, if_pos fits, List.getElem?_eq_getElem inside, List.getD_eq_getElem _ _ inside]

theorem addInt_eq_some {first second : Nat} (fits : first + second < 2 ^ 31) :
    addInt first second = some (first + second) := if_pos fits

theorem HasRoom.pixelIndex_eq (room : HasRoom screen width height) (column : x < width)
    (row : y < height) : pixelIndex screen width height x y =
      some (centredIndex screen width height x y) := by
  have columnFits := room.columnFits
  have rowFits := room.rowFits
  have indexFits := room.indexFits
  rw [centredIndex] at indexFits
  have rows : (y + (screen.yres - height) / 2) * screen.xres ≤
      (height - 1 + (screen.yres - height) / 2) * screen.xres :=
    Nat.mul_le_mul_right _ (by omega)
  rw [pixelIndex, centreOffset_of_le screen.yresFits room.rows,
    centreOffset_of_le screen.xresFits room.columns, addInt_eq_some (by omega),
    addInt_eq_some (by omega)]
  show some (_ % 2 ^ 32) = some _
  rw [Nat.mod_eq_of_lt (by omega)]
  rfl

theorem framePixel_pair (data : Bytes) (width pair y : Nat) :
    framePixel data width (pair * 2) y =
        ⟨data.getD ((y * width + pair * 2) * 2) 0, data.getD ((y * width + pair * 2) * 2 + 1) 0,
          data.getD ((y * width + (pair * 2 + 1)) * 2 + 1) 0⟩ ∧
      framePixel data width (pair * 2 + 1) y =
        ⟨data.getD ((y * width + (pair * 2 + 1)) * 2) 0,
          data.getD ((y * width + pair * 2) * 2 + 1) 0,
          data.getD ((y * width + (pair * 2 + 1)) * 2 + 1) 0⟩ := by
  have even : pair * 2 / 2 * 2 = pair * 2 := by omega
  have odd : (pair * 2 + 1) / 2 * 2 = pair * 2 := by omega
  rw [framePixel, framePixel, even, odd]
  exact ⟨rfl, rfl⟩

theorem HasRoom.showPair_eq (room : HasRoom screen width height)
    (complete : 2 * (height * width) ≤ data.length) {pair : Nat} (column : pair * 2 + 1 < width)
    (row : y < height) : showPair color screen data width height (pair * 2) y =
      some [centredStore color screen data width height (pair * 2) y,
        centredStore color screen data width height (pair * 2 + 1) y] := by
  have dataFits := room.dataFits
  have inFrame := Raster.cellIndex_lt column row
  rw [showPair, readData_eq_some (by omega) (by omega), readData_eq_some (by omega) (by omega),
    readData_eq_some (by omega) (by omega), readData_eq_some (by omega) (by omega),
    room.pixelIndex_eq (by omega) row, room.pixelIndex_eq column row]
  rcases framePixel_pair data width pair y with ⟨first, second⟩
  simp only [Option.bind_eq_bind, Option.bind_some, centredStore, first, second]

theorem HasRoom.displayFrame_eq (room : HasRoom screen width height)
    (size : EvenSize width height) (complete : 2 * (height * width) ≤ data.length) :
    displayFrameWith color screen data width height =
      some (centredFrameWith color screen data width height) := by
  have even := size.widthEven
  have pairs : (width + 1) / 2 = width / 2 := by omega
  have columns : 2 * (width / 2) = width := by omega
  have round : ∀ pair < width / 2, ∀ y < height,
      showPair color screen data width height (pair * 2) y =
        some [centredStore color screen data width height (pair * 2) y,
          centredStore color screen data width height (pair * 2 + 1) y] := by
    intro pair column y row
    exact room.showPair_eq complete (by omega) row
  rw [displayFrameWith, pairs, Raster.sweep_append round,
    Raster.map_cells_pairs (width / 2) height (centredStore color screen data width height),
    columns, centredFrameWith]

theorem mem_centredFrame {store : Store} :
    store ∈ centredFrameWith color screen data width height ↔
      ∃ x < width, ∃ y < height, centredStore color screen data width height x y = store := by
  rw [centredFrameWith, List.mem_map]
  constructor
  · rintro ⟨⟨x, y⟩, member, same⟩
    rcases Raster.mem_cells.mp member with ⟨column, row⟩
    exact ⟨x, column, y, row, same⟩
  · rintro ⟨x, column, y, row, same⟩
    exact ⟨(x, y), Raster.mem_cells.mpr ⟨column, row⟩, same⟩

theorem centredIndex_lt (columns : width ≤ screen.xres) (rows : height ≤ screen.yres)
    (column : x < width) (row : y < height) :
    centredIndex screen width height x y < screen.xres * screen.yres := by
  rw [centredIndex, Nat.mul_comm screen.xres]
  exact Raster.cellIndex_lt (by omega) (by omega)

theorem nodup_centredFrame (columns : width ≤ screen.xres) :
    ((centredFrameWith color screen data width height).map Store.index).Nodup := by
  rw [centredFrameWith, List.map_map]
  apply List.Nodup.map_on ?_ (Raster.nodup_cells width height)
  rintro ⟨x, y⟩ member ⟨otherX, otherY⟩ otherMember same
  rcases Raster.mem_cells.mp member with ⟨column, _⟩
  rcases Raster.mem_cells.mp otherMember with ⟨otherColumn, _⟩
  rcases Raster.cell_eq_of_index_eq (by omega) (by omega) same with ⟨sameColumn, sameRow⟩
  exact Prod.ext (Nat.add_right_cancel sameColumn) (Nat.add_right_cancel sameRow)

theorem HasRoom.showsFrame (room : HasRoom screen width height) (size : EvenSize width height)
    (complete : 2 * (height * width) ≤ data.length) : ShowsFrame screen data width height := by
  refine ⟨_, room.displayFrame_eq size complete, ?_, ?_⟩
  · intro store member
    rcases mem_centredFrame.mp member with ⟨x, column, y, row, rfl⟩
    exact centredIndex_lt room.columns room.rows column row
  · exact fun columns _ => ⟨rfl, nodup_centredFrame columns⟩

/-! ## What a complete run has computed -/

theorem lt_of_addInt {first second sum : Nat} (defined : addInt first second = some sum) :
    first + second < 2 ^ 31 ∧ sum = first + second := by
  rw [addInt] at defined
  split_ifs at defined with fits
  exact ⟨fits, (Option.some.inj defined).symm⟩

theorem lt_of_readData {index : Nat} {byte : UInt8} (defined : readData data index = some byte) :
    index < 2 ^ 31 ∧ index < data.length := by
  rw [readData] at defined
  split_ifs at defined with fits
  exact ⟨fits, (List.getElem?_eq_some_iff.mp defined).1⟩

theorem pixelIndex_eq_some {index : Nat}
    (defined : pixelIndex screen width height x y = some index) :
    y + centreOffset screen.yres height < 2 ^ 31 ∧ x + centreOffset screen.xres width < 2 ^ 31 ∧
      index < 2 ^ 32 := by
  rw [pixelIndex] at defined
  rcases Option.bind_eq_some_iff.mp defined with ⟨row, rowDefined, defined⟩
  rcases Option.bind_eq_some_iff.mp defined with ⟨column, columnDefined, same⟩
  rw [← Option.some.inj same]
  exact ⟨(lt_of_addInt rowDefined).1, (lt_of_addInt columnDefined).1,
    Nat.mod_lt _ (by decide)⟩

/-- What a round that is defined has read and where it has written. -/
structure RoundDefined (screen : Screen) (data : Bytes) (width height x y : Nat)
    (stores : List Store) : Prop where
  read : (y * width + (x + 1)) * 2 + 1 < 2 ^ 31
  inData : (y * width + (x + 1)) * 2 + 1 < data.length
  row : y + centreOffset screen.yres height < 2 ^ 31
  column : x + 1 + centreOffset screen.xres width < 2 ^ 31
  nonempty : stores ≠ []
  indexes : ∀ store ∈ stores, store.index < 2 ^ 32

theorem showPair_eq_some {stores : List Store}
    (defined : showPair color screen data width height x y = some stores) :
    RoundDefined screen data width height x y stores := by
  simp only [showPair, Option.bind_eq_bind, Option.bind_eq_some_iff] at defined
  rcases defined with ⟨_, _, _, _, _, _, _, read, index1, first, index2, second, same⟩
  rcases lt_of_readData read with ⟨fits, inside⟩
  rcases pixelIndex_eq_some first with ⟨_, _, firstFits⟩
  rcases pixelIndex_eq_some second with ⟨row, column, secondFits⟩
  obtain rfl := Option.some.inj same
  refine ⟨fits, inside, row, column, List.cons_ne_nil _ _, fun store member => ?_⟩
  rcases List.mem_cons.mp member with rfl | member
  · exact firstFits
  · rw [List.mem_singleton.mp member]
    exact secondFits

theorem displayFrame_eq_some {stores : List Store} (even : width % 2 = 0)
    (ran : displayFrameWith color screen data width height = some stores) :
    (∀ x < width, ∀ y < height, x % 2 = 0 →
      ∃ written ⊆ stores, RoundDefined screen data width height x y written) ∧
    ∀ store ∈ stores, store.index < 2 ^ 32 := by
  rcases Raster.sweep_append_eq_some ran with ⟨values, defined, rfl⟩
  constructor
  · intro x column y row isEven
    have round : x / 2 < (width + 1) / 2 := by omega
    have same : x / 2 * 2 = x := by omega
    have written := defined (x / 2) round y row
    rw [same] at written
    refine ⟨values (x / 2) y, fun store member => ?_, showPair_eq_some written⟩
    exact List.mem_flatMap.mpr ⟨(x / 2, y), Raster.mem_cells.mpr ⟨round, row⟩, member⟩
  · intro store member
    rcases List.mem_flatMap.mp member with ⟨⟨pair, y⟩, isCell, member⟩
    rcases Raster.mem_cells.mp isCell with ⟨round, row⟩
    exact (showPair_eq_some (defined pair round y row)).indexes store member

theorem columns_of_column (size : EvenSize width height)
    (column : width - 2 + 1 + centreOffset screen.xres width < 2 ^ 31) :
    width ≤ screen.xres ∧ width - 1 + (screen.xres - width) / 2 < 2 ^ 31 := by
  have positive := size.widthPos
  have even := size.widthEven
  have resolution := screen.xresFits
  have fits := size.widthFits
  by_cases room : width ≤ screen.xres
  · rw [centreOffset_of_le resolution room] at column
    exact ⟨room, by omega⟩
  · rw [centreOffset_of_lt fits (Nat.lt_of_not_le room)] at column
    omega

/-- A frame that is higher than the screen makes the last row overflow, unless there
is one row only and the screen has none. -/
theorem rows_of_row (size : EvenSize width height) (screenPos : 0 < screen.yres)
    (row : height - 1 + centreOffset screen.yres height < 2 ^ 31) :
    height ≤ screen.yres ∧ height - 1 + (screen.yres - height) / 2 < 2 ^ 31 := by
  have positive := size.heightPos
  have resolution := screen.yresFits
  have fits := size.heightFits
  by_cases room : height ≤ screen.yres
  · rw [centreOffset_of_le resolution room] at row
    exact ⟨room, row⟩
  · rw [centreOffset_of_lt fits (Nat.lt_of_not_le room)] at row
    omega

theorem dataFits_of_read (size : EvenSize width height)
    (read : ((height - 1) * width + (width - 2 + 1)) * 2 + 1 < 2 ^ 31) :
    height * width ≤ 2 ^ 30 := by
  have positive := size.widthPos
  have even := size.widthEven
  have split : (height - 1) * width + width = height * width := by
    rw [← Nat.succ_mul, Nat.succ_eq_add_one, Nat.sub_add_cancel size.heightPos]
  omega

theorem hasRoom_of_showsFrame (size : EvenSize width height)
    (shows : ShowsFrame screen data width height) : HasRoom screen width height := by
  rcases shows with ⟨stores, ran, below, centred⟩
  have positive := size.widthPos
  have even := size.widthEven
  have heightPos := size.heightPos
  rcases displayFrame_eq_some even ran with ⟨rounds, indexes⟩
  rcases rounds (width - 2) (by omega) (height - 1) (by omega) (by omega) with
    ⟨written, logged, last⟩
  have screenPos : 0 < screen.yres := by
    rcases List.exists_mem_of_ne_nil written last.nonempty with ⟨store, member⟩
    exact Nat.pos_of_mul_pos_left (Nat.zero_lt_of_lt (below store (logged member)))
  rcases columns_of_column size last.column with ⟨columns, columnFits⟩
  rcases rows_of_row size screenPos last.row with ⟨rows, rowFits⟩
  have corner : centredStore YuvPixel.pixel screen data width height (width - 1) (height - 1) ∈
      stores := by
    rw [(centred columns rows).1]
    exact mem_centredFrame.mpr ⟨_, by omega, _, by omega, rfl⟩
  exact ⟨columns, rows, dataFits_of_read size last.read, columnFits, rowFits, indexes _ corner⟩

/-- A frame is shown in its place exactly if the screen has room for it and no
number overflows. -/
theorem showsFrame_iff (size : EvenSize width height)
    (complete : 2 * (height * width) ≤ data.length) :
    ShowsFrame screen data width height ↔ HasRoom screen width height :=
  ⟨hasRoom_of_showsFrame size, fun room => room.showsFrame size complete⟩

def smallScreen : Screen := ⟨4, 3, by decide, by decide⟩

theorem evenSize_two_one : EvenSize 2 1 := by
  constructor <;> decide

theorem showsFrame_iff_two_one :
    ShowsFrame smallScreen [0, 0, 0, 0] 2 1 ↔ HasRoom smallScreen 2 1 :=
  showsFrame_iff evenSize_two_one (by decide)

theorem not_showsFrame_smallScreen :
    ¬∀ (screen : Screen) (data : Bytes) (width height : Nat), EvenSize width height →
      2 * (height * width) ≤ data.length → ShowsFrame screen data width height := by
  intro always
  have size : EvenSize 640 480 := by
    constructor <;> decide
  have shows := always ⟨480, 320, by decide, by decide⟩ (List.replicate 614400 0) 640 480 size
    (by rw [List.length_replicate])
  exact absurd (hasRoom_of_showsFrame size shows).columns (by decide)

end RaspberryPi.Streaming
