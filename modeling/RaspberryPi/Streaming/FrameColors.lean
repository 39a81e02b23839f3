import RaspberryPi.Streaming.DisplayFrame

/-! # The colours of a frame

What `display_frame` makes of the pixels of a frame, wherever it puts them. -/

namespace RaspberryPi.Streaming

variable {screen : Screen} {data : Bytes} {width height x y : Nat} {stores : List Store}

theorem getD_of_readData {index : Nat} {byte : UInt8} (defined : readData data index = some byte) :
    data.getD index 0 = byte := by
  rw [readData] at defined
  split_ifs at defined
  rw [List.getD_eq_getElem?_getD, defined]
  rfl

theorem showPair_pixels {pair : Nat}
    (defined : showPair YuvPixel.pixel screen data width height (pair * 2) y = some stores) :
    stores.map Store.pixel =
      [(framePixel data width (pair * 2) y).pixel,
        (framePixel data width (pair * 2 + 1) y).pixel] := by
  simp only [showPair, Option.bind_eq_bind, Option.bind_eq_some_iff] at defined
  rcases defined with ⟨luma1, first, u, chromaU, luma2, second, v, chromaV, _, _, _, _, same⟩
  rcases framePixel_pair data width pair y with ⟨firstPixel, secondPixel⟩
  rw [firstPixel, secondPixel, getD_of_readData first, getD_of_readData chromaU,
    getD_of_readData second, getD_of_readData chromaV, ← Option.some.inj same]
  rfl

theorem displayFrame_pixels (even : width % 2 = 0)
    (ran : displayFrame screen data width height = some stores) :
    stores.map Store.pixel =
      (Raster.cells width height).map fun cell => (framePixel data width cell.1 cell.2).pixel := by
  rcases Raster.sweep_append_eq_some ran with ⟨values, defined, rfl⟩
  have pairs : (width + 1) / 2 = width / 2 := by omega
  have columns : 2 * (width / 2) = width := by omega
  rw [pairs] at defined ⊢
  have rounds := Raster.map_cells_pairs (width / 2) height fun x y =>
    (framePixel data width x y).pixel
  rw [columns] at rounds
  rw [← rounds, List.map_flatMap]
  apply List.flatMap_congr
  rintro ⟨pair, y⟩ member
  rcases Raster.mem_cells.mp member with ⟨column, row⟩
  exact showPair_pixels (defined pair column y row)

/-- The pixel that is written for column `x` of row `y` has the colour that the
frame has there, each channel clamped to a byte. -/
def ShowsPixel (data : Bytes) (width : Nat) (stores : List Store) (x y : Nat) : Prop :=
  ∃ store, stores[y * width + x]? = some store ∧
    ShowsColor store.pixel (framePixel data width x y).red (framePixel data width x y).green
      (framePixel data width x y).blue

theorem exists_logged (even : width % 2 = 0)
    (ran : displayFrame screen data width height = some stores) (column : x < width)
    (row : y < height) : ∃ store, stores[y * width + x]? = some store ∧
      store.pixel = (framePixel data width x y).pixel := by
  have pixels := congrArg (·[y * width + x]?) (displayFrame_pixels even ran)
  rw [List.getElem?_map, List.getElem?_map, Raster.getElem?_cells column row] at pixels
  exact Option.map_eq_some_iff.mp pixels

/-- A pixel of a frame is shown right exactly if its colour needs no clamping. -/
theorem showsPixel_iff (even : width % 2 = 0)
    (ran : displayFrame screen data width height = some stores) (column : x < width)
    (row : y < height) :
    ShowsPixel data width stores x y ↔ (framePixel data width x y).InGamut := by
  rcases exists_logged even ran column row with ⟨store, logged, pixel⟩
  rw [← YuvPixel.showsColor_iff, ShowsPixel, ← pixel]
  constructor
  · rintro ⟨other, otherLogged, shows⟩
    rwa [Option.some.inj (logged.symm.trans otherLogged)]
  · exact fun shows => ⟨store, logged, shows⟩

theorem displayFrame_smallScreen (data : Bytes) (complete : 4 ≤ data.length) :
    displayFrame smallScreen data 2 1 = some (centredFrame smallScreen data 2 1) := by
  have room : HasRoom smallScreen 2 1 := by
    constructor <;> decide
  exact room.displayFrame_eq evenSize_two_one complete

theorem showsPixel_iff_two_one :
    displayFrame smallScreen [255, 128, 16, 128] 2 1 =
        some (centredFrame smallScreen [255, 128, 16, 128] 2 1) ∧
      (ShowsPixel [255, 128, 16, 128] 2 (centredFrame smallScreen [255, 128, 16, 128] 2 1) 0 0 ↔
        (framePixel [255, 128, 16, 128] 2 0 0).InGamut) := by
  have ran := displayFrame_smallScreen [255, 128, 16, 128] (by decide)
  exact ⟨ran, showsPixel_iff (by decide) ran (by decide) (by decide)⟩

/-- A bright red, whose channel wraps around. -/
theorem not_showsPixel_brightRed :
    ¬∀ (screen : Screen) (data : Bytes) (width height : Nat) (stores : List Store),
      EvenSize width height → displayFrame screen data width height = some stores →
      ∀ x < width, ∀ y < height, ShowsPixel data width stores x y := by
  intro always
  have ran := displayFrame_smallScreen [235, 128, 235, 255] (by decide)
  rcases always _ _ _ _ _ evenSize_two_one ran 0 (by decide) 0 (by decide) with
    ⟨store, logged, shows⟩
  obtain rfl := Option.some.inj logged
  exact absurd shows.red (by decide)

end RaspberryPi.Streaming
