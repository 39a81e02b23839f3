import RaspberryPi.Streaming.Descriptors
import RaspberryPi.Streaming.DisplayFrame
import RaspberryPi.Streaming.System

/-! # What the server reads of a frame

The server allocates as many bytes as the frame says that it has, and
`display_frame` reads as many as a frame of its own size has. -/

namespace RaspberryPi.Streaming

variable {color : YuvPixel → UInt16} {screen : Screen} {data : Bytes} {width height x y : Nat}

def pairReads (width x y : Nat) : List Nat :=
  [(y * width + x) * 2, (y * width + x) * 2 + 1, (y * width + (x + 1)) * 2,
    (y * width + (x + 1)) * 2 + 1]

def displayReads (width height : Nat) : List Nat :=
  (Raster.cells ((width + 1) / 2) height).flatMap fun cell => pairReads width (cell.1 * 2) cell.2

theorem mem_displayReads {offset : Nat} : offset ∈ displayReads width height ↔
    ∃ pair < (width + 1) / 2, ∃ y < height, offset ∈ pairReads width (pair * 2) y := by
  rw [displayReads, List.mem_flatMap]
  constructor
  · rintro ⟨⟨pair, y⟩, member, read⟩
    rcases Raster.mem_cells.mp member with ⟨column, row⟩
    exact ⟨pair, column, y, row, read⟩
  · rintro ⟨pair, column, y, row, read⟩
    exact ⟨(pair, y), Raster.mem_cells.mpr ⟨column, row⟩, read⟩

theorem lt_of_mem_pairReads {offset : Nat} (member : offset ∈ pairReads width x y) :
    offset ≤ (y * width + (x + 1)) * 2 + 1 := by
  simp only [pairReads, List.mem_cons, List.not_mem_nil, or_false] at member
  omega

theorem displayFrame_reads {stores : List Store}
    (ran : displayFrameWith color screen data width height = some stores) :
    ∀ offset ∈ displayReads width height, offset < data.length := by
  intro offset member
  rcases mem_displayReads.mp member with ⟨pair, column, y, row, read⟩
  rcases Raster.sweep_append_eq_some ran with ⟨values, defined, _⟩
  have round := showPair_eq_some (defined pair column y row)
  exact Nat.lt_of_le_of_lt (lt_of_mem_pairReads read) round.inData

def frameWidth : Nat := 640

def frameHeight : Nat := 480

namespace Message

/-- What the server reads of the buffer with a frame: `pa_simple_write` takes all
of it. -/
def reads (message : Message) : List Nat :=
  if message.dataType = videoType then displayReads frameWidth frameHeight
  else if message.dataType = audioType then List.range message.totalsize.toNat
  else []

theorem evenSize_frame : EvenSize frameWidth frameHeight := by
  constructor <;> decide

end Message

/-! ## Rejected frames -/

namespace System

end System

namespace SelectLoop

end SelectLoop

end RaspberryPi.Streaming
