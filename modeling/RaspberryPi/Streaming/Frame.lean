import RaspberryPi.Foundation.ByteOrder
import RaspberryPi.Foundation.CString
import RaspberryPi.Foundation.PrefixCode

/-! # Frames on the wire

A frame is one byte for its type, an `int` for its size and that many bytes. The
answer to it is an `int`. -/

namespace RaspberryPi.Streaming

def videoType : UInt8 := 0

def audioType : UInt8 := 1

/-- What the server takes for one frame. An `int` passed for a `size_t` counts as
the unsigned number with the same bits. -/
structure Message where
  dataType : UInt8
  totalsize : BitVec 32
  buffer : Bytes
  size : buffer.length = totalsize.toNat

structure Frame where
  dataType : UInt8
  buffer : Bytes
  nonempty : buffer ≠ []
  fits : buffer.length < 2 ^ 31

namespace Message

def bytes (order : ByteOrder) (message : Message) : Bytes :=
  message.dataType :: order.wordBytes message.totalsize ++ message.buffer

theorem prefixCode_bytes (order : ByteOrder) : PrefixCode (bytes order) := by
  constructor
  · intro message empty
    cases empty
  · rintro ⟨firstType, firstSize, first, firstLength⟩ ⟨secondType, secondSize, second, secondLength⟩
      afterFirst afterSecond equal
    simp only [bytes, List.cons_append, List.append_assoc, List.cons.injEq] at equal
    rcases equal with ⟨rfl, equal⟩
    have sizes : (order.wordBytes firstSize).length = (order.wordBytes secondSize).length := by
      simp
    rcases List.append_inj equal sizes with ⟨sameWord, buffers⟩
    obtain rfl := order.wordBytes_injective sameWord
    obtain rfl := (List.append_inj buffers (firstLength.trans secondLength.symm)).1
    rfl

end Message

namespace Frame

def totalsize (frame : Frame) : BitVec 32 := BitVec.ofNat 32 frame.buffer.length

def message (frame : Frame) : Message where
  dataType := frame.dataType
  totalsize := frame.totalsize
  buffer := frame.buffer
  size := by
    have fits := frame.fits
    rw [totalsize, BitVec.toNat_ofNat, Nat.mod_eq_of_lt (by omega)]

def parts (order : ByteOrder) (frame : Frame) : List Bytes :=
  [[frame.dataType], order.wordBytes frame.totalsize, frame.buffer]

theorem flatten_parts (order : ByteOrder) (frame : Frame) :
    (frame.parts order).flatten = frame.message.bytes order := by
  simp [parts, Message.bytes, message]

end Frame

theorem prefixCode_wordBytes (order : ByteOrder) : PrefixCode order.wordBytes :=
  .of_length 4 (by decide) order.length_wordBytes order.wordBytes_injective

/-- `final_ack`: whether the frame was shown or played. -/
def finalAck (dataType : UInt8) (played : Bool) : BitVec 32 :=
  if dataType = videoType then 1
  else if dataType = audioType then if played then 1 else 0
  else 0

end RaspberryPi.Streaming
