import RaspberryPi.Foundation.CString
import RaspberryPi.Foundation.Table

/-! # Chat server: data of the parent process

The constants and structures of `comm.h` and the variables of `main` that the
message loop reads and writes. -/

namespace RaspberryPi.ChatServer

/-- `BUFSIZ` of the C library. -/
def bufsiz : Nat := 8192

/-- One read of at most `sizeof(buffer) - 1` bytes empties the shorter pipes. -/
theorem drop_bufsiz_eq_nil_iff {queue : Bytes} :
    queue.drop (bufsiz - 1) = [] ↔ queue.length < bufsiz := by
  have positive : 0 < bufsiz := by decide
  rw [List.drop_eq_nil_iff]
  omega

def maxClient : Nat := 32

def chatRoom : Nat := 4

def nameSize : Nat := 32

abbrev Pid := Nat

abbrev Fd := Nat

/-! ## Name arrays -/

/-- A `char[NAME]` that holds a terminated string. -/
structure NameField where
  bytes : Bytes
  size : bytes.length = nameSize
  terminated : 0 ∈ bytes
deriving DecidableEq

namespace NameField

def text (field : NameField) : Bytes := CString.text field.bytes

/-- `memset(field, 0, NAME)`. -/
def zeroed : NameField where
  bytes := List.replicate nameSize 0
  size := List.length_replicate
  terminated := by decide

/-- `strncpy(field, source, NAME - 1)` followed by `field[NAME - 1] = '\0'`,
where `copied` is what `strncpy` takes from its source. -/
def ofCopy (copied : Bytes) : NameField where
  bytes := copied.take (nameSize - 1) ++
    List.replicate (nameSize - (copied.take (nameSize - 1)).length) 0
  size := by
    have short := List.length_take_le (nameSize - 1) copied
    have positive : nameSize = 32 := rfl
    rw [List.length_append, List.length_replicate]
    omega
  terminated := by
    have short := List.length_take_le (nameSize - 1) copied
    have positive : nameSize = 32 := rfl
    rw [List.mem_append]
    exact Or.inr (List.mem_replicate.mpr ⟨by omega, rfl⟩)

/-- `strcpy(field, "")`: only the first byte is written. -/
def clear (field : NameField) : NameField where
  bytes := 0 :: field.bytes.tail
  size := by
    have size := field.size
    have positive : nameSize = 32 := rfl
    rw [List.length_cons, List.length_tail]
    omega
  terminated := by simp

@[simp] theorem text_clear (field : NameField) : field.clear.text = [] := rfl

theorem text_ofCopy {copied : Bytes} (noNul : 0 ∉ copied) :
    (ofCopy copied).text = copied.take (nameSize - 1) := by
  have short := List.length_take_le (nameSize - 1) copied
  have positive : nameSize = 32 := rfl
  have padded : nameSize - (copied.take (nameSize - 1)).length =
      nameSize - (copied.take (nameSize - 1)).length - 1 + 1 := by omega
  change CString.text (copied.take (nameSize - 1) ++ List.replicate _ 0) = _
  rw [padded, List.replicate_succ]
  exact CString.text_append_nul _ fun member => noNul (List.mem_of_mem_take member)

theorem ofCopy_take (copied : Bytes) :
    ofCopy (copied.take (nameSize - 1)) = ofCopy copied := by
  simp [ofCopy, List.take_take]

theorem length_text_lt (field : NameField) : field.text.length < nameSize := by
  rcases CString.exists_eq_text_append field.terminated with ⟨tail, equal⟩
  have length := congrArg List.length equal
  rw [field.size, List.length_append, List.length_cons] at length
  rw [text]
  omega

theorem headD_eq_zero_iff (field : NameField) : field.bytes.headD 0 = 0 ↔ field.text = [] :=
  CString.text_eq_nil_iff.symm

/-- Whether `strcmp(field, memory)` returns 0. -/
def Matches (memory : Bytes) (field : NameField) : Prop :=
  CString.strcmp field.bytes memory = some true

instance (memory : Bytes) (field : NameField) : Decidable (field.Matches memory) :=
  inferInstanceAs (Decidable (_ = _))

theorem matches_of_strcmp {memory : Bytes} {field : NameField} {answer : Bool}
    (compared : CString.strcmp field.bytes memory = some answer) :
    field.Matches memory ↔ field.text = CString.text memory := by
  have sound := CString.eq_of_strcmp field.terminated compared
  rw [Matches, compared, Option.some.injEq, sound, decide_eq_true_iff]
  rfl

theorem matches_iff_text {memory : Bytes} {field : NameField} (terminated : 0 ∈ memory) :
    field.Matches memory ↔ field.text = CString.text memory := by
  rw [Matches, CString.strcmp_eq field.terminated terminated]
  simp [text]

end NameField

/-! ## Tables -/

structure RoomInfo where
  name : NameField
deriving DecidableEq

structure PipeInfo where
  pid : Pid
  name : NameField
  roomName : NameField
  parentToChildWriteFd : Fd
  childToParentReadFd : Fd
  isActive : Bool
deriving DecidableEq

namespace PipeInfo

def setName (client : PipeInfo) (copied : Bytes) : PipeInfo :=
  { client with name := .ofCopy copied }

def setRoomName (client : PipeInfo) (copied : Bytes) : PipeInfo :=
  { client with roomName := .ofCopy copied }

def clearRoomName (client : PipeInfo) : PipeInfo :=
  { client with roomName := client.roomName.clear }

end PipeInfo

def PipeInfo.zero : PipeInfo := ⟨0, .zeroed, .zeroed, 0, 0, false⟩

/-- `char mesg_buffer[BUFSIZ]` of `main`, reused for every message. -/
structure MesgBuffer where
  bytes : Bytes
  size : bytes.length = bufsiz

namespace MesgBuffer

def zeroed : MesgBuffer := ⟨List.replicate bufsiz 0, List.length_replicate⟩

def store (buffer : MesgBuffer) (data : Bytes) : MesgBuffer where
  bytes := data.take bufsiz ++ buffer.bytes.drop data.length
  size := by
    rw [List.length_append, List.length_take, List.length_drop, buffer.size]
    omega

theorem bytes_store {buffer : MesgBuffer} {data : Bytes} (fits : data.length ≤ bufsiz) :
    (buffer.store data).bytes = data ++ buffer.bytes.drop data.length := by
  change data.take bufsiz ++ _ = _
  rw [List.take_of_length_le fits]

end MesgBuffer

structure Parent where
  roomInfo : Table RoomInfo chatRoom
  activeChildren : Table PipeInfo maxClient
  mesgBuffer : MesgBuffer

namespace Parent

/-- The listed rooms, `room_info[0..room_num)`. -/
def rooms (parent : Parent) : List RoomInfo := parent.roomInfo.entries

def clients (parent : Parent) : List PipeInfo := parent.activeChildren.entries

def boot (buffer : MesgBuffer) : Parent where
  roomInfo := .empty ⟨.zeroed⟩
  activeChildren := .empty .zero
  mesgBuffer := buffer

@[simp] theorem clients_boot (buffer : MesgBuffer) : (boot buffer).clients = [] := rfl

end Parent

/-! ## Faults and deliveries -/

/-- What the C code can do that the language leaves undefined. -/
inductive Fault
  | nullPointer
  | indexOutOfRange
  | uninitialisedRead
  | pastEndOfArray
deriving DecidableEq

/-- One `write` to a child's pipe, and the child that gets `SIGUSR1` when the
write put bytes in. -/
structure Delivery where
  fd : Fd
  bytes : Bytes
  pid : Pid
deriving DecidableEq

end RaspberryPi.ChatServer
