import RaspberryPi.Foundation.CString
import RaspberryPi.Foundation.Machine

/-! # The message buffer of the GPIO drivers

`gpio_write` fills `msg` with what a process writes, `gpio_read` appends to what
is there and copies the string out. Neither looks at the size of `msg` or, when
reading, at the length that the caller asks for. -/

namespace RaspberryPi.Gpio

open CString

def blockSize : Nat := 1024

inductive LedDriver
  | gpio
  | gpioirq
  | gpiotimer
  | gpiosignal

def LedDriver.suffix : LedDriver → Bytes
  | gpio => ascii ['f', 'r', 'o', 'm', ' ', 'k', 'e', 'r', 'n', 'e', 'l']
  | gpioirq | gpiotimer | gpiosignal =>
      ascii [' ', 'f', 'r', 'o', 'm', ' ', 'K', 'e', 'r', 'n', 'e', 'l']

theorem LedDriver.zero_notMem_suffix (driver : LedDriver) : 0 ∉ driver.suffix := by
  cases driver <;> decide

structure MessageBuffer where
  msg : Bytes
  size : msg.length = blockSize
  /-- It wrote behind `msg`. -/
  outside : Bool
  /-- It stored more in the caller's buffer than the caller had asked for. -/
  overfilled : Bool

inductive DeviceCall
  /-- `image` is what `copy_from_user` stores, as many bytes as the caller writes. -/
  | write (image : Bytes)
  /-- The caller asks for `len` bytes, and from its buffer on `accessible` bytes
  of its memory can be written. -/
  | read (len accessible : Nat)

namespace MessageBuffer

def zeroed : MessageBuffer where
  msg := List.replicate blockSize 0
  size := List.length_replicate
  outside := false
  overfilled := false

/-- `memset` and `copy_from_user`; what falls behind `msg` is not followed. -/
def gpioWrite (image : Bytes) : MessageBuffer where
  msg := (image ++ List.replicate blockSize 0).take blockSize
  size := by simp
  outside := blockSize < image.length
  overfilled := false

def gpioRead (buffer : MessageBuffer) (suffix : Bytes) (len accessible : Nat) : MessageBuffer where
  msg := (text buffer.msg ++ suffix ++
    0 :: buffer.msg.drop ((text buffer.msg).length + suffix.length + 1)).take blockSize
  size := by
    simp only [List.length_take, List.length_append, List.length_cons, List.length_drop,
      buffer.size]
    omega
  outside := blockSize < (text buffer.msg).length + suffix.length + 1
  overfilled := len < min ((text buffer.msg).length + suffix.length + 1) accessible

/-- Every call is possible at any time, from any process. Where a write is the end of its
caller (`gpiosignal_module.c`, no pid in the message), the calls that follow are of others. -/
def machine (driver : LedDriver) : Machine MessageBuffer DeviceCall where
  next buffer
    | .write image => some (gpioWrite image)
    | .read len accessible => some (buffer.gpioRead driver.suffix len accessible)

structure Safe (buffer : MessageBuffer) : Prop where
  terminated : 0 ∈ buffer.msg
  inside : buffer.outside = false
  asked : buffer.overfilled = false

def observeLength (driver : LedDriver) (length : Nat) : DeviceCall → Nat
  | .write image => (text image).length
  | .read _ _ => length + driver.suffix.length

/-- A written message fits with its terminator, and a message that is read fits
with what is appended to it, in `msg` and in what the caller asks for. -/
def Fits (driver : LedDriver) (length : Nat) : DeviceCall → Prop
  | .write image => image.length ≤ blockSize ∧ (text image).length < blockSize
  | .read len accessible => length + driver.suffix.length < blockSize ∧
      min (length + driver.suffix.length + 1) accessible ≤ len

def Holds (buffer : MessageBuffer) (length : Nat) : Prop :=
  (text buffer.msg).length = min length blockSize

theorem terminated_iff {buffer : MessageBuffer} {length : Nat} (holds : Holds buffer length) :
    0 ∈ buffer.msg ↔ length < blockSize := by
  rw [← length_text_lt_iff, holds, buffer.size]
  omega

theorem holds_zeroed : Holds zeroed 0 := by
  rw [Holds, Nat.zero_min]
  rfl

theorem holds_gpioWrite (image : Bytes) : Holds (gpioWrite image) (text image).length := by
  have zeros : List.replicate blockSize (0 : UInt8) = 0 :: List.replicate (blockSize - 1) 0 := rfl
  rw [Holds, gpioWrite, text_take, zeros, text_append_zero, List.length_take, Nat.min_comm]

theorem Holds.gpioRead {buffer : MessageBuffer} {length : Nat} {suffix : Bytes}
    (holds : Holds buffer length) (noNul : 0 ∉ suffix) (len accessible : Nat) :
    Holds (buffer.gpioRead suffix len accessible) (length + suffix.length) := by
  have notAny : 0 ∉ text buffer.msg ++ suffix := by
    rw [List.mem_append, not_or]
    exact ⟨zero_notMem_text _, noNul⟩
  rw [Holds, MessageBuffer.gpioRead, text_take, text_append_nul _ notAny, List.length_take,
    List.length_append, holds]
  omega

theorem safe_gpioWrite_iff (image : Bytes) :
    Safe (gpioWrite image) ↔ image.length ≤ blockSize ∧ (text image).length < blockSize := by
  have terminated := terminated_iff (holds_gpioWrite image)
  have inside : (gpioWrite image).outside = false ↔ image.length ≤ blockSize := by
    simp [gpioWrite]
  constructor
  · intro safe
    exact ⟨inside.mp safe.inside, terminated.mp safe.terminated⟩
  · intro holds
    rcases holds with ⟨short, room⟩
    exact ⟨terminated.mpr room, inside.mpr short, rfl⟩

theorem safe_gpioRead_iff {buffer : MessageBuffer} {length : Nat} {suffix : Bytes}
    (holds : Holds buffer length) (noNul : 0 ∉ suffix) (len accessible : Nat) :
    Safe (buffer.gpioRead suffix len accessible) ↔ length + suffix.length < blockSize ∧
      min (length + suffix.length + 1) accessible ≤ len := by
  have terminated := terminated_iff (holds.gpioRead noNul len accessible)
  have inside : (buffer.gpioRead suffix len accessible).outside = false ↔
      min length blockSize + suffix.length < blockSize := by
    change decide (blockSize < (text buffer.msg).length + suffix.length + 1) = false ↔ _
    rw [holds, decide_eq_false_iff_not, Nat.not_lt]
    exact Nat.lt_iff_add_one_le.symm
  have asked : (buffer.gpioRead suffix len accessible).overfilled = false ↔
      min (min length blockSize + suffix.length + 1) accessible ≤ len := by
    change decide (len < min ((text buffer.msg).length + suffix.length + 1) accessible) = false ↔ _
    rw [holds, decide_eq_false_iff_not, Nat.not_lt]
  constructor
  · intro safe
    have room := terminated.mp safe.terminated
    have all : min length blockSize = length := by omega
    have short := asked.mp safe.asked
    rw [all] at short
    exact ⟨room, short⟩
  · intro holds
    rcases holds with ⟨room, short⟩
    have all : min length blockSize = length := by omega
    refine ⟨terminated.mpr room, inside.mpr ?_, asked.mpr ?_⟩
    · rw [all]
      exact room
    · rw [all]
      exact short

/-- Every state of every sequence of calls is safe exactly if each call fits. -/
theorem safe_run (driver : LedDriver) (calls : List DeviceCall) :
    (machine driver).StatesSatisfy Safe zeroed calls ↔
      ((machine driver).observed (observeLength driver)).StepsSatisfy
        (fun state => Fits driver state.2) (zeroed, 0) calls := by
  have initially : Safe zeroed := ⟨by decide, rfl, rfl⟩
  rw [Machine.statesSatisfy_iff_first, and_iff_right initially]
  apply Machine.stepsSatisfy_iff_observed ?_ ?_ calls holds_zeroed
  · intro buffer length call following holds step
    cases call with
    | write image =>
        cases step
        exact holds_gpioWrite image
    | read len accessible =>
        cases step
        exact holds.gpioRead driver.zero_notMem_suffix len accessible
  · intro buffer length call following holds step
    cases call with
    | write image =>
        simp only [machine, Option.some.injEq, forall_eq']
        exact safe_gpioWrite_iff image
    | read len accessible =>
        simp only [machine, Option.some.injEq, forall_eq']
        exact safe_gpioRead_iff holds driver.zero_notMem_suffix len accessible

/-- `gpio.c` with the argument `1` on `gpio_module.c` asks for one byte and gets 13. -/
theorem not_safe_oneByte :
    ¬∀ (driver : LedDriver) (calls : List DeviceCall) (buffer : MessageBuffer),
      (machine driver).run zeroed calls = some buffer → Safe buffer := by
  intro always
  have reached : (machine .gpio).run zeroed
      [.write (ascii ['1']), .read 1 8192] = some _ := rfl
  exact absurd (always _ _ _ reached).asked (by decide)

end MessageBuffer

end RaspberryPi.Gpio
