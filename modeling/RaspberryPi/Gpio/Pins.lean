import Mathlib.Logic.Function.Basic
import RaspberryPi.Foundation.PackedFields
import RaspberryPi.Gpio.MessageBuffer

/-! # The pins of the GPIO controller

`gpio_module.c` switches an LED through the registers of the controller. A register
is shared by many pins, so every store has to leave the other pins alone. -/

namespace RaspberryPi.Gpio

open CString PackedFields

/-- The registers. A one that is stored in word 7 switches its pin on, a one in word 10
switches it off, and every other word keeps what is stored in it. -/
structure Controller where
  words : Nat → BitVec 32
  outputs : BitVec 32

@[ext] structure Board where
  function : Fin 54 → BitVec 3
  level : Fin 32 → BitVec 1

namespace Board

def setFunction (board : Board) (pin : Fin 54) (function : BitVec 3) : Board where
  function := Function.update board.function pin function
  level := board.level

def setLevel (board : Board) (pin : Fin 32) (level : BitVec 1) : Board where
  function := board.function
  level := Function.update board.level pin level

variable (board : Board) (pin : Fin 54)

@[simp] theorem function_setFunction (function : BitVec 3) :
    (board.setFunction pin function).function pin = function := by
  simp only [setFunction, Function.update_self]

@[simp] theorem setFunction_setFunction (earlier function : BitVec 3) :
    (board.setFunction pin earlier).setFunction pin function = board.setFunction pin function := by
  simp only [setFunction, Function.update_idem]

@[simp] theorem setLevel_setLevel (pin : Fin 32) (earlier level : BitVec 1) :
    (board.setLevel pin earlier).setLevel pin level = board.setLevel pin level := by
  simp only [setLevel, Function.update_idem]

@[simp] theorem function_setLevel (other : Fin 32) (level : BitVec 1) :
    (board.setLevel other level).function = board.function := rfl

theorem setLevel_setFunction (function : BitVec 3) (other : Fin 32) (level : BitVec 1) :
    (board.setLevel other level).setFunction pin function =
      (board.setFunction pin function).setLevel other level := rfl

end Board

namespace Controller

def store (controller : Controller) (index : Nat) (value : BitVec 32) : Controller :=
  match index with
  | 7 => { controller with outputs := controller.outputs ||| value }
  | 10 => { controller with outputs := controller.outputs &&& ~~~value }
  | index => { controller with words := Function.update controller.words index value }

def gpioIn (controller : Controller) (g : Nat) : Controller :=
  controller.store (g / 10) (controller.words (g / 10) &&& ~~~(7#32 <<< (g % 10 * 3)))

def gpioOut (controller : Controller) (g : Nat) : Controller :=
  controller.store (g / 10) (controller.words (g / 10) ||| 1#32 <<< (g % 10 * 3))

def gpioSet (controller : Controller) (g : Nat) : Controller := controller.store 7 (1#32 <<< g)

def gpioClr (controller : Controller) (g : Nat) : Controller := controller.store 10 (1#32 <<< g)

def board (controller : Controller) : Board where
  function pin := field 3 (pin % 10) (controller.words (pin / 10))
  level pin := field 1 pin controller.outputs

theorem store_words (controller : Controller) {index : Nat} (low : index < 7)
    (value : BitVec 32) : controller.store index value =
      { controller with words := Function.update controller.words index value } := by
  rw [store]
  · omega
  · omega

/-! Ten pins share a word, three bits each. -/

theorem fits_function (pin : Nat) : FieldFits 32 3 (pin % 10) := by
  rw [FieldFits]
  omega

theorem fits_level (pin : Fin 32) : FieldFits 32 1 pin := by
  rw [FieldFits]
  omega

theorem board_store_function (controller : Controller) (g : Fin 54) {word : BitVec 32}
    (others : ∀ other, other ≠ g.val % 10 → FieldFits 32 3 other →
      field 3 other word = field 3 other (controller.words (g / 10))) :
    (controller.store (g / 10) word).board =
      controller.board.setFunction g (field 3 (g % 10) word) := by
  have low : g.val / 10 < 7 := by omega
  rw [store_words controller low]
  apply Board.ext
  · funext pin
    change field 3 (pin % 10) (Function.update controller.words (g / 10) word (pin / 10)) =
      Function.update controller.board.function g (field 3 (g % 10) word) pin
    by_cases same : pin = g
    · rw [same, Function.update_self, Function.update_self]
    · rw [Function.update_of_ne same]
      by_cases neighbour : pin.val / 10 = g.val / 10
      · have different : pin.val % 10 ≠ g.val % 10 := by
          intro equal
          apply same
          apply Fin.ext
          omega
        rw [neighbour, Function.update_self, others _ different (fits_function pin), ← neighbour]
        rfl
      · rw [Function.update_of_ne neighbour]
        rfl
  · rfl

theorem board_gpioIn (controller : Controller) (g : Fin 54) :
    (controller.gpioIn g).board = controller.board.setFunction g 0#3 := by
  have mask : 7#32 <<< (g.val % 10 * 3) = place 32 (g.val % 10) (BitVec.allOnes 3) := rfl
  rw [gpioIn, mask, board_store_function, field_clear (fits_function g)]
  intro other different fits
  exact field_clear_of_ne fits different _ _

theorem board_gpioOut (controller : Controller) (g : Fin 54) :
    (controller.gpioOut g).board =
      controller.board.setFunction g (controller.board.function g ||| 1#3) := by
  have value : 1#32 <<< (g.val % 10 * 3) = place 32 (g.val % 10) 1#3 := rfl
  rw [gpioOut, value, board_store_function, field_add (fits_function g)]
  · rfl
  · intro other different _
    exact field_add_of_ne different _ _

theorem one_shiftLeft (g : Nat) : 1#32 <<< g = place 32 g 1#1 := by
  rw [place, Nat.mul_one]
  rfl

theorem board_gpioSet (controller : Controller) (g : Fin 32) :
    (controller.gpioSet g).board = controller.board.setLevel g 1#1 := by
  rw [gpioSet, one_shiftLeft]
  apply Board.ext
  · rfl
  · funext pin
    change field 1 pin (controller.outputs ||| place 32 g 1#1) =
      Function.update controller.board.level g 1#1 pin
    by_cases same : pin = g
    · rw [same, Function.update_self, field_add (fits_level g)]
      exact BitVec.or_allOnes
    · rw [Function.update_of_ne same, field_add_of_ne (Fin.val_ne_of_ne same)]
      rfl

theorem board_gpioClr (controller : Controller) (g : Fin 32) :
    (controller.gpioClr g).board = controller.board.setLevel g 0#1 := by
  rw [gpioClr, one_shiftLeft]
  apply Board.ext
  · rfl
  · funext pin
    change field 1 pin (controller.outputs &&& ~~~place 32 g (BitVec.allOnes 1)) =
      Function.update controller.board.level g 0#1 pin
    by_cases same : pin = g
    · rw [same, Function.update_self, field_clear (fits_level g)]
    · rw [Function.update_of_ne same, field_clear_of_ne (fits_level pin) (Fin.val_ne_of_ne same)]
      rfl

end Controller

structure LedDevice where
  loaded : Bool
  buffer : MessageBuffer
  controller : Controller

inductive LedEvent
  | load
  | unload
  | call (call : DeviceCall)

namespace LedDevice

def gpioLed : Nat := 18

def initModule (device : LedDevice) : LedDevice where
  loaded := true
  buffer := .zeroed
  controller := (device.controller.gpioIn gpioLed).gpioOut gpioLed

def cleanupModule (device : LedDevice) : LedDevice := { device with loaded := false }

def gpioWrite (device : LedDevice) (image : Bytes) : LedDevice :=
  let buffer := MessageBuffer.gpioWrite image
  { device with
    buffer
    controller :=
      if text buffer.msg = ascii ['0'] then device.controller.gpioClr gpioLed
      else device.controller.gpioSet gpioLed }

def gpioRead (device : LedDevice) (len accessible : Nat) : LedDevice :=
  { device with buffer := device.buffer.gpioRead LedDriver.gpio.suffix len accessible }

/-- A call that would write behind `msg` is not followed. -/
def Enabled (device : LedDevice) : LedEvent → Prop
  | .load => device.loaded = false
  | .unload => device.loaded = true
  | .call (.write image) => device.loaded = true ∧ image.length ≤ blockSize
  | .call (.read len accessible) =>
      device.loaded = true ∧ (device.gpioRead len accessible).buffer.outside = false

instance (device : LedDevice) (event : LedEvent) : Decidable (device.Enabled event) :=
  match event with
  | .load => inferInstanceAs (Decidable (_ = _))
  | .unload => inferInstanceAs (Decidable (_ = _))
  | .call (.write _) => inferInstanceAs (Decidable (_ ∧ _))
  | .call (.read _ _) => inferInstanceAs (Decidable (_ ∧ _))

def after (device : LedDevice) : LedEvent → LedDevice
  | .load => device.initModule
  | .unload => device.cleanupModule
  | .call (.write image) => device.gpioWrite image
  | .call (.read len accessible) => device.gpioRead len accessible

def machine : Machine LedDevice LedEvent := .guarded Enabled after

end LedDevice

/-! What a user of the LED sees, without registers. -/

namespace LedEvent

def level : LedEvent → Option (BitVec 1)
  | .call (.write image) => some (if text image = ascii ['0'] then 0#1 else 1#1)
  | .load | .unload | .call (.read _ _) => none

def isLoad : LedEvent → Bool
  | .load => true
  | .unload | .call _ => false

end LedEvent

namespace Board

def led : Fin 54 := 18

def ledLevel : Fin 32 := 18

/-- The pin of the LED is an output since the driver was loaded and has the level of the
latest message; no other pin has changed. -/
def afterEvents (board : Board) (events : List LedEvent) : Board :=
  let loaded := if events.any LedEvent.isLoad then board.setFunction led 1#3 else board
  match (events.filterMap LedEvent.level).getLast? with
  | none => loaded
  | some level => loaded.setLevel ledLevel level

variable {board : Board} {events : List LedEvent}

theorem afterEvents_load :
    board.afterEvents (events ++ [.load]) = (board.afterEvents events).setFunction led 1#3 := by
  cases loaded : events.any LedEvent.isLoad <;>
    cases latest : (events.filterMap LedEvent.level).getLast? <;>
    simp [afterEvents, loaded, latest, LedEvent.isLoad, LedEvent.level, setLevel_setFunction]

theorem afterEvents_write (image : Bytes) :
    board.afterEvents (events ++ [.call (.write image)]) =
      (board.afterEvents events).setLevel ledLevel
        (if text image = ascii ['0'] then 0#1 else 1#1) := by
  cases latest : (events.filterMap LedEvent.level).getLast? <;>
    simp [afterEvents, latest, LedEvent.isLoad, LedEvent.level]

theorem function_led (loaded : events.any LedEvent.isLoad = true) :
    (board.afterEvents events).function led = 1#3 := by
  cases latest : (events.filterMap LedEvent.level).getLast? <;>
    simp [afterEvents, loaded, latest]

theorem afterEvents_quiet {event : LedEvent} (silent : event.level = none)
    (notLoad : event.isLoad = false) :
    board.afterEvents (events ++ [event]) = board.afterEvents events := by
  simp [afterEvents, silent, notLoad]

end Board

namespace LedDevice

variable {device : LedDevice}

/-- Clearing the function first makes the pin an output whatever it was. -/
theorem board_initModule :
    device.initModule.controller.board = device.controller.board.setFunction Board.led 1#3 := by
  have cleared := Controller.board_gpioIn device.controller Board.led
  have set := Controller.board_gpioOut (device.controller.gpioIn Board.led) Board.led
  rw [cleared, Board.function_setFunction, Board.setFunction_setFunction] at set
  exact set

theorem text_gpioWrite {image : Bytes} (short : image.length ≤ blockSize) :
    text (MessageBuffer.gpioWrite image).msg = text image := by
  have zeros : List.replicate blockSize (0 : UInt8) = 0 :: List.replicate (blockSize - 1) 0 := rfl
  have inside : (text image).length ≤ blockSize :=
    Nat.le_trans (List.takeWhile_prefix _).length_le short
  rw [MessageBuffer.gpioWrite, text_take, zeros, text_append_zero, List.take_of_length_le inside]

theorem board_gpioWrite {image : Bytes} (short : image.length ≤ blockSize) :
    (device.gpioWrite image).controller.board =
      device.controller.board.setLevel Board.ledLevel
        (if text image = ascii ['0'] then 0#1 else 1#1) := by
  rw [gpioWrite, text_gpioWrite short]
  by_cases off : text image = ascii ['0']
  · rw [if_pos off, if_pos off]
    exact Controller.board_gpioClr device.controller Board.ledLevel
  · rw [if_neg off, if_neg off]
    exact Controller.board_gpioSet device.controller Board.ledLevel

structure Follows (start : Board) (events : List LedEvent) (device : LedDevice) : Prop where
  board : device.controller.board = start.afterEvents events
  loaded : device.loaded = true → events.any LedEvent.isLoad = true

theorem Follows.after {start : Board} {events : List LedEvent} {event : LedEvent}
    (follows : Follows start events device) (enabled : device.Enabled event) :
    Follows start (events ++ [event]) (device.after event) := by
  have earlier : device.loaded = true → (events ++ [event]).any LedEvent.isLoad = true := by
    intro loaded
    rw [List.any_append, follows.loaded loaded, Bool.true_or]
  cases event with
  | load =>
      constructor
      · rw [Board.afterEvents_load, ← follows.board, LedDevice.after, board_initModule]
      · intro _
        rw [List.any_append]
        exact Bool.or_true _
  | unload =>
      constructor
      · rw [Board.afterEvents_quiet rfl rfl, ← follows.board]
        rfl
      · exact fun _ => earlier enabled
  | call call =>
      cases call with
      | write image =>
          constructor
          · rw [Board.afterEvents_write, ← follows.board, LedDevice.after,
              board_gpioWrite enabled.2]
          · exact fun _ => earlier enabled.1
      | read len accessible =>
          constructor
          · rw [Board.afterEvents_quiet rfl rfl, ← follows.board]
            rfl
          · exact fun _ => earlier enabled.1

/-- Whatever the registers were before the driver was loaded. -/
theorem pins_run {start final : LedDevice} {events : List LedEvent}
    (unloaded : start.loaded = false) (reached : machine.run start events = some final) :
    final.controller.board = start.controller.board.afterEvents events ∧
      (final.loaded = true → final.controller.board.function Board.led = 1#3) := by
  have initially : Follows start.controller.board [] start := by
    constructor
    · rfl
    · rw [unloaded]
      exact fun impossible => nomatch impossible
  have follows : Follows start.controller.board events final := by
    refine Machine.run_induction initially ?_ reached
    intro events device event following _ follows step
    rcases Machine.guarded_next_eq_some.mp step with ⟨enabled, rfl⟩
    exact follows.after enabled
  refine ⟨follows.board, ?_⟩
  intro loaded
  rw [follows.board, Board.function_led (follows.loaded loaded)]

theorem pins_run_blink :
    let start : LedDevice := ⟨false, .zeroed, ⟨fun _ => 0xf249249#32, 0#32⟩⟩
    let events : List LedEvent := [.load, .call (.write (ascii ['1'])), .call (.read 64 64)]
    ∃ final, machine.run start events = some final ∧
      final.controller.board = start.controller.board.afterEvents events ∧
      final.controller.board.function Board.led = 1#3 := by
  intro start events
  have runs : (machine.run start events).isSome := rfl
  have reached := (Option.some_get runs).symm
  have pins := pins_run rfl reached
  exact ⟨_, reached, pins.1, pins.2 rfl⟩

end LedDevice

end RaspberryPi.Gpio
