import Mathlib.Data.List.Basic
import RaspberryPi.Foundation.Machine
import RaspberryPi.Gpio.Command

/-! # The blinking drivers at run time

`gpiotimer_module.c` and `gpiosignal_module.c` from load to unload: writes of
user processes, expiries of the timer and interrupts of the button, in any
order. A driver does the same things whether or not the kernel allows them at
that moment, so that what it does wrong can be said. -/

namespace RaspberryPi.Gpio

/-- A process; `id` stands for its `task_struct`, and pids are used again. -/
structure Process where
  pid : Nat
  id : Nat

structure ProcessTable where
  living : List Process
  born : Nat
  older : ∀ process ∈ living, process.id < born

namespace ProcessTable

def empty : ProcessTable where
  living := []
  born := 0
  older := fun _ member => nomatch member

def spawn (table : ProcessTable) (pid : Nat) : ProcessTable where
  living := table.living ++ [⟨pid, table.born⟩]
  born := table.born + 1
  older := by
    intro process member
    rcases List.mem_append.mp member with old | new
    · exact Nat.lt_succ_of_lt (table.older process old)
    · rw [List.mem_singleton.mp new]
      exact Nat.lt_succ_self _

def exit (table : ProcessTable) (id : Nat) : ProcessTable where
  living := table.living.filter fun process => process.id ≠ id
  born := table.born
  older := fun process member => table.older process (List.mem_of_mem_filter member)

def Alive (table : ProcessTable) (id : Nat) : Prop := id ∈ table.living.map Process.id

instance (table : ProcessTable) (id : Nat) : Decidable (table.Alive id) :=
  inferInstanceAs (Decidable (_ ∈ _))

def pidTask (table : ProcessTable) (pid : Int) : Option Nat :=
  (table.living.find? fun process => (process.pid : Int) = pid).map Process.id

theorem alive_of_pidTask {table : ProcessTable} {pid : Int} {id : Nat}
    (found : table.pidTask pid = some id) : table.Alive id := by
  rcases Option.map_eq_some_iff.mp found with ⟨process, search, rfl⟩
  exact List.mem_map_of_mem (List.mem_of_find?_eq_some search)

theorem alive_exit_iff {table : ProcessTable} {id other : Nat} :
    (table.exit id).Alive other ↔ table.Alive other ∧ other ≠ id := by
  simp only [Alive, exit, List.mem_map, List.mem_filter, decide_eq_true_eq]
  constructor
  · intro holds
    rcases holds with ⟨process, ⟨member, different⟩, rfl⟩
    exact ⟨⟨process, member, rfl⟩, different⟩
  · intro holds
    rcases holds with ⟨⟨process, member, rfl⟩, different⟩
    exact ⟨process, ⟨member, different⟩, rfl⟩

theorem Alive.lt_born {table : ProcessTable} {id : Nat} (alive : table.Alive id) :
    id < table.born := by
  rcases List.mem_map.mp alive with ⟨process, member, rfl⟩
  exact table.older process member

theorem alive_spawn_iff {table : ProcessTable} {id : Nat} (pid : Nat) (older : id < table.born) :
    (table.spawn pid).Alive id ↔ table.Alive id := by
  simp [Alive, spawn, older.ne]

end ProcessTable

structure Timer where
  setUp : Bool
  pending : Bool

structure Device where
  loaded : Bool
  timer : Timer
  led : Bool
  ledflag : Bool
  /-- `task`; `none` is a null pointer. -/
  task : Option Nat
  /-- What the latest lookup that found a process has found. -/
  found : Option Nat
  table : ProcessTable

inductive DeviceEvent
  | load
  | unload
  /-- `text` is the string that `copy_from_user` leaves in `msg`. -/
  | write (text : Bytes)
  /-- `free`: whether `mutex_trylock` succeeds. -/
  | expire (free : Bool)
  | button (free : Bool)
  | spawn (pid : Nat)
  | exit (id : Nat)

namespace Device

def boot : Device := ⟨false, ⟨false, false⟩, false, true, none, none, .empty⟩

def initModule (device : Device) : Device :=
  { device with
    loaded := true
    timer := ⟨false, false⟩
    led := false
    ledflag := true
    task := none
    found := none }

def cleanupModule (device : Device) : Device := { device with loaded := false }

def setBlinking (device : Device) (off : Bool) : Device :=
  if off then { device with timer := { device.timer with pending := false }, led := false }
  else { device with timer := ⟨true, true⟩ }

def register (device : Device) (pid : Option Int) : Device :=
  match pid with
  | none => device
  | some pid =>
      let task := device.table.pidTask pid
      { device with task, found := task.or device.found }

def gpioWrite (driver : Driver) (device : Device) (text : Bytes) : Device :=
  (device.setBlinking (driver.turnsOff text)).register (driver.pid text)

def timerFunc (device : Device) (free : Bool) : Device :=
  let device := if free then { device with led := device.ledflag, ledflag := !device.ledflag }
    else device
  { device with timer := { device.timer with pending := true } }

/-- A button press makes `isr_func` call `send_sig_info`. -/
def Sends (device : Device) (free : Bool) : Prop := free = true ∧ device.led = true

def isrFunc (device : Device) (free : Bool) : Device :=
  if free then { device with led := !device.led } else device

def Enabled (device : Device) : DeviceEvent → Prop
  | .load => device.loaded = false
  | .unload | .button _ => device.loaded = true
  | .write text => device.loaded = true ∧ 0 ∉ text
  | .expire _ => device.loaded = true ∧ device.timer.pending = true
  | .spawn pid => 0 < pid ∧ pid ∉ device.table.living.map Process.pid
  | .exit id => device.table.Alive id

instance (device : Device) (event : DeviceEvent) : Decidable (device.Enabled event) := by
  cases event <;> unfold Enabled <;> infer_instance

def after (driver : Driver) (device : Device) : DeviceEvent → Device
  | .load => device.initModule
  | .unload => device.cleanupModule
  | .write text => device.gpioWrite driver text
  | .expire free => device.timerFunc free
  | .button free => device.isrFunc free
  | .spawn pid => { device with table := device.table.spawn pid }
  | .exit id => { device with table := device.table.exit id }

def machine (driver : Driver) : Machine Device DeviceEvent := .guarded Enabled (after driver)

@[simp] theorem timer_register (device : Device) (pid : Option Int) :
    (device.register pid).timer = device.timer := by
  cases pid <;> rfl

@[simp] theorem loaded_register (device : Device) (pid : Option Int) :
    (device.register pid).loaded = device.loaded := by
  cases pid <;> rfl

@[simp] theorem loaded_setBlinking (device : Device) (off : Bool) :
    (device.setBlinking off).loaded = device.loaded := by
  cases off <;> rfl

@[simp] theorem table_setBlinking (device : Device) (off : Bool) :
    (device.setBlinking off).table = device.table := by
  cases off <;> rfl

@[simp] theorem task_setBlinking (device : Device) (off : Bool) :
    (device.setBlinking off).task = device.task := by
  cases off <;> rfl

@[simp] theorem found_setBlinking (device : Device) (off : Bool) :
    (device.setBlinking off).found = device.found := by
  cases off <;> rfl

end Device

end RaspberryPi.Gpio
