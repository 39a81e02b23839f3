import RaspberryPi.Gpio.Device

/-! # The signal of the button

`isr_func` of `gpiosignal_module.c` sends a signal to `task` when the LED is on.
`task` is what the latest lookup has found, or a null pointer, and stays what it
is when its process ends. -/

namespace RaspberryPi.Gpio

open CString

/-- Who has registered for the signal, as the processes see it: the process that
the latest command with a pid has named, for as long as it exists. -/
structure Registration where
  table : ProcessTable
  registered : Option Nat

namespace Registration

def start : Registration := ⟨.empty, none⟩

def observe (registration : Registration) : DeviceEvent → Registration
  | .load => { registration with registered := none }
  | .write text => match Driver.gpiosignal.pid text with
      | none => registration
      | some pid => { registration with registered := registration.table.pidTask pid }
  | .spawn pid => { registration with table := registration.table.spawn pid }
  | .exit id =>
      { table := registration.table.exit id
        registered := registration.registered.filter fun registered => registered ≠ id }
  | .unload | .expire _ | .button _ => registration

end Registration

namespace Device

def SignalsTask (device : Device) : DeviceEvent → Prop
  | .button free => device.Sends free →
      ∃ task, device.task = some task ∧ device.found = some task ∧ device.table.Alive task
  | .load | .unload | .write _ | .expire _ | .spawn _ | .exit _ => True

def SomebodyRegistered (state : Device × Registration) : DeviceEvent → Prop
  | .button free => state.1.Sends free → state.2.registered ≠ none
  | .load | .unload | .write _ | .expire _ | .spawn _ | .exit _ => True

structure Registers (device : Device) (registration : Registration) : Prop where
  table : registration.table = device.table
  registered : registration.registered = device.task.filter fun task => device.table.Alive task
  found : ∀ task, device.task = some task → device.found = some task
  older : ∀ task, device.task = some task → task < device.table.born

theorem registers_boot : Registers boot .start := by
  constructor
  · rfl
  · rfl
  · exact fun _ null => nomatch null
  · exact fun _ null => nomatch null

variable {device : Device} {registration : Registration}

theorem Registers.register (registers : Registers device registration) (pid : Int) :
    Registers (device.register (some pid))
      { registration with registered := registration.table.pidTask pid } := by
  constructor
  · exact registers.table
  · simp only [Device.register, registers.table]
    cases found : device.table.pidTask pid with
    | none => rfl
    | some task =>
        have alive := ProcessTable.alive_of_pidTask found
        simp [Option.filter, alive]
  · intro task isTask
    simp only [Device.register] at isTask ⊢
    rw [isTask, Option.some_or]
  · exact fun task isTask => (ProcessTable.alive_of_pidTask isTask).lt_born

theorem Registers.unchanged {next : Device} (registers : Registers device registration)
    (table : next.table = device.table) (task : next.task = device.task)
    (found : next.found = device.found) : Registers next registration := by
  constructor
  · rw [table, registers.table]
  · rw [task, table, registers.registered]
  · rw [task, found]
    exact registers.found
  · rw [task, table]
    exact registers.older

theorem Registers.write (registers : Registers device registration) (text : Bytes) :
    Registers (device.gpioWrite .gpiosignal text) (registration.observe (.write text)) := by
  have blinking : Registers (device.setBlinking (Driver.gpiosignal.turnsOff text))
      registration := by
    apply registers.unchanged
    · exact table_setBlinking _ _
    · exact task_setBlinking _ _
    · exact found_setBlinking _ _
  rw [gpioWrite, Registration.observe]
  cases Driver.gpiosignal.pid text with
  | none => exact blinking
  | some pid => exact blinking.register pid

theorem Registers.spawn (registers : Registers device registration) (pid : Nat) :
    Registers { device with table := device.table.spawn pid }
      { registration with table := registration.table.spawn pid } := by
  constructor
  · exact congrArg (ProcessTable.spawn · pid) registers.table
  · rw [registers.registered]
    cases isTask : device.task with
    | none => rfl
    | some task =>
        have same := ProcessTable.alive_spawn_iff pid (registers.older task isTask)
        simp only [Option.filter_some, same]
  · exact registers.found
  · exact fun task isTask => Nat.lt_succ_of_lt (registers.older task isTask)

theorem Registers.exit (registers : Registers device registration) (id : Nat) :
    Registers { device with table := device.table.exit id } (registration.observe (.exit id)) := by
  constructor
  · exact congrArg (ProcessTable.exit · id) registers.table
  · rw [Registration.observe, registers.registered]
    cases device.task with
    | none => rfl
    | some task =>
        rw [Option.filter_filter]
        simp only [Option.filter_some, ProcessTable.alive_exit_iff, Bool.decide_and]
  · exact registers.found
  · exact registers.older

theorem Registers.after {event : DeviceEvent} (registers : Registers device registration) :
    Registers (device.after .gpiosignal event) (registration.observe event) := by
  cases event with
  | load =>
      constructor
      · exact registers.table
      · rfl
      · exact fun _ null => nomatch null
      · exact fun _ null => nomatch null
  | write text => exact registers.write text
  | spawn pid => exact registers.spawn pid
  | exit id => exact registers.exit id
  | expire free =>
      apply registers.unchanged
      · cases free <;> rfl
      · cases free <;> rfl
      · cases free <;> rfl
  | button free =>
      apply registers.unchanged
      · cases free <;> rfl
      · cases free <;> rfl
      · cases free <;> rfl
  | unload => exact registers.unchanged rfl rfl rfl

theorem signalsTask_iff {event : DeviceEvent} (registers : Registers device registration) :
    device.SignalsTask event ↔ SomebodyRegistered (device, registration) event := by
  cases event with
  | button free =>
      refine imp_congr_right fun _ => ?_
      simp only [registers.registered, ne_eq, Option.filter_eq_none_iff, not_forall]
      constructor
      · intro holds
        rcases holds with ⟨task, isTask, _, alive⟩
        exact ⟨task, isTask, by simpa using alive⟩
      · intro holds
        rcases holds with ⟨task, isTask, alive⟩
        exact ⟨task, isTask, registers.found task isTask, by simpa using alive⟩
  | load | unload | write _ | expire _ | spawn _ | exit _ => exact Iff.rfl

/-- In every run every signal goes to the registered, living process exactly if
somebody is registered whenever one is sent. -/
theorem signalsTask_run (events : List DeviceEvent) :
    (machine .gpiosignal).StepsSatisfy SignalsTask boot events ↔
      ((machine .gpiosignal).observed Registration.observe).StepsSatisfy SomebodyRegistered
        (boot, .start) events := by
  apply Machine.stepsSatisfy_iff_observed ?_ ?_ events registers_boot
  · intro device registration event following registers step
    rcases Machine.guarded_next_eq_some.mp step with ⟨_, rfl⟩
    exact registers.after
  · intro device registration event following registers _
    exact signalsTask_iff registers

/-- Two presses of the button before anything was written. -/
theorem not_signalsTask_null :
    ¬∀ events : List DeviceEvent,
      (machine .gpiosignal).StepsSatisfy SignalsTask boot events := by
  intro always
  have pressed := always [.load, .button true, .button true]
  have second := ((pressed _ rfl).2 _ rfl).2 _ rfl
  rcases second.1 ⟨rfl, rfl⟩ with ⟨task, isTask, _⟩
  cases isTask

end Device

end RaspberryPi.Gpio
