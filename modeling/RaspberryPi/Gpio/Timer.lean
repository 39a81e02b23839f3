import RaspberryPi.Gpio.Device

/-! # The life of the timer

`add_timer` wants a timer that is set up and not pending, `del_timer_sync` one
that is set up, and a pending timer must not outlive its module. -/

namespace RaspberryPi.Gpio

open CString

inductive Usage
  | unloaded
  /-- Nothing, or only to stop what was never started. -/
  | fresh
  | blinking
  | stopped
deriving DecidableEq

namespace Usage

def observe (driver : Driver) (usage : Usage) : DeviceEvent → Usage
  | .load => fresh
  | .unload => unloaded
  | .write text =>
      if driver.turnsOff text then if usage = fresh then fresh else stopped else blinking
  | .expire _ | .button _ | .spawn _ | .exit _ => usage

/-- Started only when not blinking, stopped only after it was started, and
unloaded only when not blinking. -/
def Orderly (driver : Driver) (usage : Usage) : DeviceEvent → Prop
  | .write text => if driver.turnsOff text then usage ≠ fresh else usage ≠ blinking
  | .unload => usage ≠ blinking
  | .load | .expire _ | .button _ | .spawn _ | .exit _ => True

end Usage

namespace Device

def UsesTimer (driver : Driver) (device : Device) : DeviceEvent → Prop
  | .write text =>
      if driver.turnsOff text then device.timer.setUp = true else device.timer.pending = false
  | .unload => device.cleanupModule.timer.pending = false
  | .load | .expire _ | .button _ | .spawn _ | .exit _ => True

structure Agrees (device : Device) (usage : Usage) : Prop where
  unloaded : device.loaded = false ↔ usage = .unloaded
  setUp : device.loaded = true → (device.timer.setUp = true ↔ usage ≠ .fresh)
  pending : device.loaded = true → (device.timer.pending = true ↔ usage = .blinking)

theorem agrees_boot : Agrees boot .unloaded := by
  constructor <;> simp [boot]

theorem Agrees.write {driver : Driver} {device : Device} {usage : Usage}
    (agrees : Agrees device usage) (loaded : device.loaded = true) (text : Bytes) :
    Agrees (device.gpioWrite driver text) (usage.observe driver (.write text)) := by
  have setUp := agrees.setUp loaded
  have stillLoaded : (device.gpioWrite driver text).loaded = true := by
    simpa [gpioWrite] using loaded
  have known : usage.observe driver (.write text) ≠ .unloaded := by
    rw [Usage.observe]
    split_ifs <;> exact Usage.noConfusion
  have timer : (device.gpioWrite driver text).timer =
      (device.setBlinking (driver.turnsOff text)).timer := timer_register _ _
  constructor
  · simp [stillLoaded, known]
  · intro _
    rw [timer, Usage.observe]
    cases driver.turnsOff text with
    | true =>
        by_cases fresh : usage = .fresh
        · simpa [setBlinking, fresh] using setUp
        · simpa [setBlinking, fresh] using setUp
    | false => simp [setBlinking]
  · intro _
    rw [timer, Usage.observe]
    cases driver.turnsOff text with
    | true =>
        by_cases fresh : usage = .fresh
        · simp [setBlinking, fresh]
        · simp [setBlinking, fresh]
    | false => simp [setBlinking]

theorem Agrees.after {driver : Driver} {device : Device} {usage : Usage} {event : DeviceEvent}
    (agrees : Agrees device usage) (enabled : device.Enabled event) :
    Agrees (device.after driver event) (usage.observe driver event) := by
  cases event with
  | load => constructor <;> simp [Device.after, initModule, Usage.observe]
  | unload => constructor <;> simp [Device.after, cleanupModule, Usage.observe]
  | write text => exact agrees.write enabled.1 text
  | expire free =>
      have blinking := (agrees.pending enabled.1).mp enabled.2
      cases free with
      | true => exact ⟨agrees.unloaded, agrees.setUp, fun _ => iff_of_true rfl blinking⟩
      | false => exact ⟨agrees.unloaded, agrees.setUp, fun _ => iff_of_true rfl blinking⟩
  | button free => cases free <;> exact ⟨agrees.unloaded, agrees.setUp, agrees.pending⟩
  | spawn pid => exact ⟨agrees.unloaded, agrees.setUp, agrees.pending⟩
  | exit id => exact ⟨agrees.unloaded, agrees.setUp, agrees.pending⟩

theorem usesTimer_iff {driver : Driver} {device : Device} {usage : Usage} {event : DeviceEvent}
    (agrees : Agrees device usage) (enabled : device.Enabled event) :
    device.UsesTimer driver event ↔ usage.Orderly driver event := by
  cases event with
  | write text =>
      have setUp := agrees.setUp enabled.1
      have pending := agrees.pending enabled.1
      rw [UsesTimer, Usage.Orderly]
      split_ifs
      · exact setUp
      · rw [← Bool.not_eq_true, pending]
  | unload =>
      have pending := agrees.pending enabled
      change device.timer.pending = false ↔ usage ≠ .blinking
      rw [← Bool.not_eq_true, pending]
  | load | expire _ | button _ | spawn _ | exit _ => exact Iff.rfl

/-- In every run, of either driver, every call of the timer interface is in
order exactly if the usage is orderly at every step. -/
theorem usesTimer_run (driver : Driver) (events : List DeviceEvent) :
    (machine driver).StepsSatisfy (UsesTimer driver) boot events ↔
      ((machine driver).observed (Usage.observe driver)).StepsSatisfy
        (fun state => state.2.Orderly driver) (boot, .unloaded) events := by
  apply Machine.stepsSatisfy_iff_observed ?_ ?_ events agrees_boot
  · intro device usage event following agrees step
    rcases Machine.guarded_next_eq_some.mp step with ⟨enabled, rfl⟩
    exact agrees.after enabled
  · intro device usage event following agrees step
    rcases Machine.guarded_next_eq_some.mp step with ⟨enabled, rfl⟩
    exact usesTimer_iff agrees enabled

/-- Switching on twice adds a pending timer. -/
theorem not_usesTimer_onTwice :
    ¬∀ (driver : Driver) (events : List DeviceEvent),
      (machine driver).StepsSatisfy (UsesTimer driver) boot events := by
  intro always
  have twice := always .gpiotimer [.load, .write (ascii ['1']), .write (ascii ['1'])]
  have second := ((twice _ rfl).2 _ rfl).2 _ rfl
  have pending : true = false := second.1
  exact Bool.noConfusion pending

end Device

end RaspberryPi.Gpio
