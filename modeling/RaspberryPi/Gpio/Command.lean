import RaspberryPi.Foundation.Decimal

/-! # Commands of the GPIO drivers

What `gpio_write` makes of the string that a process has written. -/

namespace RaspberryPi.Gpio

open CString

/-- `strsep(&str, ":")`: the token, and where `str` points afterwards. -/
def strsep : Bytes → Bytes × Option Bytes
  | [] => ([], none)
  | byte :: rest =>
      if byte = 58 then ([], some rest)
      else (byte :: (strsep rest).1, (strsep rest).2)

/-- `simple_strtol(string, &endptr, 10)`, stored in a `pid_t`. -/
def simpleStrtol : Bytes → Int
  | 45 :: digits => Int.bmod (-(leadingNumber 0 digits)) (2 ^ 32)
  | digits => Int.bmod (leadingNumber 0 digits) (2 ^ 32)

structure Command where
  cmd : Bytes
  pidstr : Option Bytes

/-- Two `strsep` calls and `cmd[1] = '\0'`, which falls on the first byte of
`pidstr` when `cmd` is empty. -/
def parse (text : Bytes) : Command where
  cmd := (strsep text).1.take 1
  pidstr := (strsep text).2.map fun str => if (strsep text).1 = [] then [] else (strsep str).1

inductive Driver
  | gpiotimer
  | gpiosignal

def Driver.turnsOff (driver : Driver) (text : Bytes) : Bool :=
  match driver with
  | gpiotimer => text = ascii ['0']
  | gpiosignal => (parse text).cmd = ascii ['0']

/-- The number that `gpio_write` looks up; `none` when it does not get that far. -/
def Driver.pid (driver : Driver) (text : Bytes) : Option Int :=
  match driver with
  | gpiotimer => none
  | gpiosignal => (parse text).pidstr.map simpleStrtol

end RaspberryPi.Gpio
