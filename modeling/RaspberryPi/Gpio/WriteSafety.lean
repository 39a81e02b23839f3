import RaspberryPi.Gpio.Device
import RaspberryPi.Gpio.MessageBuffer

/-! # The pointers of `gpio_write`

`gpio_write` of `gpiosignal_module.c` on the copy that `kstrdup` makes of a message:
the pointers that `strsep` returns are offsets in that copy or null. -/

namespace RaspberryPi.Gpio

open CString

namespace Duplicate

def colon : UInt8 := 58

inductive Fault
  | nullDereference
  /-- A write outside the allocation. -/
  | outside
  /-- A read behind the end of the allocation. -/
  | pastEnd
  /-- A null pointer as the first argument of `simple_strtol`. -/
  | nullString
deriving DecidableEq

structure Separated where
  heap : Bytes
  token : Option Nat
  str : Option Nat

def strsep (heap : Bytes) : Option Nat → Separated
  | none => ⟨heap, none, none⟩
  | some start => match strchr (heap.drop start) colon with
      | none => ⟨heap, some start, none⟩
      | some offset => ⟨heap.set (start + offset) 0, some start, some (start + offset + 1)⟩

def store (heap : Bytes) (pointer : Option Nat) (index : Nat) (byte : UInt8) :
    Except Fault Bytes :=
  match pointer with
  | none => .error .nullDereference
  | some start =>
      if start + index < heap.length then .ok (heap.set (start + index) byte)
      else .error .outside

/-- The string at a pointer, by a function that gets `null` wrong in its own way. -/
def load (heap : Bytes) (pointer : Option Nat) (null : Fault) : Except Fault Bytes :=
  match pointer with
  | none => .error null
  | some start => match readString (heap.drop start) with
      | none => .error .pastEnd
      | some string => .ok string

/-- `kstrdup(msg, GFP_KERNEL)`, which may fail: the allocation and the pointer to it. -/
def kstrdup (allocated : Bool) (msg : Bytes) : Bytes × Option Nat :=
  if allocated then (text msg ++ [0], some 0) else ([], none)

/-- `gpio_write` of `gpiosignal_module.c`. `image` is what `copy_from_user` stores. -/
def gpioWrite (allocated : Bool) (device : Device) (image : Bytes) : Except Fault Device := do
  let msg := (MessageBuffer.gpioWrite image).msg
  let (heap, str) := kstrdup allocated msg
  let first := strsep heap str
  let second := strsep first.heap first.str
  let heap ← store second.heap first.token 1 0
  let cmd ← load heap first.token .nullDereference
  let device := device.setBlinking (cmd = ascii ['0'])
  let pidstr ← load heap second.token .nullString
  return device.register (some (simpleStrtol pidstr))

def HasPidField (image : Bytes) : Prop := colon ∈ text image

instance (image : Bytes) : Decidable (HasPidField image) := inferInstanceAs (Decidable (_ ∈ _))

/-- The call comes to its end, and changes `task` for a message with a pid field only. -/
def WritesSafely (allocated : Bool) (device : Device) (image : Bytes) : Prop :=
  ∃ after, gpioWrite allocated device image = .ok after ∧
    (¬HasPidField image → after.task = device.task)

section strsep

variable {before string : Bytes} {tail : Bytes}

theorem strsep_null (heap : Bytes) : strsep heap none = ⟨heap, none, none⟩ := rfl

theorem strsep_of_notMem (absent : colon ∉ string) :
    strsep (before ++ (string ++ 0 :: tail)) (some before.length) =
      ⟨before ++ (string ++ 0 :: tail), some before.length, none⟩ := by
  rw [strsep, List.drop_left, strchr_eq_none tail (by decide) absent]

theorem strsep_append {after : Bytes} (noNul : 0 ∉ string) (absent : colon ∉ string) :
    strsep (before ++ (string ++ colon :: after)) (some before.length) =
      ⟨before ++ (string ++ 0 :: after), some before.length,
        some (before.length + string.length + 1)⟩ := by
  rw [strsep, List.drop_left, strchr_eq_some after noNul absent]
  simp

theorem strsep_string_of_notMem (absent : colon ∉ string) :
    Gpio.strsep string = (string, none) := by
  induction string with
  | nil => rfl
  | cons byte rest induction =>
      rw [List.mem_cons, not_or] at absent
      have other : byte ≠ 58 := Ne.symm absent.1
      rw [Gpio.strsep, if_neg other, induction absent.2]

theorem strsep_string_append (after : Bytes) (absent : colon ∉ string) :
    Gpio.strsep (string ++ colon :: after) = (string, some after) := by
  induction string with
  | nil => rfl
  | cons byte rest induction =>
      rw [List.mem_cons, not_or] at absent
      have other : byte ≠ 58 := Ne.symm absent.1
      rw [List.cons_append, Gpio.strsep, if_neg other, induction absent.2]

theorem exists_strsep_eq (noNul : 0 ∉ string) :
    ∃ rest str, strsep (before ++ (string ++ 0 :: tail)) (some before.length) =
      ⟨before ++ ((Gpio.strsep string).1 ++ 0 :: rest), some before.length, str⟩ := by
  by_cases separated : colon ∈ string
  · rcases List.eq_append_cons_of_mem separated with ⟨token, after, rfl, absent⟩
    have tokenNoNul : 0 ∉ token := fun member => noNul (List.mem_append_left _ member)
    rw [List.append_assoc, List.cons_append, strsep_append tokenNoNul absent,
      strsep_string_append after absent]
    exact ⟨_, _, rfl⟩
  · rw [strsep_of_notMem separated, strsep_string_of_notMem separated]
    exact ⟨_, _, rfl⟩

theorem zero_notMem_strsep (noNul : 0 ∉ string) : 0 ∉ (Gpio.strsep string).1 := by
  by_cases separated : colon ∈ string
  · rcases List.eq_append_cons_of_mem separated with ⟨token, after, rfl, absent⟩
    rw [strsep_string_append after absent]
    exact fun member => noNul (List.mem_append_left _ member)
  · rw [strsep_string_of_notMem separated]
    exact noNul

end strsep

section commandEnd

variable {cmd pidstr : Bytes} {rest : Bytes}

/-- `cmd[1] = '\0'` falls on the command, on the NUL behind it or, behind an empty
command, on the first byte of the pid. -/
theorem store_cmd (cmdNoNul : 0 ∉ cmd) (pidNoNul : 0 ∉ pidstr) :
    ∃ heap, store (cmd ++ 0 :: (pidstr ++ 0 :: rest)) (some 0) 1 0 = .ok heap ∧
      readString heap = some (cmd.take 1) ∧
      readString (heap.drop (cmd.length + 1)) = some (if cmd = [] then [] else pidstr) := by
  have inside : 0 + 1 < (cmd ++ 0 :: (pidstr ++ 0 :: rest)).length := by
    simp only [List.length_append, List.length_cons]
    omega
  refine ⟨_, if_pos inside, ?_⟩
  cases cmd with
  | nil =>
      have emptied : (pidstr ++ 0 :: rest).set 0 0 = 0 :: (pidstr ++ 0 :: rest).tail := by
        cases pidstr with
        | nil => rfl
        | cons byte others => rfl
      rw [List.nil_append, Nat.zero_add, List.set_cons_succ, emptied]
      exact ⟨rfl, rfl⟩
  | cons first others =>
      rw [List.mem_cons, not_or] at cmdNoNul
      have one : 0 ∉ [first] := by simpa using cmdNoNul.1
      have found : readString (pidstr ++ 0 :: rest) = some pidstr := readString_append rest pidNoNul
      rw [if_neg (List.cons_ne_nil _ _)]
      cases others with
      | nil => exact ⟨readString_append _ one, found⟩
      | cons second others =>
          refine ⟨@readString_append [first] _ one, ?_⟩
          have behind :
              ((first :: second :: others ++ 0 :: (pidstr ++ 0 :: rest)).set (0 + 1) 0).drop
                ((first :: second :: others).length + 1) = pidstr ++ 0 :: rest := by
            simp
          rw [behind, found]

end commandEnd

variable {allocated : Bool} {device : Device} {image : Bytes}

theorem text_gpioWrite (short : image.length < blockSize) :
    text (MessageBuffer.gpioWrite image).msg = text image := by
  have zeros : List.replicate blockSize (0 : UInt8) = 0 :: List.replicate (blockSize - 1) 0 := rfl
  have length : (text image).length ≤ image.length := (List.takeWhile_prefix _).length_le
  rw [MessageBuffer.gpioWrite, text_take, zeros, text_append_zero, List.take_of_length_le]
  omega

theorem kstrdup_gpioWrite (short : image.length < blockSize) :
    kstrdup true (MessageBuffer.gpioWrite image).msg = (text image ++ [0], some 0) := by
  rw [kstrdup, if_pos rfl, text_gpioWrite short]

theorem gpioWrite_of_hasPidField (short : image.length < blockSize) (field : HasPidField image) :
    gpioWrite true device image = .ok (device.gpioWrite .gpiosignal (text image)) := by
  rcases List.eq_append_cons_of_mem field with ⟨cmd, after, split, absent⟩
  have noNul := zero_notMem_text image
  rw [split, List.mem_append, List.mem_cons, not_or, not_or] at noNul
  have first := @strsep_append [] cmd (after ++ [0]) noNul.1 absent
  rcases @exists_strsep_eq (cmd ++ [0]) after [] noNul.2.2 with ⟨rest, str, second⟩
  rcases @store_cmd cmd (Gpio.strsep after).1 rest noNul.1 (zero_notMem_strsep noNul.2.2) with
    ⟨heap, stored, isCmd, isPidstr⟩
  simp only [List.append_assoc, List.singleton_append, List.length_append, List.length_singleton,
    List.nil_append, List.length_nil, Nat.zero_add] at first second
  have parsed : parse (text image) =
      ⟨cmd.take 1, some (if cmd = [] then [] else (Gpio.strsep after).1)⟩ := by
    rw [parse, split, strsep_string_append after absent]
    rfl
  have loadedCmd : load heap (some 0) .nullDereference = .ok (cmd.take 1) := by
    simp only [load, List.drop_zero, isCmd]
  have loadedPidstr : load heap (some (cmd.length + 1)) .nullString =
      .ok (if cmd = [] then [] else (Gpio.strsep after).1) := by
    simp only [load, isPidstr]
  rw [Device.gpioWrite, Driver.turnsOff, Driver.pid, parsed, gpioWrite, kstrdup_gpioWrite short,
    split, List.append_assoc, List.cons_append]
  simp only [first, second, stored]
  change (load heap (some 0) .nullDereference >>= _) = _
  rw [loadedCmd]
  change (load heap (some (cmd.length + 1)) .nullString >>= _) = _
  rw [loadedPidstr]
  rfl

/-- Without one there is no pointer for `simple_strtol`; behind an empty copy the NUL
does not even get that far. -/
theorem gpioWrite_of_not_hasPidField (short : image.length < blockSize)
    (noField : ¬HasPidField image) :
    gpioWrite true device image =
      .error (if text image = [] then .outside else .nullString) := by
  have first := @strsep_of_notMem [] (text image) [] noField
  have noNul := zero_notMem_text image
  simp only [List.nil_append, List.length_nil] at first
  simp only [gpioWrite, kstrdup_gpioWrite short, first, strsep_null]
  generalize text image = string at noNul
  cases string with
  | nil => rfl
  | cons byte others =>
      rw [List.mem_cons, not_or] at noNul
      have one : 0 ∉ [byte] := by simpa using noNul.1
      have stored : ∃ rest, store (byte :: others ++ [0]) (some 0) 1 0 =
          .ok ([byte] ++ 0 :: rest) := by
        have inside : 0 + 1 < (byte :: others ++ [0]).length := by simp
        rw [store, if_pos inside]
        cases others with
        | nil => exact ⟨[], rfl⟩
        | cons other more => exact ⟨more ++ [0], rfl⟩
      rcases stored with ⟨rest, stored⟩
      have loaded : load ([byte] ++ 0 :: rest) (some 0) .nullDereference = .ok [byte] := by
        simp only [load, List.drop_zero, readString_append rest one]
      rw [stored, if_neg (List.cons_ne_nil _ _)]
      change (load ([byte] ++ 0 :: rest) (some 0) .nullDereference >>= _) = _
      rw [loaded]
      rfl

theorem not_ok_of_not_allocated (after : Device) : gpioWrite false device image ≠ .ok after := by
  intro done
  cases done

/-- The pointers are used as they may be, for a message with a pid field and if there is
memory for its copy. -/
theorem writesSafely_iff (allocated : Bool) (device : Device) (image : Bytes)
    (short : image.length < blockSize) :
    WritesSafely allocated device image ↔ allocated = true ∧ HasPidField image := by
  constructor
  · intro safe
    rcases safe with ⟨after, done, _⟩
    cases allocated with
    | false => exact absurd done (not_ok_of_not_allocated after)
    | true =>
        by_contra noField
        rw [and_iff_right rfl] at noField
        rw [gpioWrite_of_not_hasPidField short noField] at done
        cases done
  · intro holds
    rcases holds with ⟨rfl, field⟩
    exact ⟨_, gpioWrite_of_hasPidField short field, fun noField => absurd field noField⟩

theorem writesSafely_iff_one :
    WritesSafely true .boot (ascii ['1', ':', '7']) ↔
      true = true ∧ HasPidField (ascii ['1', ':', '7']) :=
  writesSafely_iff true .boot (ascii ['1', ':', '7']) (by decide)

/-- Echoing `1` into the device hands a null pointer to `simple_strtol`. -/
theorem not_writesSafely_noPid : ¬WritesSafely true .boot (ascii ['1']) := by
  intro safe
  rcases safe with ⟨after, done, _⟩
  cases done

end Duplicate

end RaspberryPi.Gpio
