import RaspberryPi.WebServer.Filename

/-! # The body of an answer in `webserver.c`

`sendData` reads a file into an array by length and writes the array as a string.
Nothing puts a NUL behind what has been read. -/

namespace RaspberryPi.WebServer

open CString

namespace SendData

def protocol : Bytes := ascii
  ['H', 'T', 'T', 'P', '/', '1', '.', '1', ' ', '2', '0', '0', ' ', 'O', 'K', ' ', '\r', '\n']

def server : Bytes := ascii
  ['S', 'e', 'v', 'e', 'r', ':', ' ', 'M', 'Y', ' ', 'S', 'E', 'V', 'E', 'R', ' ', '\r', '\n']

def cntType : Bytes := ascii
  ['C', 'o', 'n', 't', 'e', 'n', 't', '-', 'T', 'y', 'p', 'e', ':', 't', 'e', 'x', 't', '/', 'h',
    't', 'm', 'l', '\r', '\n']

def header : Bytes := protocol ++ server ++ cntType ++ ascii ['\r', '\n']

def overwrite (buf : Buffer) (chunk : Bytes) : Buffer where
  bytes := (chunk ++ buf.bytes.drop chunk.length).take bufsiz
  size := by
    have size := buf.size
    simp only [List.length_take, List.length_append, List.length_drop]
    omega

structure Read where
  len : Int
  buf : Buffer
  file : Option Bytes

/-- `read(fd, buf, BUFSIZ)`, where `file` is what is left of the file and `none` if it
could not be opened. -/
def read (buf : Buffer) : Option Bytes → Read
  | none => ⟨-1, buf, none⟩
  | some left => ⟨(left.take bufsiz).length, overwrite buf (left.take bufsiz),
      some (left.drop bufsiz)⟩

/-- The array in each round of the copy loop; no result while it goes on. -/
def copy : Nat → Buffer → Option Bytes → Option (List Buffer)
  | 0, _, _ => none
  | fuel + 1, buf, file =>
      let read := read buf file
      if read.len = bufsiz then (copy fuel read.buf read.file).map (read.buf :: ·)
      else some [read.buf]

/-- What `fputs` writes in these rounds; `none` if it reads on behind an array. -/
def fputs : List Buffer → Option Bytes
  | [] => some []
  | buf :: later => do
      let string ← readString buf.bytes
      let others ← fputs later
      return string ++ others

/-- What `sendData` has written when it returns; `stack` is what the array held before. -/
def sendData (fuel : Nat) (stack : Buffer) (file : Option Bytes) : Option (Option Bytes) :=
  (copy fuel stack file).map fun bufs => (fputs bufs).map (header ++ ·)

def content (file : Option Bytes) : Bytes := file.getD []

def filled (stack : Buffer) (file : Option Bytes) : Bytes :=
  content file ++ stack.bytes.drop (content file).length

def SendsFile (stack : Buffer) (file : Option Bytes) : Prop :=
  ∃ fuel, sendData fuel stack file = some (some (header ++ content file))

section copy

variable {fuel : Nat} {buf : Buffer} {left : Bytes}

theorem bytes_overwrite {chunk : Bytes} (fits : chunk.length ≤ bufsiz) :
    (overwrite buf chunk).bytes = chunk ++ buf.bytes.drop chunk.length := by
  apply List.take_of_length_le
  rw [List.length_append, List.length_drop, buf.size]
  omega

theorem copy_none (fuel : Nat) (buf : Buffer) : copy (fuel + 1) buf none = some [buf] := rfl

theorem copy_of_lt (short : left.length < bufsiz) :
    copy (fuel + 1) buf (some left) = some [overwrite buf left] := by
  have all : left.take bufsiz = left := List.take_of_length_le short.le
  have ends : (left.length : Int) ≠ bufsiz := by omega
  rw [copy, read, all]
  exact if_neg ends

theorem copy_of_le (long : bufsiz ≤ left.length) :
    copy (fuel + 1) buf (some left) =
      (copy fuel (overwrite buf (left.take bufsiz)) (some (left.drop bufsiz))).map
        (overwrite buf (left.take bufsiz) :: ·) := by
  have full : ((left.take bufsiz).length : Int) = bufsiz := by
    rw [List.length_take, Nat.min_eq_left long]
  exact if_pos full

theorem exists_copy (buf : Buffer) (file : Option Bytes) :
    ∃ fuel bufs, copy fuel buf file = some bufs := by
  cases file with
  | none => exact ⟨1, _, copy_none 0 buf⟩
  | some left =>
      induction length : left.length using Nat.strong_induction_on generalizing buf left with
      | _ bound induction =>
        subst length
        by_cases short : left.length < bufsiz
        · exact ⟨1, _, copy_of_lt short⟩
        · have long := Nat.le_of_not_lt short
          have shorter : (left.drop bufsiz).length < left.length := by
            have some_ : 0 < bufsiz := by decide
            rw [List.length_drop]
            omega
          rcases induction _ shorter (overwrite buf (left.take bufsiz)) _ rfl with
            ⟨fuel, bufs, later⟩
          refine ⟨fuel + 1, overwrite buf (left.take bufsiz) :: bufs, ?_⟩
          rw [copy_of_le long, later]
          rfl

end copy

section fputs

variable {fuel : Nat} {stack buf : Buffer} {bufs : List Buffer} {file : Option Bytes}
  {left written : Bytes}

theorem fputs_cons_eq_some :
    fputs (buf :: bufs) = some written ↔ ∃ string others, readString buf.bytes = some string ∧
      fputs bufs = some others ∧ string ++ others = written := by
  simp only [fputs, Option.bind_eq_bind, Option.bind_eq_some_iff, Option.pure_def,
    Option.some.injEq]
  constructor
  · intro done
    rcases done with ⟨string, read, others, later, rfl⟩
    exact ⟨string, others, read, later, rfl⟩
  · intro done
    rcases done with ⟨string, others, read, later, rfl⟩
    exact ⟨string, read, others, later, rfl⟩

theorem fputs_singleton (buf : Buffer) : fputs [buf] = readString buf.bytes := by
  cases read : readString buf.bytes <;> simp [fputs, read]

theorem zero_notMem_fputs (done : fputs bufs = some written) : 0 ∉ written := by
  induction bufs generalizing written with
  | nil =>
      obtain rfl := Option.some.inj done
      exact List.not_mem_nil
  | cons buf bufs induction =>
      rcases fputs_cons_eq_some.mp done with ⟨string, others, read, later, rfl⟩
      exact List.not_mem_append (zero_notMem_of_readString read) (induction later)

/-- A full array is no string, or the file has a NUL that is not sent. -/
theorem not_fputs_of_le (long : bufsiz ≤ left.length)
    (ended : copy fuel buf (some left) = some bufs) : fputs bufs ≠ some left := by
  intro done
  have noNul := zero_notMem_fputs done
  cases fuel with
  | zero => cases ended
  | succ fuel =>
      rw [copy_of_le long] at ended
      rcases Option.map_eq_some_iff.mp ended with ⟨later, _, rfl⟩
      rcases fputs_cons_eq_some.mp done with ⟨string, others, read, _, _⟩
      have full : (left.take bufsiz).length = bufsiz := by
        rw [List.length_take, Nat.min_eq_left long]
      have taken : 0 ∉ left.take bufsiz := fun member => noNul (List.mem_of_mem_take member)
      have bytes : (overwrite buf (left.take bufsiz)).bytes = left.take bufsiz := by
        rw [bytes_overwrite full.le, full, ← buf.size, List.drop_length, List.append_nil]
      rw [bytes, readString, if_neg taken] at read
      cases read

theorem sendsFile_iff_copy : SendsFile stack file ↔
    ∃ fuel bufs, copy fuel stack file = some bufs ∧ fputs bufs = some (content file) := by
  simp only [SendsFile, sendData, Option.map_eq_some_iff, List.append_cancel_left_eq,
    exists_eq_right]

theorem sendsFile_of_lt (short : left.length < bufsiz) :
    SendsFile stack (some left) ↔ 0 ∉ left ∧ stack.bytes[left.length]? = some 0 := by
  have read : fputs [overwrite stack left] = some left ↔
      0 ∉ left ∧ stack.bytes[left.length]? = some 0 := by
    rw [fputs_singleton, bytes_overwrite short.le, readString_append_eq_iff, List.head?_drop]
  rw [sendsFile_iff_copy, ← read]
  constructor
  · intro sends
    rcases sends with ⟨fuel, bufs, ended, done⟩
    cases fuel with
    | zero => cases ended
    | succ fuel =>
        rw [copy_of_lt short] at ended
        obtain rfl := Option.some.inj ended
        exact done
  · exact fun done => ⟨1, _, copy_of_lt short, done⟩

theorem sendsFile_none : SendsFile stack none ↔ stack.bytes[0]? = some 0 := by
  have read : fputs [stack] = some [] ↔ stack.bytes[0]? = some 0 := by
    have string := @readString_append_eq_iff [] stack.bytes
    rw [fputs_singleton, ← List.head?_eq_getElem?]
    exact string.trans (and_iff_right List.not_mem_nil)
  rw [sendsFile_iff_copy, ← read]
  constructor
  · intro sends
    rcases sends with ⟨fuel, bufs, ended, done⟩
    cases fuel with
    | zero => cases ended
    | succ fuel =>
        obtain rfl := Option.some.inj ended
        exact done
  · exact fun done => ⟨1, _, copy_none 0 stack, done⟩

end fputs

/-- The copy loop ends. The client gets the file exactly if it fits into the array with
room for a NUL, has no NUL itself and happens to find one behind it. -/
theorem sendsFile_iff (stack : Buffer) (file : Option Bytes) :
    (∃ fuel bufs, copy fuel stack file = some bufs) ∧
      (SendsFile stack file ↔ (content file).length < bufsiz ∧ 0 ∉ content file ∧
        stack.bytes[(content file).length]? = some 0) := by
  refine ⟨exists_copy stack file, ?_⟩
  cases file with
  | none =>
      rw [sendsFile_none]
      constructor
      · exact fun zero => ⟨by decide, List.not_mem_nil, zero⟩
      · exact fun holds => holds.2.2
  | some left =>
      by_cases short : left.length < bufsiz
      · rw [sendsFile_of_lt short]
        exact (and_iff_right short).symm
      · refine iff_of_false ?_ fun holds => short holds.1
        rw [sendsFile_iff_copy]
        rintro ⟨fuel, bufs, ended, done⟩
        exact not_fputs_of_le (Nat.le_of_not_lt short) ended done

/-- A page of 8192 letters is not sent, even if the array is clear before. -/
theorem not_sendsFile_page : ¬SendsFile Buffer.zeroed (some (List.replicate bufsiz 97)) := by
  rw [sendsFile_iff_copy]
  rintro ⟨fuel, bufs, ended, done⟩
  exact not_fputs_of_le List.length_replicate.ge ended done

end SendData

end RaspberryPi.WebServer
