import RaspberryPi.Foundation.CString

/-! # The file name of a request in `webserver.c`

`clnt_connection` copies the path of the request into `filename` and then moves
it to the left inside that array, so that `open` gets no absolute path. The loop
looks at `filename[0]`, which its first round overwrites. -/

namespace RaspberryPi.WebServer

open CString

def bufsiz : Nat := 8192

def slash : UInt8 := 47

def store (filename : Bytes) (index : Nat) (byte : UInt8) : Option Bytes :=
  if index < filename.length then some (filename.set index byte) else none

structure Buffer where
  bytes : Bytes
  size : bytes.length = bufsiz

def Buffer.zeroed : Buffer := ⟨List.replicate bufsiz 0, List.length_replicate⟩

structure Moved where
  filename : Bytes
  stoppedAt : Option Nat
  deriving DecidableEq

/-- The copy loop with its counters, `rounds` before `i` reaches `BUFSIZ`; `none`
where it leaves the array. -/
def moveLeft : Nat → Bytes → Nat → Nat → Option Moved
  | 0, filename, _, _ => some ⟨filename, none⟩
  | rounds + 1, filename, i, j => do
      let j := if filename[0]? = some slash then j + 1 else j
      let byte ← filename[j]?
      let filename ← store filename i byte
      if byte = 0 then some ⟨filename, some j⟩ else moveLeft rounds filename (i + 1) (j + 1)

/-- `strcpy(filename, path)` and what follows it, where `stack` is what the array
held before. -/
def clntConnection (stack : Buffer) (path : Bytes) : Option Moved :=
  let filename := path ++ 0 :: stack.bytes.drop (path.length + 1)
  if filename[0]? = some slash then moveLeft bufsiz filename 0 0 else some ⟨filename, none⟩

/-- The loop stays inside of the array, stops at the end of the path and leaves
the path without its leading slashes. -/
def StripsSlashes (stack : Buffer) (path : Bytes) : Prop :=
  ∃ moved, clntConnection stack path = some moved ∧ moved.stoppedAt = some path.length ∧
    text moved.filename = path.dropWhile (· == slash)

section rounds

variable {rounds i j : Nat} {filename : Bytes}

theorem moveLeft_of_slash {byte : UInt8} (first : filename[0]? = some slash)
    (found : filename[j + 1]? = some byte) (inside : i < filename.length) :
    moveLeft (rounds + 1) filename i j =
      if byte = 0 then some ⟨filename.set i byte, some (j + 1)⟩
      else moveLeft rounds (filename.set i byte) (i + 1) (j + 2) := by
  simp [moveLeft, first, found, store, inside]

theorem moveLeft_of_ne_slash {byte : UInt8} (first : filename[0]? ≠ some slash)
    (found : filename[j]? = some byte) (inside : i < filename.length) :
    moveLeft (rounds + 1) filename i j =
      if byte = 0 then some ⟨filename.set i byte, some j⟩
      else moveLeft rounds (filename.set i byte) (i + 1) (j + 1) := by
  simp [moveLeft, first, found, store, inside]

/-- Behind another first byte than a slash a round moves one byte by one place.
`last` is the byte that was moved before. -/
theorem moveLeft_one {first last byte : UInt8} {copied memory : Bytes} (other : first ≠ slash) :
    moveLeft (rounds + 1) (first :: copied ++ last :: byte :: memory)
        (copied.length + 1) (copied.length + 2) =
      if byte = 0 then
        some ⟨first :: copied ++ byte :: byte :: memory, some (copied.length + 2)⟩
      else
        moveLeft rounds (first :: (copied ++ [byte]) ++ byte :: memory)
          ((copied ++ [byte]).length + 1) ((copied ++ [byte]).length + 2) := by
  have head : (first :: copied ++ last :: byte :: memory)[0]? ≠ some slash := by
    simpa using other
  have next : (first :: copied ++ last :: byte :: memory)[copied.length + 2]? = some byte := by
    simp
  have inside : copied.length + 1 < (first :: copied ++ last :: byte :: memory).length := by
    simp
  have moved : (first :: copied ++ last :: byte :: memory).set (copied.length + 1) byte =
      first :: copied ++ byte :: byte :: memory := by
    simp
  rw [moveLeft_of_ne_slash head next inside, moved]
  simp

theorem moveLeft_pending {first last : UInt8} {copied pending rest : Bytes}
    (other : first ≠ slash) (noNul : 0 ∉ pending) (enough : pending.length < rounds) :
    moveLeft rounds (first :: copied ++ last :: (pending ++ 0 :: rest))
        (copied.length + 1) (copied.length + 2) =
      some ⟨first :: copied ++ pending ++ 0 :: 0 :: rest,
        some (copied.length + 2 + pending.length)⟩ := by
  induction pending generalizing copied last rounds with
  | nil =>
      cases rounds with
      | zero => exact absurd enough (Nat.not_lt_zero _)
      | succ rounds =>
          rw [List.nil_append, moveLeft_one other, if_pos rfl]
          simp
  | cons byte pending induction =>
      rw [List.mem_cons, not_or] at noNul
      cases rounds with
      | zero => exact absurd enough (Nat.not_lt_zero _)
      | succ rounds =>
          have split : byte :: pending ++ 0 :: rest = byte :: (pending ++ 0 :: rest) := rfl
          rw [split, moveLeft_one other, if_neg (Ne.symm noNul.1),
            induction noNul.2 (Nat.lt_of_succ_lt_succ enough)]
          simp only [List.length_append, List.length_cons, List.length_nil]
          congr 2
          · simp
          · simp; omega

theorem head?_moveLeft {memory : Bytes} {moved : Moved}
    (ended : moveLeft rounds (slash :: memory) (i + 1) j = some moved) :
    moved.filename.head? = some slash := by
  induction rounds generalizing memory i j with
  | zero =>
      obtain rfl := Option.some.inj ended
      rfl
  | succ rounds induction =>
      rcases Option.bind_eq_some_iff.mp ended with ⟨byte, _, stored⟩
      rcases Option.bind_eq_some_iff.mp stored with ⟨filename, written, went⟩
      have kept : filename = slash :: memory.set i byte := by
        unfold store at written
        split_ifs at written
        exact (Option.some.inj written).symm
      subst kept
      by_cases zero : byte = 0
      · rw [if_pos zero] at went
        obtain rfl := Option.some.inj went
        rfl
      · rw [if_neg zero] at went
        exact induction went

end rounds

section path

variable {stack : Buffer} {tail : Bytes}

theorem clntConnection_of_slash (memory : Bytes) (byte : UInt8)
    (followed : tail ++ 0 :: stack.bytes.drop (tail.length + 2) = byte :: memory) :
    clntConnection stack (slash :: tail) =
      if byte = 0 then some ⟨byte :: byte :: memory, some 1⟩
      else moveLeft (bufsiz - 1) (byte :: byte :: memory) 1 2 := by
  have begins : clntConnection stack (slash :: tail) =
      moveLeft bufsiz (slash :: byte :: memory) 0 0 := by
    simp [clntConnection, followed]
  rcases Nat.exists_eq_succ_of_ne_zero (show bufsiz ≠ 0 by decide) with ⟨rounds, size⟩
  rw [begins, size, moveLeft_of_slash rfl rfl (Nat.succ_pos _)]
  rfl

theorem stripsSlashes_of_one (noNul : 0 ∉ tail) (short : tail.length + 1 < bufsiz)
    (one : tail.head? ≠ some slash) : StripsSlashes stack (slash :: tail) := by
  cases tail with
  | nil =>
      have ran := clntConnection_of_slash _ _ (List.nil_append (0 :: stack.bytes.drop 2))
      exact ⟨_, ran, rfl, rfl⟩
  | cons first pending =>
      rw [List.mem_cons, not_or] at noNul
      have other : first ≠ slash := by simpa using one
      have enough : pending.length < bufsiz - 1 := by
        rw [List.length_cons] at short
        omega
      let rest := stack.bytes.drop (pending.length + 3)
      have ran := @clntConnection_of_slash stack (first :: pending) (pending ++ 0 :: rest) first rfl
      have moved := @moveLeft_pending _ first first [] _ rest other noNul.2 enough
      rw [if_neg (Ne.symm noNul.1)] at ran
      refine ⟨_, ran.trans moved, ?_, ?_⟩
      · simp only [List.length_nil, List.length_cons]
        congr 1
        omega
      · have kept : 0 ∉ [first] ++ pending := by simpa using noNul
        rw [text_append_nul _ kept]
        simp [other]

theorem not_stripsSlashes_of_two : ¬StripsSlashes stack (slash :: slash :: tail) := by
  rintro ⟨moved, ran, _, stripped⟩
  let rest := stack.bytes.drop (tail.length + 3)
  have loop := @clntConnection_of_slash stack (slash :: tail) (tail ++ 0 :: rest) slash rfl
  rw [loop, if_neg (by decide)] at ran
  have first := head?_moveLeft ran
  have head := List.head?_dropWhile_not (· == slash) (slash :: slash :: tail)
  rw [← stripped] at head
  cases remaining : moved.filename with
  | nil => simp [remaining] at first
  | cons byte memory =>
      obtain rfl : byte = slash := by simpa [remaining] using first
      simp [remaining, text_cons_of_ne memory (show slash ≠ 0 by decide)] at head

end path

/-- The path is stripped, by a loop that stays in the array and stops at the end of
the path, exactly when it does not begin with two slashes. -/
theorem stripsSlashes_iff (stack : Buffer) (path : Bytes) (noNul : 0 ∉ path)
    (absolute : path.head? = some slash) (short : path.length < bufsiz) :
    StripsSlashes stack path ↔ path[1]? ≠ some slash := by
  rcases List.head?_eq_some_iff.mp absolute with ⟨tail, rfl⟩
  rw [List.getElem?_cons_succ, ← List.head?_eq_getElem?]
  constructor
  · intro strips two
    rcases List.head?_eq_some_iff.mp two with ⟨more, rfl⟩
    exact not_stripsSlashes_of_two strips
  · intro one
    have tailNoNul : 0 ∉ tail := fun member => noNul (List.mem_cons_of_mem _ member)
    exact stripsSlashes_of_one tailNoNul short one

theorem stripsSlashes_iff_index :
    StripsSlashes Buffer.zeroed (ascii ['/', 'i']) ↔ (ascii ['/', 'i'])[1]? ≠ some slash :=
  stripsSlashes_iff Buffer.zeroed (ascii ['/', 'i']) (by decide) (by decide) (by decide)

theorem not_stripsSlashes_twoSlashes : ¬StripsSlashes Buffer.zeroed (ascii ['/', '/', 'a']) :=
  not_stripsSlashes_of_two

end RaspberryPi.WebServer
