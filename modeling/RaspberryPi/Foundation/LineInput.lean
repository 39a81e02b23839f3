import Mathlib.Data.List.Basic

/-! # Input by lines

An input of bytes in which a line ends with its newline, or with the input. -/

namespace RaspberryPi.LineInput

variable {Byte : Type u} [DecidableEq Byte] {newline : Byte}

def lines (newline : Byte) : List Byte → List (List Byte)
  | [] => []
  | byte :: rest =>
      if byte = newline then [byte] :: lines newline rest
      else match lines newline rest with
        | [] => [[byte]]
        | line :: others => (byte :: line) :: others

/-- What `fgets` takes of the input when it has room for `count` bytes, and what it
leaves. -/
def fgets (newline : Byte) : Nat → List Byte → List Byte × List Byte
  | 0, input => ([], input)
  | _ + 1, [] => ([], [])
  | count + 1, byte :: rest =>
      if byte = newline then ([byte], rest)
      else (byte :: (fgets newline count rest).1, (fgets newline count rest).2)

@[simp] theorem fgets_nil (count : Nat) : fgets newline count [] = ([], []) := by
  cases count with
  | zero => rfl
  | succ count => rfl

theorem length_fgets_le (newline : Byte) (count : Nat) (input : List Byte) :
    (fgets newline count input).1.length ≤ count := by
  induction input generalizing count with
  | nil => simp
  | cons byte rest induction =>
      cases count with
      | zero => exact Nat.le_refl 0
      | succ count =>
          rw [fgets]
          split_ifs
          · exact Nat.succ_le_succ (Nat.zero_le count)
          · exact Nat.succ_le_succ (induction count)

@[simp] theorem lines_newline (rest : List Byte) :
    lines newline (newline :: rest) = [newline] :: lines newline rest := by
  rw [lines, if_pos rfl]

theorem lines_last {byte : Byte} (other : byte ≠ newline) : lines newline [byte] = [[byte]] := by
  rw [lines, if_neg other]
  rfl

theorem lines_longer {byte : Byte} {rest line : List Byte} {others : List (List Byte)}
    (other : byte ≠ newline) (split : lines newline rest = line :: others) :
    lines newline (byte :: rest) = (byte :: line) :: others := by
  rw [lines, if_neg other, split]

theorem flatten_lines (newline : Byte) (input : List Byte) :
    (lines newline input).flatten = input := by
  induction input with
  | nil => rfl
  | cons byte rest induction =>
      by_cases isNewline : byte = newline
      · subst isNewline
        rw [lines_newline, List.flatten_cons, induction, List.singleton_append]
      · cases later : lines newline rest with
        | nil =>
            rw [later] at induction
            obtain rfl : rest = [] := induction.symm
            rw [lines_last isNewline]
            rfl
        | cons line others =>
            rw [later, List.flatten_cons] at induction
            rw [lines_longer isNewline later, List.flatten_cons, List.cons_append, induction]

theorem eq_nil_of_lines_eq_nil {input : List Byte} (none : lines newline input = []) :
    input = [] := by
  rw [← flatten_lines newline input, none, List.flatten_nil]

/-- Induction over the first line of an input. -/
theorem lines_induction {motive : List Byte → List Byte → List (List Byte) → Prop}
    (ends : ∀ rest, motive (newline :: rest) [newline] (lines newline rest))
    (last : ∀ byte, byte ≠ newline → motive [byte] [byte] [])
    (longer : ∀ byte rest line others, byte ≠ newline → lines newline rest = line :: others →
      motive rest line others → motive (byte :: rest) (byte :: line) others)
    {input line : List Byte} {others : List (List Byte)}
    (split : lines newline input = line :: others) : motive input line others := by
  induction input generalizing line others with
  | nil => cases split
  | cons byte rest induction =>
      by_cases isNewline : byte = newline
      · subst isNewline
        rw [lines_newline] at split
        cases split
        exact ends rest
      · cases later : lines newline rest with
        | nil =>
            obtain rfl := eq_nil_of_lines_eq_nil later
            rw [lines_last isNewline] at split
            cases split
            exact last byte isNewline
        | cons first more =>
            rw [lines_longer isNewline later] at split
            cases split
            exact longer byte rest first others isNewline later (induction later)

variable {input line : List Byte} {others : List (List Byte)}

theorem lines_flatten_others (split : lines newline input = line :: others) :
    lines newline others.flatten = others := by
  apply lines_induction (motive := fun _ _ others => lines newline others.flatten = others)
    _ _ _ split
  · intro rest
    rw [flatten_lines]
  · exact fun byte other => rfl
  · exact fun byte rest line others other later induction => induction

theorem fgets_of_fits {count : Nat} (split : lines newline input = line :: others)
    (fits : line.length ≤ count) : fgets newline count input = (line, others.flatten) := by
  have taken : ∀ count, line.length ≤ count →
      fgets newline count input = (line, others.flatten) := by
    apply lines_induction (motive := fun input line others => ∀ count, line.length ≤ count →
      fgets newline count input = (line, others.flatten)) _ _ _ split
    · intro rest count fits
      cases count with
      | zero => cases fits
      | succ count => rw [fgets, if_pos rfl, flatten_lines]
    · intro byte other count fits
      cases count with
      | zero => cases fits
      | succ count =>
          rw [fgets, if_neg other, fgets_nil]
          rfl
    · intro byte rest line others other later induction count fits
      cases count with
      | zero => cases fits
      | succ count =>
          rw [fgets, if_neg other, induction count (Nat.le_of_succ_le_succ fits)]
  exact taken count fits

theorem ne_nil_of_lines (split : lines newline input = line :: others) : line ≠ [] := by
  apply lines_induction (motive := fun _ line _ => line ≠ []) _ _ _ split
  · exact fun rest => List.cons_ne_nil _ _
  · exact fun byte other => List.cons_ne_nil _ _
  · exact fun byte rest line others other later induction => List.cons_ne_nil _ _

theorem newline_notMem_dropLast (split : lines newline input = line :: others) :
    newline ∉ line.dropLast := by
  apply lines_induction (motive := fun _ line _ => newline ∉ line.dropLast) _ _ _ split
  · exact fun rest => List.not_mem_nil
  · exact fun byte other => List.not_mem_nil
  · intro byte rest line others other later induction
    rw [List.dropLast_cons_of_ne_nil (ne_nil_of_lines later), List.mem_cons, not_or]
    exact ⟨Ne.symm other, induction⟩

/-- Of a line that does not fit as much is taken as does; the rest of it is the next
line. -/
theorem fgets_of_longer {count : Nat} (split : lines newline input = line :: others)
    (longer : count < line.length) :
    fgets newline count input = (line.take count, line.drop count ++ others.flatten) ∧
      lines newline (line.drop count ++ others.flatten) = line.drop count :: others := by
  have taken : ∀ count, count < line.length →
      fgets newline count input = (line.take count, line.drop count ++ others.flatten) ∧
        lines newline (line.drop count ++ others.flatten) = line.drop count :: others := by
    apply lines_induction (motive := fun input line others => ∀ count, count < line.length →
      fgets newline count input = (line.take count, line.drop count ++ others.flatten) ∧
        lines newline (line.drop count ++ others.flatten) = line.drop count :: others)
      _ _ _ split
    · intro rest count short
      obtain rfl : count = 0 := Nat.lt_one_iff.mp short
      rw [List.drop_zero, flatten_lines]
      exact ⟨rfl, lines_newline rest⟩
    · intro byte other count short
      obtain rfl : count = 0 := Nat.lt_one_iff.mp short
      exact ⟨rfl, lines_last other⟩
    · intro byte rest line others other later induction count short
      cases count with
      | zero =>
          have whole : rest = line ++ others.flatten := by
            rw [← flatten_lines newline rest, later, List.flatten_cons]
          rw [List.drop_zero, List.cons_append, ← whole]
          exact ⟨rfl, lines_longer other later⟩
      | succ count =>
          rcases induction count (Nat.lt_of_succ_lt_succ short) with ⟨took, left⟩
          rw [fgets, if_neg other, took]
          exact ⟨rfl, left⟩
  exact taken count longer

end RaspberryPi.LineInput
