import RaspberryPi.ChatServer.Types

/-! # Command recognition

`check_command` of `comm.c`, and the word it recognises. -/

namespace RaspberryPi.ChatServer

open CString

def colon : UInt8 := 58

def newline : UInt8 := 10

def space : UInt8 := 32

def slash : UInt8 := 47

def bang : UInt8 := 33

namespace Word

def add : Bytes := ascii ['a', 'd', 'd']

def join : Bytes := ascii ['j', 'o', 'i', 'n']

def rm : Bytes := ascii ['r', 'm']

def list : Bytes := ascii ['l', 'i', 's', 't']

def users : Bytes := ascii ['u', 's', 'e', 'r', 's']

def leave : Bytes := ascii ['l', 'e', 'a', 'v', 'e']

def whisper : Bytes := ascii ['w', 'h', 'i', 's', 'p', 'e', 'r']

end Word

private def checkWord (rest command : Bytes) : Option Bool := do
  if ← strncmp rest (command ++ [0]) command.length then
    let charAfterCommand ← rest[command.length]?
    pure (charAfterCommand == space || charAfterCommand == 0 ||
      charAfterCommand == newline)
  else pure false

/-- `check_command(mesg, command)`; `none` when it would read past the array. -/
def checkCommand (mesg command : Bytes) : Option Bool :=
  match mesg with
  | [] => none
  | first :: rest =>
      if first = slash then checkWord rest command
      else if first = bang then checkWord rest command
      else some false

/-- The word after the command mark, up to a space, a newline or the end. -/
def commandWord : Bytes → Option Bytes
  | [] => none
  | first :: rest =>
      if first = slash ∨ first = bang then
        some (rest.takeWhile fun byte => byte != space && byte != newline)
      else none

def IsWord (word : Bytes) : Prop := 0 ∉ word ∧ space ∉ word ∧ newline ∉ word

instance (word : Bytes) : Decidable (IsWord word) :=
  inferInstanceAs (Decidable (_ ∧ _))

private theorem checkWord_eq {rest word : Bytes} (tail : Bytes) (noNul : 0 ∉ rest)
    (isWord : IsWord word) :
    checkWord (rest ++ 0 :: tail) word =
      some (decide (rest.takeWhile (fun byte => byte != space && byte != newline) = word)) := by
  have wordKept : ∀ byte ∈ word, (byte != space && byte != newline) = true := by
    intro byte member
    have notSpace : byte ≠ space := fun equal => isWord.2.1 (equal ▸ member)
    have notNewline : byte ≠ newline := fun equal => isWord.2.2 (equal ▸ member)
    simp [notSpace, notNewline]
  rw [checkWord, strncmp_append tail [0] noNul isWord.1]
  by_cases isPrefix : word <+: rest
  · rcases isPrefix with ⟨after, rfl⟩
    rw [List.takeWhile_append_of_pos wordKept]
    have afterNoNul : 0 ∉ after := fun member => noNul (by simp [member])
    cases after with
    | nil => simp
    | cons next others =>
        have nextNonzero : next ≠ 0 := fun equal => afterNoNul (by simp [equal])
        by_cases stops : next = space ∨ next = newline
        · rcases stops with rfl | rfl <;> simp
        · simp only [not_or] at stops
          simp [stops.1, stops.2, nextNonzero]
  · have differs : rest.takeWhile (fun byte => byte != space && byte != newline) ≠ word :=
      fun equal => isPrefix (equal ▸ List.takeWhile_prefix _)
    simp [isPrefix, differs]

theorem checkCommand_eq {line word : Bytes} (tail : Bytes) (noNul : 0 ∉ line)
    (isWord : IsWord word) :
    checkCommand (line ++ 0 :: tail) word = some (decide (commandWord line = some word)) := by
  cases line with
  | nil => simp [checkCommand, commandWord, slash, bang]
  | cons first rest =>
      simp only [List.mem_cons, not_or] at noNul
      have checked := checkWord_eq tail noNul.2 isWord
      by_cases isSlash : first = slash
      · simp [checkCommand, commandWord, isSlash, checked]
      · by_cases isBang : first = bang
        · simp [checkCommand, commandWord, isBang, checked]
        · simp [checkCommand, commandWord, isSlash, isBang]

def argument (word line : Bytes) : Bytes := line.drop (word.length + 2)

theorem eq_of_commandWord {line word : Bytes} (found : commandWord line = some word) :
    ∃ mark, (mark = slash ∨ mark = bang) ∧
      (line = mark :: word ∨
        ∃ separator, (separator = space ∨ separator = newline) ∧
          line = mark :: (word ++ separator :: argument word line)) := by
  cases line with
  | nil => simp [commandWord] at found
  | cons mark rest =>
      by_cases isMark : mark = slash ∨ mark = bang
      · refine ⟨mark, isMark, ?_⟩
        rw [commandWord, if_pos isMark, Option.some.injEq] at found
        have split := List.takeWhile_append_dropWhile
          (p := fun byte => byte != space && byte != newline) (l := rest)
        have stopped := List.head?_dropWhile_not
          (fun byte => byte != space && byte != newline) rest
        rw [found] at split
        cases after : rest.dropWhile (fun byte => byte != space && byte != newline) with
        | nil =>
            left
            rw [← split, after, List.append_nil]
        | cons separator others =>
            right
            refine ⟨separator, ?_, ?_⟩
            · rw [after] at stopped
              simpa [imp_iff_not_or] using stopped
            · have dropped : argument word (mark :: rest) = others := by
                rw [argument, ← split, after]
                simp [List.drop_append]
              rw [dropped, ← split, after]
      · simp [commandWord, isMark] at found

/-- The string at the fixed offset at which a branch looks for its argument. -/
def argumentAt (word content : Bytes) : Bytes := text (content.drop (2 + word.length))

theorem drop_offset {line word : Bytes} (rest : Bytes) (found : commandWord line = some word) :
    (line ++ 0 :: rest).drop (2 + word.length) =
      if line.length = word.length + 1 then rest else argument word line ++ 0 :: rest := by
  rcases eq_of_commandWord found with ⟨mark, _, bare | ⟨separator, _, full⟩⟩
  · subst bare
    have offset : 2 + word.length = (mark :: word ++ [0]).length := by
      simp
      omega
    have memory : mark :: word ++ 0 :: rest = (mark :: word ++ [0]) ++ rest := by simp
    rw [if_pos (by simp), offset, memory, List.drop_left]
  · have length := congrArg List.length full
    simp only [List.length_cons, List.length_append] at length
    have offset : 2 + word.length = (mark :: (word ++ [separator])).length := by
      simp
      omega
    have memory : line ++ 0 :: rest =
        mark :: (word ++ [separator]) ++ (argument word line ++ 0 :: rest) := by
      conv => lhs; rw [full]
      simp
    rw [if_neg (by omega), offset, memory, List.drop_left]

theorem zero_notMem_argument {line : Bytes} (word : Bytes) (noNul : 0 ∉ line) :
    0 ∉ argument word line := fun member => noNul (List.mem_of_mem_drop member)

/-- Behind a line with an argument the fixed offset is the argument; behind a
bare command it is past the terminator. -/
theorem argumentAt_eq {line word : Bytes} (rest : Bytes) (noNul : 0 ∉ line)
    (found : commandWord line = some word) :
    argumentAt word (line ++ 0 :: rest) =
      if line.length = word.length + 1 then text rest else argument word line := by
  rw [argumentAt, drop_offset rest found]
  by_cases bare : line.length = word.length + 1
  · rw [if_pos bare, if_pos bare]
  · rw [if_neg bare, if_neg bare, text_append_nul rest (zero_notMem_argument word noNul)]

end RaspberryPi.ChatServer
