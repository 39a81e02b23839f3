import Mathlib.Data.List.TakeWhile
import Mathlib.Data.List.Infix

/-! # C strings in memory

A `char *` is modelled by the memory from it on, up to the end of the array it
points into. The string there is what stands before the first NUL. A function
of `string.h` that would run past the end of the array returns `none`; each
comes with its meaning on a terminated string, written `string ++ 0 :: tail`. -/

namespace RaspberryPi

abbrev Bytes := List UInt8

namespace CString

def ascii (characters : List Char) : Bytes :=
  characters.map fun character => UInt8.ofNat character.toNat

/-- The string at the start of `memory`. -/
def text (memory : Bytes) : Bytes := memory.takeWhile (· != 0)

@[simp] theorem text_nil : text [] = [] := rfl

theorem text_append_nul {string : Bytes} (tail : Bytes) (noNul : 0 ∉ string) :
    text (string ++ 0 :: tail) = string := by
  have kept : ∀ byte ∈ string, (byte != 0) = true := by
    intro byte member
    simpa using fun equal : byte = 0 => noNul (equal ▸ member)
  simp [text, List.takeWhile_append_of_pos kept]

theorem zero_notMem_text (memory : Bytes) : 0 ∉ text memory := fun member => by
  simpa using List.mem_takeWhile_imp member

theorem zero_notMem_joined {left right : Bytes} {separator : UInt8} (leftNoNul : 0 ∉ left)
    (nonzero : 0 ≠ separator) (rightNoNul : 0 ∉ right) : 0 ∉ left ++ separator :: right := by
  apply List.not_mem_append leftNoNul
  exact List.not_mem_cons_of_ne_of_not_mem nonzero rightNoNul

theorem text_eq_self {string : Bytes} (noNul : 0 ∉ string) : text string = string := by
  rw [text, List.takeWhile_eq_self_iff]
  intro byte member
  simpa using fun equal : byte = 0 => noNul (equal ▸ member)

theorem text_append_of_notMem {string : Bytes} (rest : Bytes) (noNul : 0 ∉ string) :
    text (string ++ rest) = string ++ text rest := by
  apply List.takeWhile_append_of_pos
  intro byte member
  simpa using fun equal : byte = 0 => noNul (equal ▸ member)

@[simp] theorem text_zero_cons (tail : Bytes) : text (0 :: tail) = [] := rfl

theorem text_cons_of_ne {byte : UInt8} (tail : Bytes) (nonzero : byte ≠ 0) :
    text (byte :: tail) = byte :: text tail := by
  simp [text, nonzero]

theorem text_eq_nil_iff {memory : Bytes} : text memory = [] ↔ memory.headD 0 = 0 := by
  cases memory with
  | nil => simp
  | cons byte tail =>
      by_cases zero : byte = 0
      · subst zero
        simp
      · simp [text_cons_of_ne tail zero, zero]

theorem exists_eq_text_append {memory : Bytes} (terminated : 0 ∈ memory) :
    ∃ tail, memory = text memory ++ 0 :: tail := by
  rcases List.eq_append_cons_of_mem terminated with ⟨string, tail, rfl, noNul⟩
  exact ⟨tail, by rw [text_append_nul tail noNul]⟩

theorem length_text_lt_iff {memory : Bytes} :
    (text memory).length < memory.length ↔ 0 ∈ memory := by
  constructor
  · intro shorter
    by_contra noNul
    rw [text_eq_self noNul] at shorter
    exact Nat.lt_irrefl _ shorter
  · intro terminated
    rcases exists_eq_text_append terminated with ⟨tail, split⟩
    have length := congrArg List.length split
    rw [List.length_append, List.length_cons] at length
    omega

theorem text_take (memory : Bytes) (count : Nat) :
    text (memory.take count) = (text memory).take count :=
  List.take_takeWhile.symm

theorem text_append_zero (memory tail : Bytes) : text (memory ++ 0 :: tail) = text memory := by
  by_cases terminated : 0 ∈ memory
  · rcases exists_eq_text_append terminated with ⟨rest, split⟩
    rw [split, List.append_assoc, List.cons_append,
      text_append_nul _ (zero_notMem_text memory), text_append_nul _ (zero_notMem_text memory)]
  · rw [text_append_nul tail terminated, text_eq_self terminated]

theorem exists_append_nul_eq (received stale : Bytes) :
    ∃ tail, received ++ 0 :: stale = text received ++ 0 :: tail := by
  by_cases terminated : 0 ∈ received
  · rcases List.eq_append_cons_of_mem terminated with ⟨string, tail, rfl, noNul⟩
    exact ⟨tail ++ 0 :: stale, by rw [text_append_nul tail noNul]; simp⟩
  · exact ⟨stale, by rw [text_eq_self terminated]⟩

theorem prefix_append_nul_iff {word string : Bytes} (tail : Bytes) (wordNoNul : 0 ∉ word) :
    word <+: string ++ 0 :: tail ↔ word <+: string := by
  induction word generalizing string with
  | nil => simp
  | cons byte rest induction =>
      rw [List.mem_cons, not_or] at wordNoNul
      cases string with
      | nil => simp [List.cons_prefix_cons, Ne.symm wordNoNul.1]
      | cons other others =>
          rw [List.cons_append, List.cons_prefix_cons, List.cons_prefix_cons,
            induction wordNoNul.2]

def strchr : Bytes → UInt8 → Option Nat
  | [], _ => none
  | byte :: rest, character =>
      if byte = character then some 0
      else if byte = 0 then none
      else (strchr rest character).map (· + 1)

/-- `if ((p = strchr(s, character))) *p = '\0';` -/
def cutAt (memory : Bytes) (character : UInt8) : Bytes :=
  match strchr memory character with
  | some offset => memory.set offset 0
  | none => memory

theorem strchr_eq_none {string : Bytes} {character : UInt8} (tail : Bytes)
    (nonzero : character ≠ 0) (absent : character ∉ string) :
    strchr (string ++ 0 :: tail) character = none := by
  induction string with
  | nil => simp [strchr, Ne.symm nonzero]
  | cons byte rest induction =>
      simp only [List.mem_cons, not_or] at absent
      simp [strchr, Ne.symm absent.1, induction absent.2]

theorem strchr_eq_some {before : Bytes} {character : UInt8} (after : Bytes)
    (noNul : 0 ∉ before) (absent : character ∉ before) :
    strchr (before ++ character :: after) character = some before.length := by
  induction before with
  | nil => simp [strchr]
  | cons byte rest induction =>
      simp only [List.mem_cons, not_or] at noNul absent
      simp [strchr, Ne.symm absent.1, Ne.symm noNul.1, induction noNul.2 absent.2]

theorem cutAt_of_notMem {string : Bytes} {character : UInt8} (tail : Bytes)
    (nonzero : character ≠ 0) (absent : character ∉ string) :
    cutAt (string ++ 0 :: tail) character = string ++ 0 :: tail := by
  rw [cutAt, strchr_eq_none tail nonzero absent]

theorem cutAt_append {before : Bytes} {character : UInt8} (after : Bytes)
    (noNul : 0 ∉ before) (absent : character ∉ before) :
    cutAt (before ++ character :: after) character = before ++ 0 :: after := by
  simp [cutAt, strchr_eq_some after noNul absent]

/-! ## Comparison and copy -/

/-- Whether `strcmp` returns 0. -/
def strcmp : Bytes → Bytes → Option Bool
  | left :: lefts, right :: rights =>
      if left ≠ right then some false
      else if left = 0 then some true
      else strcmp lefts rights
  | _, _ => none

def strncmp : Bytes → Bytes → Nat → Option Bool
  | _, _, 0 => some true
  | left :: lefts, right :: rights, count + 1 =>
      if left ≠ right then some false
      else if left = 0 then some true
      else strncmp lefts rights count
  | _, _, _ + 1 => none

/-- The bytes `strncpy` takes from its source before it pads with NULs. -/
def strncpy : Bytes → Nat → Option Bytes
  | _, 0 => some []
  | [], _ + 1 => none
  | byte :: rest, count + 1 =>
      if byte = 0 then some [] else (strncpy rest count).map (byte :: ·)

def readString (memory : Bytes) : Option Bytes :=
  if 0 ∈ memory then some (text memory) else none

/-- What `snprintf` leaves of a formatted string in an array of `size` bytes. -/
def snprintf (size : Nat) (formatted : Bytes) : Bytes := formatted.take (size - 1)

theorem strcmp_append {left right : Bytes} (leftTail rightTail : Bytes)
    (leftNoNul : 0 ∉ left) (rightNoNul : 0 ∉ right) :
    strcmp (left ++ 0 :: leftTail) (right ++ 0 :: rightTail) =
      some (decide (left = right)) := by
  induction left generalizing right with
  | nil =>
      cases right with
      | nil => simp [strcmp]
      | cons byte rest =>
          have nonzero : ¬0 = byte := fun equal => rightNoNul (by simp [equal])
          simp [strcmp, nonzero]
  | cons byte rest induction =>
      simp only [List.mem_cons, not_or] at leftNoNul
      cases right with
      | nil => simp [strcmp, Ne.symm leftNoNul.1]
      | cons other others =>
          simp only [List.mem_cons, not_or] at rightNoNul
          by_cases equal : byte = other
          · subst equal
            simp [strcmp, Ne.symm leftNoNul.1, induction leftNoNul.2 rightNoNul.2]
          · simp [strcmp, equal]

theorem strcmp_eq {left right : Bytes} (leftTerminated : 0 ∈ left)
    (rightTerminated : 0 ∈ right) :
    strcmp left right = some (decide (text left = text right)) := by
  rcases exists_eq_text_append leftTerminated with ⟨leftTail, leftEqual⟩
  rcases exists_eq_text_append rightTerminated with ⟨rightTail, rightEqual⟩
  have compared := strcmp_append leftTail rightTail
    (zero_notMem_text left) (zero_notMem_text right)
  rwa [← leftEqual, ← rightEqual] at compared

theorem strcmp_eq_some_true_iff {string right : Bytes} (tail : Bytes)
    (noNul : 0 ∉ string) :
    strcmp (string ++ 0 :: tail) right = some true ↔
      ∃ rightTail, right = string ++ 0 :: rightTail := by
  induction string generalizing right with
  | nil =>
      cases right with
      | nil => simp [strcmp]
      | cons other others =>
          by_cases zero : other = 0
          · simp [strcmp, zero]
          · simp [strcmp, zero, Ne.symm zero]
  | cons byte rest induction =>
      simp only [List.mem_cons, not_or] at noNul
      cases right with
      | nil => simp [strcmp]
      | cons other others =>
          by_cases equal : byte = other
          · subst equal
            simp [strcmp, Ne.symm noNul.1, induction noNul.2]
          · simp [strcmp, equal, Ne.symm equal]

/-- Comparing with an equal string that has no terminator runs off its array. -/
theorem strcmp_unterminated {string : Bytes} (tail : Bytes) (noNul : 0 ∉ string) :
    strcmp (string ++ 0 :: tail) string = none := by
  induction string with
  | nil => rfl
  | cons byte rest induction =>
      simp only [List.mem_cons, not_or] at noNul
      simp [strcmp, Ne.symm noNul.1, induction noNul.2]

theorem eq_of_strcmp {left right : Bytes} {answer : Bool} (terminated : 0 ∈ left)
    (compared : strcmp left right = some answer) :
    answer = decide (text left = text right) := by
  by_cases rightTerminated : 0 ∈ right
  · rw [strcmp_eq terminated rightTerminated, Option.some.injEq] at compared
    exact compared.symm
  · rcases exists_eq_text_append terminated with ⟨tail, equal⟩
    have reached := @strcmp_eq_some_true_iff _ right tail (zero_notMem_text left)
    rw [← equal, compared] at reached
    have refused : answer ≠ true := by
      rintro rfl
      rcases reached.mp rfl with ⟨rightTail, rfl⟩
      simp at rightTerminated
    have different : text left ≠ text right := by
      intro same
      rw [text_eq_self rightTerminated] at same
      rw [equal, same, strcmp_unterminated tail rightTerminated] at compared
      simp at compared
    simp [different, refused]

theorem strncmp_append {string word : Bytes} (tail wordTail : Bytes)
    (noNul : 0 ∉ string) (wordNoNul : 0 ∉ word) :
    strncmp (string ++ 0 :: tail) (word ++ wordTail) word.length =
      some (decide (word <+: string)) := by
  induction word generalizing string with
  | nil => simp [strncmp]
  | cons byte rest induction =>
      simp only [List.mem_cons, not_or] at wordNoNul
      cases string with
      | nil => simp [strncmp, wordNoNul.1]
      | cons other others =>
          simp only [List.mem_cons, not_or] at noNul
          by_cases equal : other = byte
          · subst equal
            simp [strncmp, Ne.symm noNul.1, induction noNul.2 wordNoNul.2,
              List.cons_prefix_cons]
          · simp [strncmp, equal, List.cons_prefix_cons, Ne.symm equal]

theorem strncmp_eq_some_true_iff {memory word : Bytes} (wordTail : Bytes)
    (wordNoNul : 0 ∉ word) :
    strncmp memory (word ++ wordTail) word.length = some true ↔ word <+: memory := by
  induction word generalizing memory with
  | nil => simp [strncmp]
  | cons byte rest induction =>
      simp only [List.mem_cons, not_or] at wordNoNul
      cases memory with
      | nil => simp [strncmp]
      | cons other others =>
          by_cases equal : other = byte
          · subst equal
            simp [strncmp, Ne.symm wordNoNul.1, induction wordNoNul.2, List.cons_prefix_cons]
          · simp [strncmp, equal, List.cons_prefix_cons, Ne.symm equal]

theorem strncpy_append {string : Bytes} (tail : Bytes) (count : Nat) (noNul : 0 ∉ string) :
    strncpy (string ++ 0 :: tail) count = some (string.take count) := by
  induction count generalizing string with
  | zero => simp [strncpy]
  | succ count induction =>
      cases string with
      | nil => simp [strncpy]
      | cons byte rest =>
          simp only [List.mem_cons, not_or] at noNul
          simp [strncpy, Ne.symm noNul.1, induction noNul.2]

theorem readString_append {string : Bytes} (tail : Bytes) (noNul : 0 ∉ string) :
    readString (string ++ 0 :: tail) = some string := by
  simp [readString, text_append_nul tail noNul]

theorem zero_notMem_of_readString {memory string : Bytes}
    (read : readString memory = some string) : 0 ∉ string := by
  rw [readString] at read
  split_ifs at read
  rw [← Option.some.inj read]
  exact zero_notMem_text memory

theorem readString_append_eq_iff {string rest : Bytes} :
    readString (string ++ rest) = some string ↔ 0 ∉ string ∧ rest.head? = some 0 := by
  constructor
  · intro read
    have noNul := zero_notMem_of_readString read
    refine ⟨noNul, ?_⟩
    rw [readString] at read
    split_ifs at read with terminated
    have behind : text rest = [] := by
      rw [text_append_of_notMem rest noNul, Option.some.injEq, List.append_right_eq_self] at read
      exact read
    cases rest with
    | nil => exact absurd (by simpa using terminated) noNul
    | cons byte tail => exact congrArg some (text_eq_nil_iff.mp behind)
  · intro holds
    rcases holds with ⟨noNul, next⟩
    rcases List.head?_eq_some_iff.mp next with ⟨tail, rfl⟩
    exact readString_append tail noNul

theorem eq_of_strncpy {memory copied : Bytes} {count : Nat}
    (copy : strncpy memory count = some copied) : copied = (text memory).take count := by
  induction count generalizing memory copied with
  | zero =>
      rw [strncpy, Option.some.injEq] at copy
      simp [← copy]
  | succ count induction =>
      cases memory with
      | nil => simp [strncpy] at copy
      | cons byte rest =>
          by_cases zero : byte = 0
          · rw [strncpy, if_pos zero, Option.some.injEq] at copy
            simp [← copy, zero]
          · rw [strncpy, if_neg zero, Option.map_eq_some_iff] at copy
            rcases copy with ⟨tail, copyTail, rfl⟩
            rw [induction copyTail, text_cons_of_ne rest zero, List.take_succ_cons]

/-! ## Tokens -/

/-- One call of `strtok`: the memory from the token found on, if there is one,
and the memory from the saved position on. A delimiter that ends the token is
overwritten with NUL. -/
def strtok (memory delimiters : Bytes) : Option Bytes × Bytes :=
  let start := memory.dropWhile delimiters.contains
  let token := start.takeWhile fun byte => byte != 0 && !delimiters.contains byte
  if token = [] then (none, start)
  else match start.drop token.length with
    | [] => (some start, [])
    | stop :: rest =>
        if stop = 0 then (some start, stop :: rest)
        else (some (token ++ 0 :: rest), rest)

theorem length_strtok {memory delimiters token saved : Bytes}
    (found : strtok memory delimiters = (some token, saved)) :
    token.length = (memory.dropWhile delimiters.contains).length ∧
      saved.length < token.length := by
  rw [strtok] at found
  generalize memory.dropWhile delimiters.contains = start at found ⊢
  have isPrefix := List.takeWhile_prefix
    (fun byte => byte != 0 && !delimiters.contains byte) (l := start)
  generalize start.takeWhile (fun byte => byte != 0 && !delimiters.contains byte) = word
    at found isPrefix
  rcases isPrefix with ⟨rest, rfl⟩
  rw [List.drop_left] at found
  split_ifs at found with empty
  · cases found
  · have nonempty := List.length_pos_of_ne_nil empty
    cases rest with
    | nil =>
        cases found
        rw [List.append_nil]
        exact ⟨rfl, nonempty⟩
    | cons stop rest =>
        dsimp only at found
        split_ifs at found with zero
        · cases found
          refine ⟨rfl, ?_⟩
          rw [List.length_append]
          omega
        · cases found
          simp only [List.length_append, List.length_cons, true_and]
          omega

private theorem dropWhile_append_nul {string : Bytes} (tail : Bytes)
    {skip : UInt8 → Bool} (stops : skip 0 = false) :
    (string ++ 0 :: tail).dropWhile skip = string.dropWhile skip ++ 0 :: tail := by
  induction string with
  | nil => simp [stops]
  | cons byte rest induction =>
      by_cases skipped : skip byte = true
      · simp [skipped, induction]
      · simp [skipped]

private theorem takeWhile_append_nul {string : Bytes} (tail : Bytes)
    (keep : UInt8 → Bool) (noNul : 0 ∉ string) :
    (string ++ 0 :: tail).takeWhile (fun byte => byte != 0 && keep byte) =
      string.takeWhile keep := by
  induction string with
  | nil => simp
  | cons byte rest induction =>
      simp only [List.mem_cons, not_or] at noNul
      by_cases kept : keep byte = true
      · simp [kept, Ne.symm noNul.1, induction noNul.2]
      · simp [kept]

private theorem drop_length_takeWhile (string tail : Bytes) (keep : UInt8 → Bool) :
    (string ++ tail).drop (string.takeWhile keep).length =
      string.dropWhile keep ++ tail := by
  conv => lhs; rw [← List.takeWhile_append_dropWhile (p := keep) (l := string)]
  rw [List.append_assoc, List.takeWhile_append_dropWhile, List.drop_left]

/-- `strtok` with one delimiter, on a string: leading delimiters are skipped,
the token ends before the next one and the saved string starts after it. -/
theorem strtok_append {string : Bytes} (tail : Bytes) {delimiter : UInt8}
    (noNul : 0 ∉ string) (nonzero : delimiter ≠ 0) :
    strtok (string ++ 0 :: tail) [delimiter] =
      (let start := string.dropWhile (· == delimiter)
      let token := start.takeWhile (· != delimiter)
      match start.dropWhile (· != delimiter) with
      | [] => (if token = [] then none else some (start ++ 0 :: tail), 0 :: tail)
      | _ :: rest => (some (token ++ 0 :: (rest ++ 0 :: tail)), rest ++ 0 :: tail)) := by
  have skips : ([delimiter] : Bytes).contains = (· == delimiter) := by
    funext byte
    simp [Bool.beq_eq_decide_eq]
  have startNoNul : 0 ∉ string.dropWhile (· == delimiter) :=
    fun member => noNul (List.dropWhile_subset _ member)
  have startHead := List.head?_dropWhile_not (· == delimiter) string
  simp only [strtok, skips]
  rw [dropWhile_append_nul tail (by simpa using Ne.symm nonzero)]
  generalize string.dropWhile (· == delimiter) = start at startNoNul startHead ⊢
  have keeps : (fun byte => !([delimiter] : Bytes).contains byte) =
      (· != delimiter) := by
    rw [skips]
    rfl
  rw [takeWhile_append_nul tail _ startNoNul, keeps, drop_length_takeWhile]
  cases start with
  | nil => simp
  | cons first rest =>
      have firstOther : first ≠ delimiter := by simpa using startHead
      have tokenNonempty :
          (first :: rest).takeWhile (· != delimiter) ≠ [] := by simp [firstOther]
      simp only [if_neg tokenNonempty]
      cases remaining : (first :: rest).dropWhile (· != delimiter) with
      | nil => simp
      | cons stop after =>
          have stopHead := List.head?_dropWhile_not (· != delimiter) (first :: rest)
          have stopEqual : stop = delimiter := by simpa [remaining] using stopHead
          subst stopEqual
          simp [nonzero]

theorem strtok_eq_none_iff {string : Bytes} (tail : Bytes) {delimiter : UInt8}
    (noNul : 0 ∉ string) (nonzero : delimiter ≠ 0) :
    (strtok (string ++ 0 :: tail) [delimiter]).1 = none ↔ ∀ byte ∈ string, byte = delimiter := by
  have startHead := List.head?_dropWhile_not (· == delimiter) string
  have nothing : string.dropWhile (· == delimiter) = [] ↔ ∀ byte ∈ string, byte = delimiter := by
    simp [List.dropWhile_eq_nil_iff]
  rw [strtok_append tail noNul nonzero, ← nothing]
  generalize string.dropWhile (· == delimiter) = start at startHead ⊢
  cases start with
  | nil => simp
  | cons first rest =>
      have firstOther : first ≠ delimiter := by simpa using startHead
      have token : (first :: rest).takeWhile (· != delimiter) ≠ [] := by simp [firstOther]
      dsimp only
      rw [if_neg token]
      split
      · simp
      · simp

theorem strtok_saved {string : Bytes} (tail : Bytes) {delimiter : UInt8}
    (noNul : 0 ∉ string) (nonzero : delimiter ≠ 0) :
    (strtok (string ++ 0 :: tail) [delimiter]).2 =
      ((string.dropWhile (· == delimiter)).dropWhile (· != delimiter)).tail ++
        0 :: tail := by
  rw [strtok_append tail noNul nonzero]
  dsimp only
  split
  · rename_i found
    simp [found]
  · rename_i found
    simp [found]

theorem strtok_token {string : Bytes} (tail : Bytes) {delimiter : UInt8}
    (noNul : 0 ∉ string) (nonzero : delimiter ≠ 0)
    (followed : ((string.dropWhile (· == delimiter)).dropWhile (· != delimiter)).tail ≠ []) :
    (strtok (string ++ 0 :: tail) [delimiter]).1 =
      some ((string.dropWhile (· == delimiter)).takeWhile (· != delimiter) ++
        0 :: (((string.dropWhile (· == delimiter)).dropWhile (· != delimiter)).tail ++
          0 :: tail)) := by
  rw [strtok_append tail noNul nonzero]
  dsimp only
  split
  · rename_i found
    simp [found] at followed
  · rename_i found
    simp [found]

/-- `strtok(NULL, "")`: all that is left, unless nothing is. -/
theorem strtok_all {string : Bytes} (tail : Bytes) (noNul : 0 ∉ string) :
    strtok (string ++ 0 :: tail) [] =
      (if string = [] then none else some (string ++ 0 :: tail), 0 :: tail) := by
  have keepsAll : string.takeWhile (fun _ => true) = string := by
    rw [List.takeWhile_eq_self_iff]
    simp
  have skipsNone : (string ++ 0 :: tail).dropWhile ([] : Bytes).contains =
      string ++ 0 :: tail := by
    cases string <;> simp
  simp only [strtok, skipsNone, List.contains_nil, Bool.not_false]
  rw [takeWhile_append_nul tail (fun _ => true) noNul, keepsAll, List.drop_left]
  by_cases empty : string = []
  · simp [empty]
  · simp [empty]

theorem delimiter_notMem_token {string token : Bytes} {tail : Bytes} {delimiter : UInt8}
    (noNul : 0 ∉ string) (nonzero : delimiter ≠ 0)
    (found : (strtok (string ++ 0 :: tail) [delimiter]).1 = some token) :
    delimiter ∉ text token := by
  have startNoNul : 0 ∉ string.dropWhile (· == delimiter) :=
    fun member => noNul (List.dropWhile_subset _ member)
  rw [strtok_append tail noNul nonzero] at found
  generalize string.dropWhile (· == delimiter) = start at found startNoNul
  dsimp only at found
  cases rest : start.dropWhile (· != delimiter) with
  | nil =>
      rw [rest] at found
      dsimp only at found
      split_ifs at found
      rw [← Option.some.inj found, text_append_nul tail startNoNul]
      intro member
      have kept := List.dropWhile_eq_nil_iff.mp rest delimiter member
      simp at kept
  | cons stop after =>
      rw [rest] at found
      dsimp only at found
      have tokenNoNul : 0 ∉ start.takeWhile (· != delimiter) :=
        fun member => startNoNul (List.takeWhile_subset _ member)
      rw [← Option.some.inj found, text_append_nul _ tokenNoNul]
      intro member
      have kept := List.mem_takeWhile_imp member
      simp at kept

theorem strtok_word {word rest : Bytes} (tail : Bytes) {delimiter : UInt8}
    (nonempty : word ≠ []) (wordNoNul : 0 ∉ word) (restNoNul : 0 ∉ rest)
    (nonzero : delimiter ≠ 0) (absent : delimiter ∉ word) :
    strtok (word ++ delimiter :: rest ++ 0 :: tail) [delimiter] =
      (some (word ++ 0 :: (rest ++ 0 :: tail)), rest ++ 0 :: tail) := by
  have noNul : 0 ∉ word ++ delimiter :: rest := by
    rw [List.mem_append, List.mem_cons]
    simp [wordNoNul, restNoNul, Ne.symm nonzero]
  have kept : ∀ byte ∈ word, (byte != delimiter) = true := by
    intro byte member
    simpa using fun same : byte = delimiter => absent (same ▸ member)
  have start : (word ++ delimiter :: rest).dropWhile (· == delimiter) =
      word ++ delimiter :: rest := by
    cases word with
    | nil => exact absurd rfl nonempty
    | cons first others =>
        have other : first ≠ delimiter := by simpa using kept first List.mem_cons_self
        simp [other]
  rw [strtok_append tail noNul nonzero, start]
  dsimp only
  rw [List.takeWhile_append_of_pos kept, List.dropWhile_append_of_pos kept]
  simp

end CString

end RaspberryPi
