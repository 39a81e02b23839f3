import RaspberryPi.Foundation.LineInput
import RaspberryPi.ChatServer.Command

/-! # The end of the typed input in `client_server.c`

The loop of the input process: it reads a line, writes it with its NUL to the pipe
and looks for `quit` in what it has read. The result of `fgets` is not looked at. -/

namespace RaspberryPi.ChatServer

open CString

namespace InputEnd

def quit : Bytes := ascii ['q', 'u', 'i', 't']

def lines : Bytes → List Bytes := LineInput.lines newline

structure Round where
  read : Bytes
  record : Bytes
  deriving DecidableEq

/-- `write(g_pfd[1], buf, strlen(buf) + 1)` -/
def record (buf : Bytes) : Bytes := text buf ++ [0]

/-- The rounds of the loop; `gCont` gives the values of `g_cont` at their ends. There
is no result while the loop goes on. -/
def inputLoop : Nat → (Nat → Bool) → Bytes → Option (List Round)
  | 0, _, _ => none
  | fuel + 1, gCont, stdin =>
      -- at the end of the input nothing is stored and the buffer stays clear
      let (buf, left) := LineInput.fgets newline (bufsiz - 1) stdin
      if text buf ≠ quit ∧ gCont 0 = true then
        (inputLoop fuel (fun round => gCont (round + 1)) left).map (⟨buf, record buf⟩ :: ·)
      else some [⟨buf, record buf⟩]

def ReadsQuit (line : Bytes) : Prop := text line = quit ∨ text line = quit ++ [newline]

instance (line : Bytes) : Decidable (ReadsQuit line) := inferInstanceAs (Decidable (_ ∨ _))

def upToQuit : List Bytes → List Bytes
  | [] => []
  | line :: others => if ReadsQuit line then [line] else line :: upToQuit others

/-- The loop ends while the connection is there, at the first line that reads
`quit` or at the end of the input. It has read each line in one round and sent a
record for it that is not empty. -/
def EndsWithInput (stdin : Bytes) : Prop :=
  ∃ fuel rounds, inputLoop fuel (fun _ => true) stdin = some rounds ∧
    rounds.map Round.read = upToQuit (lines stdin) ∧ ∀ round ∈ rounds, text round.record ≠ []

/-- A line without its newline comes to `quit`, after lines that do not read `quit`
and begin with other bytes than NUL, and all of them fit into the buffer. -/
def EndsInQuit (stdin : Bytes) : Prop :=
  ∃ before last after, lines stdin = before ++ last :: after ∧
    text last = quit ∧ last.length < bufsiz ∧
    ∀ line ∈ before, ¬ReadsQuit line ∧ line.length < bufsiz ∧ text line ≠ []

section rounds

variable {fuel : Nat} {gCont : Nat → Bool} {stdin buf left : Bytes} {rounds : List Round}

theorem inputLoop_eq_some (taken : LineInput.fgets newline (bufsiz - 1) stdin = (buf, left)) :
    inputLoop (fuel + 1) gCont stdin = some rounds ↔
      ∃ later, rounds = ⟨buf, record buf⟩ :: later ∧
        if text buf ≠ quit ∧ gCont 0 = true then
          inputLoop fuel (fun round => gCont (round + 1)) left = some later
        else later = [] := by
  rw [inputLoop, taken]
  dsimp only
  split_ifs with goesOn
  · rw [Option.map_eq_some_iff]
    exact exists_congr fun later => and_comm.trans (and_congr_left fun _ => eq_comm)
  · simp [eq_comm]

theorem rounds_ne_nil (ended : inputLoop fuel gCont stdin = some rounds) : rounds ≠ [] := by
  cases fuel with
  | zero => cases ended
  | succ fuel =>
      rcases (inputLoop_eq_some rfl).mp ended with ⟨later, rfl, _⟩
      exact List.cons_ne_nil _ _

theorem inputLoop_nil (fuel : Nat) : inputLoop fuel (fun _ => true) [] = none := by
  induction fuel with
  | zero => rfl
  | succ fuel induction =>
      rw [Option.eq_none_iff_forall_ne_some]
      intro rounds ended
      rcases (inputLoop_eq_some (LineInput.fgets_nil _)).mp ended with ⟨later, _, goesOn⟩
      rw [if_pos ⟨by decide, rfl⟩, induction] at goesOn
      cases goesOn

theorem text_record (buf : Bytes) : text (record buf) = text buf :=
  text_append_nul [] (zero_notMem_text buf)

end rounds

theorem not_endsWithInput_nil : ¬EndsWithInput [] := by
  rintro ⟨fuel, rounds, ended, _⟩
  rw [inputLoop_nil] at ended
  cases ended

theorem inputLoop_line {fuel : Nat} {stdin line : Bytes} {others : List Bytes}
    {rounds : List Round} (split : lines stdin = line :: others) (fits : line.length < bufsiz) :
    inputLoop (fuel + 1) (fun _ => true) stdin = some rounds ↔
      ∃ later, rounds = ⟨line, record line⟩ :: later ∧
        if text line ≠ quit then inputLoop fuel (fun _ => true) others.flatten = some later
        else later = [] := by
  have taken := LineInput.fgets_of_fits split (Nat.le_sub_one_of_lt fits)
  rw [inputLoop_eq_some taken]
  simp only [and_true]

theorem upToQuit_of_not {line : Bytes} (goesOn : ¬ReadsQuit line) (others : List Bytes) :
    upToQuit (line :: others) = line :: upToQuit others := if_neg goesOn

theorem upToQuit_of {line : Bytes} (reads : ReadsQuit line) (others : List Bytes) :
    upToQuit (line :: others) = [line] := if_pos reads

theorem fits_of_endsWithInput {stdin line : Bytes} {others : List Bytes}
    (split : lines stdin = line :: others) (ends : EndsWithInput stdin) :
    line.length < bufsiz := by
  rcases ends with ⟨fuel, rounds, ended, reads, _⟩
  cases fuel with
  | zero => cases ended
  | succ fuel =>
      rcases (inputLoop_eq_some rfl).mp ended with ⟨later, rfl, _⟩
      have room := LineInput.length_fgets_le newline (bufsiz - 1) stdin
      have first : (LineInput.fgets newline (bufsiz - 1) stdin).1 = line := by
        rw [split, List.map_cons] at reads
        by_cases isQuit : ReadsQuit line
        · rw [upToQuit_of isQuit] at reads
          exact (List.cons.inj reads).1
        · rw [upToQuit_of_not isQuit] at reads
          exact (List.cons.inj reads).1
      rw [first] at room
      exact Nat.lt_of_le_sub_one (by decide) room

section firstLine

variable {stdin line : Bytes} {others : List Bytes}

theorem endsWithInput_of_quit (split : lines stdin = line :: others) (fits : line.length < bufsiz)
    (isQuit : text line = quit) : EndsWithInput stdin := by
  refine ⟨1, [⟨line, record line⟩], (inputLoop_line split fits).mpr ⟨[], rfl, ?_⟩, ?_, ?_⟩
  · rw [if_neg (not_not_intro isQuit)]
  · rw [split, upToQuit_of (Or.inl isQuit)]
    rfl
  · simp only [List.mem_singleton, forall_eq]
    rw [text_record, isQuit]
    decide

theorem endsWithInput_of_later (split : lines stdin = line :: others)
    (fits : line.length < bufsiz) (goesOn : ¬ReadsQuit line) (filled : text line ≠ [])
    (ends : EndsWithInput others.flatten) : EndsWithInput stdin := by
  rcases ends with ⟨fuel, rounds, ended, reads, allFilled⟩
  have notQuit : text line ≠ quit := fun isQuit => goesOn (Or.inl isQuit)
  have later : lines others.flatten = others := LineInput.lines_flatten_others split
  refine ⟨fuel + 1, ⟨line, record line⟩ :: rounds,
    (inputLoop_line split fits).mpr ⟨rounds, rfl, ?_⟩, ?_, ?_⟩
  · rw [if_pos notQuit]
    exact ended
  · rw [later] at reads
    rw [split, upToQuit_of_not goesOn, List.map_cons, reads]
  · rw [List.forall_mem_cons, text_record]
    exact ⟨filled, allFilled⟩

theorem endsWithInput_of_lines (split : lines stdin = line :: others)
    (fits : line.length < bufsiz) :
    EndsWithInput stdin ↔
      text line = quit ∨ ¬ReadsQuit line ∧ text line ≠ [] ∧ EndsWithInput others.flatten := by
  constructor
  · rintro ⟨fuel, rounds, ended, reads, filled⟩
    cases fuel with
    | zero => cases ended
    | succ fuel =>
        rcases (inputLoop_line split fits).mp ended with ⟨laterRounds, rfl, rest⟩
        rw [List.forall_mem_cons, text_record] at filled
        by_cases isQuit : text line = quit
        · exact Or.inl isQuit
        · rw [if_pos isQuit] at rest
          by_cases reading : ReadsQuit line
          · -- the newline is read too, and the loop goes on after this line
            rw [split, upToQuit_of reading, List.map_cons, List.cons.injEq] at reads
            exact absurd (List.map_eq_nil_iff.mp reads.2) (rounds_ne_nil rest)
          · rw [split, upToQuit_of_not reading, List.map_cons, List.cons.injEq] at reads
            refine Or.inr ⟨reading, filled.1, fuel, laterRounds, rest, ?_, filled.2⟩
            have later : lines others.flatten = others := LineInput.lines_flatten_others split
            rw [later]
            exact reads.2
  · rintro (isQuit | ⟨goesOn, filled, ends⟩)
    · exact endsWithInput_of_quit split fits isQuit
    · exact endsWithInput_of_later split fits goesOn filled ends

end firstLine

theorem not_endsInQuit_nil : ¬EndsInQuit [] := by
  rintro ⟨before, last, after, split, _⟩
  exact absurd split.symm (List.append_ne_nil_of_right_ne_nil _ (List.cons_ne_nil _ _))

theorem endsInQuit_of_lines {stdin line : Bytes} {others : List Bytes}
    (split : lines stdin = line :: others) :
    EndsInQuit stdin ↔ line.length < bufsiz ∧
      (text line = quit ∨ ¬ReadsQuit line ∧ text line ≠ [] ∧ EndsInQuit others.flatten) := by
  have later : lines others.flatten = others := LineInput.lines_flatten_others split
  simp only [EndsInQuit, split, later]
  constructor
  · rintro ⟨before, last, after, same, isQuit, fits, earlier⟩
    cases before with
    | nil =>
        cases same
        exact ⟨fits, Or.inl isQuit⟩
    | cons first more =>
        rw [List.cons_append, List.cons.injEq] at same
        rcases same with ⟨rfl, same⟩
        rw [List.forall_mem_cons] at earlier
        rcases earlier with ⟨⟨goesOn, fitsToo, filled⟩, earlier⟩
        exact ⟨fitsToo, Or.inr ⟨goesOn, filled, more, last, after, same, isQuit, fits, earlier⟩⟩
  · rintro ⟨fits, isQuit | ⟨goesOn, filled, before, last, after, same, isQuit, lastFits, earlier⟩⟩
    · exact ⟨[], line, others, rfl, isQuit, fits, nofun⟩
    · refine ⟨line :: before, last, after, ?_, isQuit, lastFits, ?_⟩
      · rw [same, List.cons_append]
      · exact List.forall_mem_cons.mpr ⟨⟨goesOn, fits, filled⟩, earlier⟩

/-- The loop ends with its input exactly when a line that comes to `quit` without a
newline is the first one to read so. -/
theorem endsWithInput_iff (stdin : Bytes) : EndsWithInput stdin ↔ EndsInQuit stdin := by
  induction split : lines stdin generalizing stdin with
  | nil =>
      obtain rfl := LineInput.eq_nil_of_lines_eq_nil split
      exact iff_of_false not_endsWithInput_nil not_endsInQuit_nil
  | cons line others induction =>
      have later := induction others.flatten (LineInput.lines_flatten_others split)
      rw [endsInQuit_of_lines split, ← later]
      constructor
      · intro ends
        have fits := fits_of_endsWithInput split ends
        exact ⟨fits, (endsWithInput_of_lines split fits).mp ends⟩
      · rintro ⟨fits, ends⟩
        exact (endsWithInput_of_lines split fits).mpr ends

/-- Lines that keep their newlines do not end the loop, and neither does the end of
the input. -/
theorem inputLoop_eq_none {stdin : Bytes} (fuel : Nat)
    (typed : ∀ line ∈ lines stdin, line.length < bufsiz ∧ text line ≠ quit) :
    inputLoop fuel (fun _ => true) stdin = none := by
  induction fuel generalizing stdin with
  | zero => rfl
  | succ fuel induction =>
      cases split : lines stdin with
      | nil =>
          obtain rfl := LineInput.eq_nil_of_lines_eq_nil split
          exact inputLoop_nil (fuel + 1)
      | cons line others =>
          rw [split, List.forall_mem_cons, ← LineInput.lines_flatten_others split] at typed
          rcases typed with ⟨⟨fits, notQuit⟩, later⟩
          rw [Option.eq_none_iff_forall_ne_some]
          intro rounds ended
          rcases (inputLoop_line split fits).mp ended with ⟨laterRounds, _, rest⟩
          rw [if_pos notQuit, induction later] at rest
          cases rest

/-- A typed `quit` does not end the loop. -/
theorem not_endsWithInput_typedQuit :
    (∀ fuel, inputLoop fuel (fun _ => true) (ascii ['q', 'u', 'i', 't', '\n']) = none) ∧
      ¬EndsWithInput (ascii ['q', 'u', 'i', 't', '\n']) := by
  have forever (fuel : Nat) :
      inputLoop fuel (fun _ => true) (ascii ['q', 'u', 'i', 't', '\n']) = none :=
    inputLoop_eq_none fuel (by decide)
  refine ⟨forever, ?_⟩
  rintro ⟨fuel, rounds, ended, _⟩
  rw [forever] at ended
  cases ended

end InputEnd

end RaspberryPi.ChatServer
