import RaspberryPi.Foundation.LineInput
import RaspberryPi.WebServer.Filename

/-! # The headers of a request in `webserver.c`

`clnt_connection` takes the request line apart and then reads lines into the same
array until one begins with CR LF. It does not look at the result of `fgets`. -/

namespace RaspberryPi.WebServer

open CString

namespace Headers

def newline : UInt8 := 10

def space : UInt8 := 32

def blankLine : Bytes := [13, newline]

def fill (buffer : Buffer) (string : Bytes) : Buffer where
  bytes := (string ++ 0 :: buffer.bytes.drop (string.length + 1)).take bufsiz
  size := by
    have size := buffer.size
    simp only [List.length_take, List.length_append, List.length_cons, List.length_drop]
    omega

theorem length_cut (buffer : Buffer) (behind : Bytes) :
    ((buffer.bytes.take (bufsiz - behind.length) ++ behind).take bufsiz).length = bufsiz := by
  have size := buffer.size
  simp only [List.length_take, List.length_append]
  omega

def cutBehind (buffer : Buffer) : Option Bytes → Buffer
  | none => buffer
  | some behind =>
      ⟨(buffer.bytes.take (bufsiz - behind.length) ++ behind).take bufsiz,
        length_cut buffer behind⟩

/-- `fgets(reg_line, BUFSIZ, clnt_read)`; at the end of the stream the array stays what
it is. -/
def fgets (regLine : Buffer) (input : Bytes) : Buffer × Bytes :=
  let (line, left) := LineInput.fgets newline (bufsiz - 1) input
  (if line = [] then regLine else fill regLine line, left)

structure Request where
  method : Bytes
  path : Bytes
  regLine : Buffer

def tokenText (token : Option Bytes) : Bytes := (token.map text).getD []

/-- What `reg_line` and the two strings are before the headers; `stack` is what the
array held in the beginning. -/
def readRequest (stack : Buffer) (input : Bytes) : Request × Bytes :=
  let (regLine, left) := fgets stack input
  let (method, saved) := strtok regLine.bytes [slash, space]
  let (path, _) := strtok saved [space]
  (⟨tokenText method, tokenText path, cutBehind (cutBehind regLine method) path⟩, left)

/-- The loop over the headers; no result while it goes on. -/
def skipHeaders : Nat → Buffer → Bytes → Option Bytes
  | 0, _, _ => none
  | fuel + 1, regLine, input =>
      let (regLine, left) := fgets regLine input
      if strncmp regLine.bytes (blankLine ++ [0]) 2 = some true then some left
      else skipHeaders fuel regLine left

inductive Answer
  | sendOk
  | sendError
  | sendData (path : Bytes)
deriving DecidableEq

def post : Bytes := ascii ['P', 'O', 'S', 'T']

def get : Bytes := ascii ['G', 'E', 'T']

def clntConnection (fuel : Nat) (stack : Buffer) (input : Bytes) : Option Answer :=
  let (request, left) := readRequest stack input
  if request.method = post then some .sendOk
  else if request.method ≠ get then some .sendError
  else (skipHeaders fuel request.regLine left).map fun _ => .sendData request.path

def Answers (stack : Buffer) (input : Bytes) : Prop :=
  ∃ fuel answer, clntConnection fuel stack input = some answer

/-- The line ends with CR LF, and in front of that it fills the array a whole number of
times. -/
def EndsBlank (line : Bytes) : Prop :=
  ∃ before, line = before ++ blankLine ∧ bufsiz - 1 ∣ before.length

def HasBlankLine (input : Bytes) : Prop := ∃ line ∈ LineInput.lines newline input, EndsBlank line

section loop

variable {fuel : Nat} {regLine : Buffer} {input line left : Bytes} {others : List Bytes}

theorem strncmp_blankLine (memory : Bytes) :
    strncmp memory (blankLine ++ [0]) 2 = some true ↔ blankLine <+: memory :=
  @strncmp_eq_some_true_iff memory blankLine [0] (by decide)

theorem exists_bytes_fill (regLine : Buffer) (short : line.length < bufsiz) :
    ∃ rest, (fill regLine line).bytes = line ++ 0 :: rest := by
  rcases Nat.exists_eq_add_of_lt short with ⟨room, size⟩
  refine ⟨(regLine.bytes.drop (line.length + 1)).take room, ?_⟩
  change (line ++ 0 :: regLine.bytes.drop (line.length + 1)).take bufsiz = _
  rw [size, Nat.add_assoc, List.take_length_add_append, List.take_succ_cons]

theorem skipHeaders_succ (taken : LineInput.fgets newline (bufsiz - 1) input = (line, left))
    (nonempty : line ≠ []) :
    skipHeaders (fuel + 1) regLine input =
      if blankLine <+: line then some left else skipHeaders fuel (fill regLine line) left := by
  have short : line.length < bufsiz := by
    have bound := LineInput.length_fgets_le newline (bufsiz - 1) input
    rw [taken] at bound
    exact Nat.lt_of_le_pred (by decide) bound
  rcases exists_bytes_fill regLine short with ⟨rest, bytes⟩
  have read : fgets regLine input = (fill regLine line, left) := by
    rw [fgets, taken]
    exact Prod.ext (if_neg nonempty) rfl
  have decides := (strncmp_blankLine (line ++ 0 :: rest)).trans
    (@prefix_append_nul_iff blankLine line rest (by decide))
  rw [skipHeaders, read]
  simp only [bytes, decides]

theorem exists_skipHeaders_succ
    (taken : LineInput.fgets newline (bufsiz - 1) input = (line, left)) (nonempty : line ≠ []) :
    (∃ fuel rest, skipHeaders fuel regLine input = some rest) ↔
      blankLine <+: line ∨ ∃ fuel rest, skipHeaders fuel (fill regLine line) left = some rest := by
  by_cases blank : blankLine <+: line
  · refine iff_of_true ⟨1, left, ?_⟩ (Or.inl blank)
    rw [skipHeaders_succ taken nonempty, if_pos blank]
  · rw [or_iff_right blank]
    constructor
    · intro ended
      rcases ended with ⟨fuel, rest, ended⟩
      cases fuel with
      | zero => cases ended
      | succ fuel =>
          rw [skipHeaders_succ taken nonempty, if_neg blank] at ended
          exact ⟨fuel, rest, ended⟩
    · intro ended
      rcases ended with ⟨fuel, rest, ended⟩
      refine ⟨fuel + 1, rest, ?_⟩
      rw [skipHeaders_succ taken nonempty, if_neg blank, ended]

theorem not_blankLine_prefix_fill (regLine : Buffer) (short : line.length < bufsiz)
    (notBlank : ¬blankLine <+: line) : ¬blankLine <+: (fill regLine line).bytes := by
  rcases exists_bytes_fill regLine short with ⟨rest, bytes⟩
  rw [bytes, prefix_append_nul_iff rest (by decide)]
  exact notBlank

theorem skipHeaders_nil (notBlank : ¬blankLine <+: regLine.bytes) (fuel : Nat) :
    skipHeaders fuel regLine [] = none := by
  have same : fgets regLine [] = (regLine, []) := by
    rw [fgets, LineInput.fgets_nil]
    rfl
  induction fuel with
  | zero => rfl
  | succ fuel induction =>
      rw [skipHeaders, same]
      dsimp only
      rw [if_neg (fun equal => notBlank ((strncmp_blankLine _).mp equal)), induction]

end loop

section lines

variable {input line : Bytes} {others : List Bytes}

theorem hasBlankLine_cons (split : LineInput.lines newline input = line :: others) :
    HasBlankLine input ↔ EndsBlank line ∨ ∃ line ∈ others, EndsBlank line := by
  rw [HasBlankLine, split, List.exists_mem_cons_iff]

theorem blankLine_prefix_iff (split : LineInput.lines newline input = line :: others) :
    blankLine <+: line ↔ line = blankLine := by
  constructor
  · intro begins
    rcases begins with ⟨rest, rfl⟩
    have last := LineInput.newline_notMem_dropLast split
    cases rest with
    | nil => rfl
    | cons byte rest => simp [blankLine, List.dropLast] at last
  · rintro rfl
    exact List.prefix_rfl

theorem endsBlank_of_fits (fits : line.length ≤ bufsiz - 1) :
    EndsBlank line ↔ line = blankLine := by
  constructor
  · intro ends
    rcases ends with ⟨before, rfl, divides⟩
    rw [List.length_append] at fits
    have length : blankLine.length = 2 := rfl
    have size : bufsiz = 8192 := rfl
    have empty : before.length = 0 := Nat.eq_zero_of_dvd_of_lt divides (by omega)
    rw [List.length_eq_zero_iff.mp empty, List.nil_append]
  · rintro rfl
    exact ⟨[], rfl, Nat.dvd_zero _⟩

theorem endsBlank_of_longer (longer : bufsiz - 1 < line.length) :
    EndsBlank line ↔ EndsBlank (line.drop (bufsiz - 1)) := by
  have size : bufsiz = 8192 := rfl
  constructor
  · intro ends
    rcases ends with ⟨before, rfl, divides⟩
    have length : blankLine.length = 2 := rfl
    rw [List.length_append] at longer
    have fills : bufsiz - 1 ≤ before.length := Nat.le_of_dvd (by omega) divides
    refine ⟨before.drop (bufsiz - 1), List.drop_append_of_le_length fills, ?_⟩
    rw [List.length_drop]
    exact Nat.dvd_sub divides (Nat.dvd_refl _)
  · intro ends
    rcases ends with ⟨before, rest, divides⟩
    refine ⟨line.take (bufsiz - 1) ++ before, ?_, ?_⟩
    · rw [List.append_assoc, ← rest, List.take_append_drop]
    · rw [List.length_append, List.length_take, Nat.min_eq_left longer.le]
      exact (Nat.dvd_add_right (Nat.dvd_refl _)).mpr divides

theorem not_blankLine_prefix_take (split : LineInput.lines newline input = line :: others)
    (longer : bufsiz - 1 < line.length) : ¬blankLine <+: line.take (bufsiz - 1) := by
  intro begins
  have whole := (blankLine_prefix_iff split).mp (begins.trans (List.take_prefix _ _))
  rw [whole] at longer
  exact absurd longer (by decide)

/-- A round takes something of the stream. There is a blank line in the stream if it is
what has been taken or in what is left. -/
theorem exists_round (some_ : input ≠ []) : ∃ taken left,
    LineInput.fgets newline (bufsiz - 1) input = (taken, left) ∧ taken ≠ [] ∧
      taken.length < bufsiz ∧ left.length < input.length ∧
        (HasBlankLine input ↔ blankLine <+: taken ∨ HasBlankLine left) := by
  have size : bufsiz = 8192 := rfl
  cases split : LineInput.lines newline input with
  | nil => exact absurd (LineInput.eq_nil_of_lines_eq_nil split) some_
  | cons line others =>
      have nonempty := LineInput.ne_nil_of_lines split
      have positive := List.length_pos_of_ne_nil nonempty
      have length : input.length = line.length + others.flatten.length := by
        rw [← List.length_append, ← List.flatten_cons, ← split, LineInput.flatten_lines]
      by_cases longer : bufsiz - 1 < line.length
      · rcases LineInput.fgets_of_longer split longer with ⟨taken, later⟩
        refine ⟨_, _, taken, ?_, ?_, ?_, ?_⟩
        · rw [ne_eq, List.take_eq_nil_iff]
          simp [nonempty, size]
        · rw [List.length_take]
          omega
        · rw [List.length_append, List.length_drop]
          omega
        · rw [or_iff_right (not_blankLine_prefix_take split longer), hasBlankLine_cons split,
            hasBlankLine_cons later, endsBlank_of_longer longer]
      · have fits := Nat.le_of_not_lt longer
        refine ⟨_, _, LineInput.fgets_of_fits split fits, nonempty, ?_, ?_, ?_⟩
        · omega
        · omega
        · rw [hasBlankLine_cons split, endsBlank_of_fits fits, blankLine_prefix_iff split,
            HasBlankLine, LineInput.lines_flatten_others split]

end lines

/-- The loop ends exactly if it finds CR LF where it reads a line from its beginning or
goes on behind a full array. -/
theorem exists_skipHeaders_iff {regLine : Buffer} (input : Bytes)
    (notBlank : ¬blankLine <+: regLine.bytes) :
    (∃ fuel rest, skipHeaders fuel regLine input = some rest) ↔ HasBlankLine input := by
  induction length : input.length using Nat.strong_induction_on generalizing input regLine with
  | _ bound induction =>
    subst length
    by_cases empty : input = []
    · subst empty
      refine iff_of_false ?_ ?_
      · rintro ⟨fuel, rest, ended⟩
        rw [skipHeaders_nil notBlank] at ended
        cases ended
      · rintro ⟨line, member, _⟩
        cases member
    · rcases exists_round empty with ⟨taken, left, read, nonempty, short, shorter, blank⟩
      rw [exists_skipHeaders_succ read nonempty, blank]
      apply or_congr_right'
      intro goesOn
      exact induction _ shorter _ (not_blankLine_prefix_fill regLine short goesOn) rfl

section request

variable {buffer : Buffer} {token : Bytes}

theorem head?_cutBehind (short : token.length < bufsiz) :
    (cutBehind buffer (some token)).bytes.head? = buffer.bytes.head? := by
  have size := buffer.size
  have room : bufsiz - token.length ≠ 0 := by omega
  cases memory : buffer.bytes with
  | nil =>
      rw [memory] at size
      cases size
  | cons first others =>
      rcases Nat.exists_eq_succ_of_ne_zero room with ⟨count, isCount⟩
      change ((buffer.bytes.take (bufsiz - token.length) ++ token).take bufsiz).head? = _
      rw [memory, isCount, List.take_succ_cons]
      rfl

theorem bytes_cutBehind_of_length (whole : token.length = bufsiz) :
    (cutBehind buffer (some token)).bytes = token := by
  change (buffer.bytes.take (bufsiz - token.length) ++ token).take bufsiz = token
  rw [whole, Nat.sub_self, List.take_zero, List.nil_append, ← whole, List.take_length]

theorem head?_cutBehind_get {memory : Buffer} {saved : Bytes}
    (found : strtok memory.bytes [slash, space] = (some token, saved)) (isGet : text token = get) :
    (cutBehind memory (some token)).bytes.head? ≠ some 13 := by
  have size := memory.size
  have length := (length_strtok found).1
  by_cases short : token.length < bufsiz
  · rw [head?_cutBehind short]
    cases bytes : memory.bytes with
    | nil => exact fun none => nomatch none
    | cons first others =>
        intro isReturn
        obtain rfl : first = 13 := Option.some.inj isReturn
        rw [bytes] at length size
        rw [List.dropWhile_cons_of_neg (by decide)] at length
        exact absurd (length.trans size) short.ne
  · have bound := (List.dropWhile_suffix ([slash, space] : Bytes).contains
      (l := memory.bytes)).length_le
    rw [bytes_cutBehind_of_length (by omega)]
    cases token with
    | nil => exact fun none => nomatch none
    | cons first others =>
        intro isReturn
        obtain rfl : first = 13 := Option.some.inj isReturn
        rw [text_cons_of_ne others (by decide)] at isGet
        exact absurd (List.cons.inj isGet).1 (by decide)

theorem not_blankLine_prefix_regLine {stack : Buffer} {input : Bytes}
    (isGet : (readRequest stack input).1.method = get) :
    ¬blankLine <+: (readRequest stack input).1.regLine.bytes := by
  let regLine := (fgets stack input).1
  let method := strtok regLine.bytes [slash, space]
  let path := (strtok method.2 [space]).1
  change tokenText method.1 = get at isGet
  suffices other : (cutBehind (cutBehind regLine method.1) path).bytes.head? ≠ some 13 by
    intro begins
    rcases begins with ⟨rest, bytes⟩
    apply other
    change blankLine ++ rest = (cutBehind (cutBehind regLine method.1) path).bytes at bytes
    rw [← bytes]
    rfl
  cases found : method.1 with
  | none =>
      rw [found] at isGet
      cases isGet
  | some token =>
      rw [found] at isGet
      have split : strtok regLine.bytes [slash, space] = (some token, method.2) :=
        Prod.ext found rfl
      have first := head?_cutBehind_get split isGet
      cases later : path with
      | none => exact first
      | some second =>
          have bound := (length_strtok split).1
          have after := (length_strtok split).2
          have all := (List.dropWhile_suffix ([slash, space] : Bytes).contains
            (l := regLine.bytes)).length_le
          have saved := (length_strtok (Prod.ext later rfl)).1
          have part := (List.dropWhile_suffix ([space] : Bytes).contains
            (l := method.2)).length_le
          have size := regLine.size
          rw [head?_cutBehind (by omega)]
          exact first

end request

theorem clntConnection_of_get {fuel : Nat} {stack : Buffer} {input : Bytes}
    (isGet : (readRequest stack input).1.method = get) :
    clntConnection fuel stack input =
      (skipHeaders fuel (readRequest stack input).1.regLine (readRequest stack input).2).map
        fun _ => .sendData (readRequest stack input).1.path := by
  have notPost : (readRequest stack input).1.method ≠ post := by
    rw [isGet]
    decide
  exact (if_neg notPost).trans (if_neg (not_not_intro isGet))

theorem method_readRequest_get (stack : Buffer) (rest : Bytes) :
    (readRequest stack (get ++ space :: rest)).1.method = get := by
  have read : (fgets stack (get ++ space :: rest)).1 =
      fill stack (get ++ space :: (LineInput.fgets newline (bufsiz - 5) rest).1) := rfl
  have token : ∀ memory : Bytes, (strtok (get ++ space :: memory) [slash, space]).1 =
      some (get ++ 0 :: memory) := fun _ => rfl
  have bytes : ∀ line : Bytes, (fill stack (get ++ space :: line)).bytes =
      get ++ space :: (line ++ 0 :: stack.bytes.drop (line.length + 5)).take (bufsiz - 4) :=
    fun _ => rfl
  change tokenText (strtok (fgets stack (get ++ space :: rest)).1.bytes [slash, space]).1 = get
  rw [read, bytes, token]
  rfl

/-- A handler of a `GET` request comes to its answer exactly if the stream goes on with
a blank line where the loop can see it. -/
theorem answers_iff (stack : Buffer) (input : Bytes)
    (isGet : (readRequest stack input).1.method = get) :
    Answers stack input ↔ HasBlankLine (readRequest stack input).2 := by
  rw [← exists_skipHeaders_iff _ (not_blankLine_prefix_regLine isGet)]
  simp only [Answers, clntConnection_of_get isGet, Option.map_eq_some_iff]
  constructor
  · intro answers
    rcases answers with ⟨fuel, answer, rest, ended, _⟩
    exact ⟨fuel, rest, ended⟩
  · intro ends
    rcases ends with ⟨fuel, rest, ended⟩
    exact ⟨fuel, _, rest, ended, rfl⟩

theorem answers_iff_emptyLine :
    Answers Buffer.zeroed (get ++ space :: ascii ['/', '\r', '\n', '\r', '\n']) ↔
      HasBlankLine (readRequest Buffer.zeroed
        (get ++ space :: ascii ['/', '\r', '\n', '\r', '\n'])).2 :=
  answers_iff Buffer.zeroed (get ++ space :: ascii ['/', '\r', '\n', '\r', '\n'])
    (method_readRequest_get _ _)

theorem not_answers_requestLine :
    ¬∀ (stack : Buffer) (input : Bytes), (readRequest stack input).1.method = get →
      Answers stack input := by
  intro always
  have isGet := method_readRequest_get Buffer.zeroed (ascii ['/', '\r', '\n'])
  rcases always _ _ isGet with ⟨fuel, answer, done⟩
  have closed : (readRequest Buffer.zeroed (get ++ space :: ascii ['/', '\r', '\n'])).2 = [] := rfl
  rw [clntConnection_of_get isGet, closed, skipHeaders_nil (not_blankLine_prefix_regLine isGet)]
    at done
  cases done

end Headers

end RaspberryPi.WebServer
