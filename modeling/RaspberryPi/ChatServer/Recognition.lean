import RaspberryPi.ChatServer.Dispatch

/-! # Which command runs

`check_command` asks for the first token of a message. The words that `main` looks
for are different tokens, so that the order in which it looks does not matter. -/

namespace RaspberryPi.ChatServer

open CString

/-- What stands behind the first byte, up to a space, a newline or a NUL. -/
def token (mesg : Bytes) : Bytes :=
  mesg.tail.takeWhile fun byte => byte != space && byte != newline && byte != 0

def Marked (mesg : Bytes) : Prop := mesg.head? = some slash ∨ mesg.head? = some bang

instance (mesg : Bytes) : Decidable (Marked mesg) := inferInstanceAs (Decidable (_ ∨ _))

/-- The branches of `main` for a content that begins with a slash. -/
inductive Branch
  | add
  | join
  | rm
  | list
  | leave
  | users
deriving DecidableEq

namespace Branch

def word : Branch → Bytes
  | add => Word.add
  | join => Word.join
  | rm => Word.rm
  | list => Word.list
  | leave => Word.leave
  | users => Word.users

def body (parent : Parent) (fromWho : Int) (content : Bytes) : Branch → Outcome
  | add => return (← parent.addRoom content, [])
  | join => return (← parent.joinRoom fromWho content, [])
  | rm => return (← parent.removeRoom content, [])
  | list => return (parent, ← parent.listRooms fromWho)
  | leave => return (parent.leaveRoom fromWho, [])
  | users => return (parent, parent.listUsers fromWho)

def all : List Branch := [add, join, rm, list, leave, users]

/-- The branches as a chain of `if` and `else` in any order. -/
def chain (parent : Parent) (fromWho : Int) (content : Bytes) : List Branch → Outcome
  | [] => return (parent, [])
  | branch :: others => do
      if ← inArray (checkCommand content branch.word) then
        branch.body parent fromWho content
      else chain parent fromWho content others

theorem isWord_word (branch : Branch) : IsWord branch.word := by
  cases branch <;> decide

theorem word_injective : Function.Injective word := by
  intro left right same
  cases left <;> cases right <;> first | rfl | exact absurd same (by decide)

end Branch

section recognised

variable {line : Bytes} (tail : Bytes)

private theorem takeWhile_append_nul_eq {rest : Bytes} (noNul : 0 ∉ rest) :
    (rest ++ 0 :: tail).takeWhile (fun byte => byte != space && byte != newline && byte != 0) =
      rest.takeWhile fun byte => byte != space && byte != newline := by
  induction rest with
  | nil => simp
  | cons byte rest induction =>
      rw [List.mem_cons, not_or] at noNul
      rw [List.cons_append, List.takeWhile_cons, List.takeWhile_cons, induction noNul.2]
      simp [Ne.symm noNul.1]

theorem token_append (noNul : 0 ∉ line) (marked : Marked line) :
    commandWord line = some (token (line ++ 0 :: tail)) := by
  cases line with
  | nil => simp [Marked] at marked
  | cons first rest =>
      have mark : first = slash ∨ first = bang := by simpa [Marked] using marked
      rw [List.mem_cons, not_or] at noNul
      rw [commandWord, if_pos mark, token, List.cons_append, List.tail_cons,
        takeWhile_append_nul_eq tail noNul.2]

theorem commandWord_of_not_marked (unmarked : ¬Marked line) : commandWord line = none := by
  cases line with
  | nil => rfl
  | cons first rest =>
      have noMark : ¬(first = slash ∨ first = bang) := by simpa [Marked] using unmarked
      rw [commandWord, if_neg noMark]

theorem marked_append : Marked (line ++ 0 :: tail) ↔ Marked line := by
  cases line with
  | nil => simp [Marked, slash, bang]
  | cons first rest => simp [Marked]

theorem commandWord_eq_some_iff {word : Bytes} (noNul : 0 ∉ line) :
    commandWord line = some word ↔
      Marked (line ++ 0 :: tail) ∧ token (line ++ 0 :: tail) = word := by
  rw [marked_append tail]
  by_cases marked : Marked line
  · rw [token_append tail noNul marked, Option.some.injEq, and_iff_right marked]
  · rw [commandWord_of_not_marked marked]
    simp [marked]

end recognised

section order

variable {line : Bytes} {order : List Branch}

/-- A word that is found decides about the branch, wherever it stands in the chain. -/
theorem chain_of_found {branch : Branch} (parent : Parent) (fromWho : Int) (tail : Bytes)
    (noNul : 0 ∉ line) (found : commandWord line = some branch.word) (member : branch ∈ order) :
    Branch.chain parent fromWho (line ++ 0 :: tail) order =
      branch.body parent fromWho (line ++ 0 :: tail) := by
  induction order with
  | nil => cases member
  | cons first others induction =>
      rw [Branch.chain, checkCommand_eq tail noNul first.isWord_word, found]
      by_cases same : branch = first
      · subst same
        rw [decide_eq_true rfl]
        rfl
      · have different : some branch.word ≠ some first.word := fun equal =>
          same (Branch.word_injective (Option.some.inj equal))
        rw [decide_eq_false different]
        exact induction (List.mem_of_ne_of_mem same member)

theorem chain_of_unknown (parent : Parent) (fromWho : Int) (tail : Bytes) (noNul : 0 ∉ line)
    (unknown : ∀ branch ∈ order, commandWord line ≠ some branch.word) :
    Branch.chain parent fromWho (line ++ 0 :: tail) order = .ok (parent, []) := by
  induction order with
  | nil => rfl
  | cons first others induction =>
      rw [Branch.chain, checkCommand_eq tail noNul first.isWord_word,
        decide_eq_false (unknown first List.mem_cons_self)]
      exact induction fun branch member => unknown branch (List.mem_cons_of_mem _ member)

theorem chain_perm {other : List Branch} (parent : Parent) (fromWho : Int) (tail : Bytes)
    (noNul : 0 ∉ line) (permuted : order.Perm other) :
    Branch.chain parent fromWho (line ++ 0 :: tail) order =
      Branch.chain parent fromWho (line ++ 0 :: tail) other := by
  by_cases known : ∃ branch ∈ order, commandWord line = some branch.word
  · rcases known with ⟨branch, member, found⟩
    rw [chain_of_found parent fromWho tail noNul found member,
      chain_of_found parent fromWho tail noNul found (permuted.mem_iff.mp member)]
  · have unknown : ∀ branch ∈ order, commandWord line ≠ some branch.word :=
      fun branch member found => known ⟨branch, member, found⟩
    rw [chain_of_unknown parent fromWho tail noNul unknown,
      chain_of_unknown parent fromWho tail noNul fun branch member =>
        unknown branch (permuted.mem_iff.mpr member)]

/-- The chain that `main` runs, which asks for all words before it chooses. -/
theorem chain_all (parent : Parent) (fromWho : Int) (tail : Bytes) (noNul : 0 ∉ line) :
    Branch.chain parent fromWho (line ++ 0 :: tail) Branch.all =
      parent.command fromWho (line ++ 0 :: tail) := by
  have asked : ∀ branch : Branch, inArray (checkCommand (line ++ 0 :: tail) branch.word) =
      .ok (decide (commandWord line = some branch.word)) := by
    intro branch
    rw [checkCommand_eq tail noNul branch.isWord_word]
    rfl
  rw [Parent.command, show Word.add = Branch.word .add from rfl, asked .add,
    show Word.join = Branch.word .join from rfl, asked .join,
    show Word.rm = Branch.word .rm from rfl, asked .rm,
    show Word.list = Branch.word .list from rfl, asked .list,
    show Word.users = Branch.word .users from rfl, asked .users,
    show Word.leave = Branch.word .leave from rfl, asked .leave]
  simp only [Branch.all, Branch.chain, asked]
  rfl

end order

/-- Whatever a message is, `check_command` compares its token with the word and stays
in front of its end. At most one branch is chosen, in every order of them. -/
theorem checkCommand_isToken (mesg : Bytes) (terminated : 0 ∈ mesg) :
    (∀ word, IsWord word →
      checkCommand mesg word = some (decide (Marked mesg ∧ token mesg = word)) ∧
        checkCommand (text mesg ++ [0]) word = checkCommand mesg word) ∧
      (∀ first second : Branch, checkCommand mesg first.word = some true →
        checkCommand mesg second.word = some true → first = second) ∧
      ∀ (order : List Branch) (parent : Parent) (fromWho : Int), order.Perm Branch.all →
        Branch.chain parent fromWho mesg order = parent.command fromWho mesg := by
  rcases exists_eq_text_append terminated with ⟨tail, split⟩
  have noNul := zero_notMem_text mesg
  generalize text mesg = line at split noNul
  subst split
  refine ⟨fun word isWord => ⟨?_, ?_⟩, fun first second => ?_, ?_⟩
  · rw [checkCommand_eq tail noNul isWord,
      decide_eq_decide.mpr (commandWord_eq_some_iff tail noNul)]
  · rw [checkCommand_eq tail noNul isWord, checkCommand_eq [] noNul isWord]
  · rw [checkCommand_eq tail noNul first.isWord_word, checkCommand_eq tail noNul second.isWord_word,
      Option.some.injEq, Option.some.injEq, decide_eq_true_eq, decide_eq_true_eq]
    intro firstFound secondFound
    exact Branch.word_injective (Option.some.inj (firstFound.symm.trans secondFound))
  · intro order parent fromWho permuted
    rw [chain_perm parent fromWho tail noNul permuted, chain_all parent fromWho tail noNul]

theorem checkCommand_isToken_join :
    checkCommand (ascii ['/', 'j', 'o', 'i', 'n', ' ', 'a'] ++ [0]) Word.join = some true :=
  ((checkCommand_isToken (ascii ['/', 'j', 'o', 'i', 'n', ' ', 'a'] ++ [0]) (by decide)).1
    Word.join (by decide)).1.trans (by decide)

end RaspberryPi.ChatServer
