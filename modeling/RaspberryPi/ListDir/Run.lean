import RaspberryPi.Foundation.DirectoryTree

/-! # `listDir` of `list.c`

A call opens a directory, goes there, reads it, calls itself for the directories
among what it has read and goes up again. No `chdir` is checked. -/

namespace RaspberryPi.ListDir

variable {Name : Type u}

def dirNameSize : Nat := 255

structure Call (Name : Type u) where
  /-- The directory in which the name was found; the first call gets a path from outside. -/
  foundIn : Option (List Name)
  /-- The current directory at its begin. -/
  enter : List Name
  arg : Path Name
  opened : Option (List Name)
  /-- The current directory at its end. -/
  leave : List Name

/-- What a call returns, the current directory then, and the calls that there were,
itself first. -/
structure Return (Name : Type u) where
  result : Int
  cwd : List Name
  calls : List (Call Name)

inductive Stop
  | unfinished
  /-- A store behind the end of `dirName`. -/
  | overflow

section definitions

variable [DecidableEq Name]

/-- The loop over the entries: the names that go into `dirName`. `statBuf` is whether
it holds a directory, which a failed `lstat` leaves as it is. -/
def collect (tree : DirectoryTree Name) (cwd : List Name) :
    Bool → List (Component Name) → List Name
  | _, [] => []
  | statBuf, entry :: rest =>
      let statBuf := (tree.lstat cwd entry).getD statBuf
      match entry with
      | .here | .up => collect tree cwd statBuf rest
      | .name name =>
          if statBuf then name :: collect tree cwd statBuf rest else collect tree cwd statBuf rest

def dirName (tree : DirectoryTree Name) (cwd opened : List Name) : List Name :=
  collect tree cwd false (tree.listing opened)

def listAll (listDir : List Name → Name → Except Stop (Return Name)) :
    List Name → List Name → Except Stop (List Name × List (Call Name))
  | cwd, [] => .ok (cwd, [])
  | cwd, name :: names => do
      let listed ← listDir cwd name
      if listed.result = -1 then return (listed.cwd, listed.calls)
      let (cwd, later) ← listAll listDir listed.cwd names
      return (cwd, listed.calls ++ later)

def enterDir (tree : DirectoryTree Name) (cwd : List Name) (arg : Path Name) : List Name :=
  (tree.chdir cwd arg).getD cwd

def listDir (tree : DirectoryTree Name) :
    Nat → Option (List Name) → List Name → Path Name → Except Stop (Return Name)
  | 0, _, _, _ => .error .unfinished
  | fuel + 1, foundIn, cwd, arg =>
      match tree.opendir cwd arg with
      | none => return ⟨-1, cwd, [⟨foundIn, cwd, arg, none, cwd⟩]⟩
      | some opened => do
          let inside := enterDir tree cwd arg
          let names := dirName tree inside opened
          if dirNameSize < names.length then throw .overflow
          let (last, calls) ← listAll
            (fun cwd name => listDir tree fuel (some opened) cwd (.single (.name name)))
            inside names
          let leave := enterDir tree last (.single .up)
          return ⟨0, leave, ⟨foundIn, cwd, arg, some opened, leave⟩ :: calls⟩

end definitions

section steps

theorem listAll_cons_eq_ok {listDir : List Name → Name → Except Stop (Return Name)}
    {cwd last : List Name} {name : Name} {names : List Name} {calls : List (Call Name)} :
    listAll listDir cwd (name :: names) = .ok (last, calls) ↔
      ∃ listed, listDir cwd name = .ok listed ∧
        if listed.result = -1 then last = listed.cwd ∧ calls = listed.calls
        else ∃ later, listAll listDir listed.cwd names = .ok (last, later) ∧
          calls = listed.calls ++ later := by
  rw [listAll]
  cases ran : listDir cwd name with
  | error stop =>
      refine iff_of_false (fun done => nomatch done) ?_
      rintro ⟨listed, done, _⟩
      cases done
  | ok listed =>
      have only : ∀ {property : Return Name → Prop},
          (∃ other, Except.ok (ε := Stop) listed = .ok other ∧ property other) ↔
            property listed := by
        simp
      rw [only]
      by_cases failed : listed.result = -1
      · rw [if_pos failed]
        simp [Bind.bind, Except.bind, pure, Except.pure, failed, eq_comm]
      · rw [if_neg failed]
        cases rest : listAll listDir listed.cwd names with
        | error stop => simp [Bind.bind, Except.bind, failed, rest]
        | ok other =>
            simp [Bind.bind, Except.bind, pure, Except.pure, failed, rest, Prod.ext_iff, eq_comm]

variable [DecidableEq Name] {tree : DirectoryTree Name} {fuel : Nat}
  {foundIn : Option (List Name)} {cwd opened : List Name} {arg : Path Name}
  {returned : Return Name}

theorem listDir_of_not_opened (fails : tree.opendir cwd arg = none) :
    listDir tree (fuel + 1) foundIn cwd arg =
      .ok ⟨-1, cwd, [⟨foundIn, cwd, arg, none, cwd⟩]⟩ := by
  rw [listDir, fails]
  rfl

theorem listDir_eq_ok_of_opened (opens : tree.opendir cwd arg = some opened) :
    listDir tree (fuel + 1) foundIn cwd arg = .ok returned ↔
      (dirName tree (enterDir tree cwd arg) opened).length ≤ dirNameSize ∧
        ∃ last calls, listAll
          (fun cwd name => listDir tree fuel (some opened) cwd (.single (.name name)))
          (enterDir tree cwd arg) (dirName tree (enterDir tree cwd arg) opened) =
            .ok (last, calls) ∧
          returned = ⟨0, tree.parentDir last,
            ⟨foundIn, cwd, arg, some opened, tree.parentDir last⟩ :: calls⟩ := by
  rw [listDir, opens]
  dsimp only
  by_cases overflows : dirNameSize < (dirName tree (enterDir tree cwd arg) opened).length
  · rw [if_pos overflows]
    exact iff_of_false (fun done => nomatch done) fun holds => Nat.not_le_of_lt overflows holds.1
  · rw [if_neg overflows]
    cases ran : listAll
      (fun cwd name => listDir tree fuel (some opened) cwd (.single (.name name)))
      (enterDir tree cwd arg) (dirName tree (enterDir tree cwd arg) opened) with
    | error stop => simp [Bind.bind, Except.bind]
    | ok after =>
        change Except.ok _ = Except.ok returned ↔ _
        rw [show enterDir tree after.1 (.single .up) = tree.parentDir after.1 from
          tree.chdir_up after.1, and_iff_right (Nat.le_of_not_lt overflows), Except.ok.injEq]
        constructor
        · exact fun equal => ⟨after.1, after.2, rfl, equal.symm⟩
        · rintro ⟨last, calls, equal, rfl⟩
          obtain rfl := Except.ok.inj equal
          rfl

def Returns (tree : DirectoryTree Name) (foundIn : Option (List Name)) (cwd : List Name)
    (arg : Path Name) (returned : Return Name) : Prop :=
  ∃ fuel, listDir tree fuel foundIn cwd arg = .ok returned

theorem returns_induction
    (motive : Option (List Name) → List Name → Path Name → Return Name → Prop)
    (motiveAll : List Name → List Name → List Name → List Name → List (Call Name) → Prop)
    (fails : ∀ foundIn cwd arg, tree.opendir cwd arg = none →
      motive foundIn cwd arg ⟨-1, cwd, [⟨foundIn, cwd, arg, none, cwd⟩]⟩)
    (opens : ∀ foundIn cwd arg opened last calls, tree.opendir cwd arg = some opened →
      (dirName tree (enterDir tree cwd arg) opened).length ≤ dirNameSize →
      motiveAll opened (enterDir tree cwd arg) (dirName tree (enterDir tree cwd arg) opened)
        last calls →
      motive foundIn cwd arg ⟨0, tree.parentDir last,
        ⟨foundIn, cwd, arg, some opened, tree.parentDir last⟩ :: calls⟩)
    (done : ∀ opened cwd, motiveAll opened cwd [] cwd [])
    (stops : ∀ opened cwd name names listed,
      Returns tree (some opened) cwd (.single (.name name)) listed →
      motive (some opened) cwd (.single (.name name)) listed → listed.result = -1 →
      motiveAll opened cwd (name :: names) listed.cwd listed.calls)
    (goesOn : ∀ opened cwd name names listed last later,
      Returns tree (some opened) cwd (.single (.name name)) listed →
      motive (some opened) cwd (.single (.name name)) listed → listed.result ≠ -1 →
      motiveAll opened listed.cwd names last later →
      motiveAll opened cwd (name :: names) last (listed.calls ++ later))
    (returns : Returns tree foundIn cwd arg returned) : motive foundIn cwd arg returned := by
  rcases returns with ⟨fuel, returns⟩
  induction fuel generalizing foundIn cwd arg returned with
  | zero => cases returns
  | succ fuel induction =>
      cases found : tree.opendir cwd arg with
      | none =>
          rw [listDir_of_not_opened found] at returns
          obtain rfl := Except.ok.inj returns
          exact fails foundIn cwd arg found
      | some opened =>
          rcases (listDir_eq_ok_of_opened found).mp returns with ⟨fits, last, calls, ran, rfl⟩
          refine opens foundIn cwd arg opened last calls found fits ?_
          clear returns fits found
          generalize dirName tree (enterDir tree cwd arg) opened = names at ran ⊢
          generalize enterDir tree cwd arg = inside at ran ⊢
          induction names generalizing inside calls with
          | nil =>
              cases ran
              exact done opened _
          | cons name names inductionNames =>
              rcases listAll_cons_eq_ok.mp ran with ⟨listed, called, after⟩
              have ofCall := induction called
              split_ifs at after with failed
              · rcases after with ⟨rfl, rfl⟩
                exact stops opened inside name names listed ⟨fuel, called⟩ ofCall failed
              · rcases after with ⟨later, rest, rfl⟩
                exact goesOn opened inside name names listed last later ⟨fuel, called⟩ ofCall
                  failed (inductionNames later listed.cwd rest)

theorem Returns.first (returns : Returns tree foundIn cwd arg returned) :
    (returned.result = -1 ↔ tree.opendir cwd arg = none) ∧
      ∃ calls, returned.calls =
        ⟨foundIn, cwd, arg, tree.opendir cwd arg, returned.cwd⟩ :: calls := by
  rcases returns with ⟨fuel, returns⟩
  cases fuel with
  | zero => cases returns
  | succ fuel =>
      cases found : tree.opendir cwd arg with
      | none =>
          rw [listDir_of_not_opened found] at returns
          obtain rfl := Except.ok.inj returns
          exact ⟨iff_of_true rfl rfl, _, rfl⟩
      | some opened =>
          rcases (listDir_eq_ok_of_opened found).mp returns with ⟨_, last, calls, _, rfl⟩
          exact ⟨iff_of_false (show (0 : Int) ≠ -1 by decide) (Option.some_ne_none _), _, rfl⟩

end steps

end RaspberryPi.ListDir
