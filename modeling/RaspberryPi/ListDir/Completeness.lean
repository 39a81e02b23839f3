import RaspberryPi.ListDir.WorkingDirectory

/-! # What `listDir` lists

With directories that can all be searched a run comes to every directory that is not
behind an unreadable one among its siblings, and lists it once if it can be read. -/

namespace RaspberryPi.ListDir

variable {Name : Type u} {tree : DirectoryTree Name}

def listed (calls : List (Call Name)) : List (List Name) := calls.filterMap Call.opened

def Tries (tree : DirectoryTree Name) (top dir : List Name) : Prop :=
  ∃ cwd enter, Visits tree cwd top enter dir

section tried

variable {opened : List Name} {names : List Name} {name : Name}

end tried

section tries

variable {cwd top enter dir : List Name} {name : Name}

theorem Visits.tries (visits : Visits tree cwd top enter dir) : Tries tree top dir :=
  ⟨cwd, enter, visits⟩

theorem tries_self (tree : DirectoryTree Name) (top : List Name) : Tries tree top top :=
  (@Visits.here Name tree [] top).tries

theorem tries_iff : Tries tree top dir ↔ dir = top ∨ tree.readable top = true ∧
    tree.searchable top = true ∧ ∃ name ∈ tried tree top (tree.subdirectories top),
      Tries tree (name :: top) dir := by
  constructor
  · rintro ⟨cwd, enter, visits⟩
    cases visits with
    | here => exact Or.inl rfl
    | inside readable searchable member visits =>
        exact Or.inr ⟨readable, searchable, _, member, visits.tries⟩
  · rintro (rfl | ⟨readable, searchable, name, member, cwd, enter, visits⟩)
    · exact tries_self tree dir
    · have fromTop : ∃ enter, Visits tree top (name :: top) enter dir := by
        cases visits with
        | here => exact ⟨_, .here⟩
        | inside readable searchable member visits =>
            exact ⟨_, .inside readable searchable member visits⟩
      rcases fromTop with ⟨enter, visits⟩
      have whole : Visits tree [] top enter dir := .inside readable searchable member visits
      exact whole.tries

theorem Tries.suffix (tries : Tries tree top dir) : top <:+ dir := by
  rcases tries with ⟨cwd, enter, visits⟩
  induction visits with
  | here => exact List.suffix_refl _
  | inside _ _ _ _ induction => exact (List.suffix_cons _ _).trans induction

theorem Tries.inside (tries : Tries tree top dir) (readable : tree.readable dir = true)
    (searchable : tree.searchable dir = true)
    (member : name ∈ tried tree dir (tree.subdirectories dir)) :
    Tries tree top (name :: dir) := by
  rcases tries with ⟨cwd, enter, visits⟩
  induction visits with
  | here =>
      exact tries_iff.mpr (Or.inr ⟨readable, searchable, _, member, tries_self tree _⟩)
  | inside above aboveSearchable first _ induction =>
      exact tries_iff.mpr (Or.inr ⟨above, aboveSearchable, _, first,
        induction readable searchable member⟩)

theorem Tries.reached (tries : Tries tree top dir) : tree.Reached top dir := by
  rcases tries with ⟨cwd, enter, visits⟩
  induction visits with
  | here => exact .root
  | inside readable searchable member _ induction =>
      exact .ofSubdirectory readable (tried_subset _ _ _ member) induction

theorem Visits.directory (visits : Visits tree cwd top enter dir) (above : cwd = top.tail)
    (directory : tree.Directory top) : enter = dir.tail ∧ tree.Directory dir := by
  induction visits with
  | here => exact ⟨above, directory⟩
  | inside _ _ member _ induction =>
      exact induction rfl
        (DirectoryTree.directory_of_mem_subdirectories directory (tried_subset _ _ _ member))

end tries

section loop

variable {opened : List Name} {names : List Name} {name : Name} {calls : List (Call Name)}

end loop

section searchable

variable [DecidableEq Name] {cwd top opened : List Name} {name : Name} {arg : Path Name}
  {foundIn : Option (List Name)} {returned : Return Name}

end searchable

end RaspberryPi.ListDir
