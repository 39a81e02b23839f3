import RaspberryPi.Foundation.CString
import RaspberryPi.ListDir.Run

/-! # The working directory of `listDir`

`chdir("..")` is meant to undo `chdir(arg)`. It does where the argument leads to a
directory in the current one that can be searched. -/

namespace RaspberryPi.ListDir

variable {Name : Type u}

def FoundIn (foundIn : Option (List Name)) (cwd : List Name) : Prop :=
  ∀ found ∈ foundIn, cwd = found

/-- The call has left the current directory as it was, and has looked up its name in the
directory in which it was found. -/
def Call.Restores (call : Call Name) : Prop :=
  call.leave = call.enter ∧ FoundIn call.foundIn call.enter

def RestoresAll (calls : List (Call Name)) : Prop := ∀ call ∈ calls, call.Restores

def tried (tree : DirectoryTree Name) (opened : List Name) : List Name → List Name
  | [] => []
  | name :: names =>
      if tree.readable (name :: opened) then name :: tried tree opened names else [name]

/-- A call for `top` that is made in `cwd` leads to one for `dir` that is made in
`enter`. -/
inductive Visits (tree : DirectoryTree Name) :
    List Name → List Name → List Name → List Name → Prop
  | here {cwd top : List Name} : Visits tree cwd top cwd top
  | inside {cwd top enter dir : List Name} {name : Name} (readable : tree.readable top = true)
      (searchable : tree.searchable top = true)
      (member : name ∈ tried tree top (tree.subdirectories top))
      (visits : Visits tree top (name :: top) enter dir) : Visits tree cwd top enter dir

theorem foundIn_none (cwd : List Name) : FoundIn none cwd := fun _ none => nomatch none

theorem foundIn_self (cwd : List Name) : FoundIn (some cwd) cwd :=
  fun _ found => Option.some.inj found

theorem tried_subset (tree : DirectoryTree Name) (opened names : List Name) :
    tried tree opened names ⊆ names := by
  induction names with
  | nil => exact List.Subset.refl _
  | cons name names induction =>
      rw [tried]
      split_ifs
      · exact List.cons_subset_cons name induction
      · exact List.cons_subset_cons name (List.nil_subset _)

section visits

variable {tree : DirectoryTree Name} {cwd top enter dir : List Name}

theorem Visits.of_not_readable (visits : Visits tree cwd top enter dir)
    (closed : ¬tree.readable top = true) : enter = cwd ∧ dir = top := by
  cases visits with
  | here => exact ⟨rfl, rfl⟩
  | inside readable => exact absurd readable closed

theorem Visits.of_not_searchable (visits : Visits tree cwd top enter dir)
    (closed : ¬tree.searchable top = true) : enter = cwd ∧ dir = top := by
  cases visits with
  | here => exact ⟨rfl, rfl⟩
  | inside _ searchable => exact absurd searchable closed

end visits

theorem restoresAll_nil : RestoresAll ([] : List (Call Name)) := fun _ member => nomatch member

theorem restoresAll_cons {call : Call Name} {calls : List (Call Name)} :
    RestoresAll (call :: calls) ↔ call.Restores ∧ RestoresAll calls :=
  List.forall_mem_cons

theorem restoresAll_cons_mk {foundIn opened : Option (List Name)} {cwd leave : List Name}
    {arg : Path Name} {calls : List (Call Name)} :
    RestoresAll (⟨foundIn, cwd, arg, opened, leave⟩ :: calls) ↔
      (leave = cwd ∧ FoundIn foundIn cwd) ∧ RestoresAll calls := restoresAll_cons

theorem restoresAll_append {first second : List (Call Name)} :
    RestoresAll (first ++ second) ↔ RestoresAll first ∧ RestoresAll second :=
  List.forall_mem_append

variable [DecidableEq Name] {tree : DirectoryTree Name}

/-- After `chdir(arg)` to `dir`, `chdir("..")` leads back to `cwd`. If the first one
fails, the other must fail as well, or lead nowhere, and there must be nothing that is
taken for a directory in between. -/
def Undone (tree : DirectoryTree Name) (cwd dir : List Name) : Prop :=
  if tree.searchable dir then tree.parentDir dir = cwd
  else tree.parentDir cwd = cwd ∧ dirName tree cwd dir = []

instance (cwd dir : List Name) : Decidable (Undone tree cwd dir) := by
  unfold Undone
  infer_instance

def AllUndone (tree : DirectoryTree Name) (cwd : List Name) (arg : Path Name) : Prop :=
  ∀ top, tree.resolve cwd arg = some top → ∀ enter dir, Visits tree cwd top enter dir →
    tree.readable dir = true → Undone tree enter dir

section entries

variable {cwd opened : List Name} {arg : Path Name} {name : Name}

theorem collect_of_not_searchable (closed : tree.searchable cwd = false)
    (entries : List (Component Name)) : collect tree cwd false entries = [] := by
  induction entries with
  | nil => rfl
  | cons entry rest induction =>
      have fails : tree.lstat cwd entry = none := by simp [DirectoryTree.lstat, closed]
      cases entry with
      | here => rw [collect, fails, Option.getD_none, induction]
      | up => rw [collect, fails, Option.getD_none, induction]
      | name name =>
          rw [collect, fails, Option.getD_none]
          exact induction

theorem collect_of_searchable (searchable : tree.searchable cwd = true) (statBuf : Bool)
    {entries : List (Component Name)} (listed : ∀ entry ∈ entries, entry ∈ tree.listing cwd) :
    collect tree cwd statBuf entries = entries.filterMap fun
      | .name name => if tree.isDirectory (name :: cwd) then some name else none
      | .here | .up => none := by
  induction entries generalizing statBuf with
  | nil => rfl
  | cons entry rest induction =>
      rw [List.forall_mem_cons] at listed
      cases entry with
      | here =>
          rw [collect, induction _ listed.2, List.filterMap_cons]
      | up =>
          rw [collect, induction _ listed.2, List.filterMap_cons]
      | name name =>
          have found : tree.lstat cwd (.name name) = some (tree.isDirectory (name :: cwd)) := by
            rw [DirectoryTree.lstat, if_pos searchable]
            exact if_pos listed.1
          rw [collect, found, Option.getD_some, induction _ listed.2, List.filterMap_cons]
          dsimp only
          split_ifs with directory
          · rfl
          · rfl

theorem dirName_self (searchable : tree.searchable opened = true) :
    dirName tree opened opened = tree.subdirectories opened :=
  collect_of_searchable searchable false fun _ member => member

theorem enterDir_of_resolve (resolved : tree.resolve cwd arg = some opened) :
    enterDir tree cwd arg = if tree.searchable opened then opened else cwd := by
  rw [enterDir, DirectoryTree.chdir, resolved, Option.filter]
  split_ifs
  · rfl
  · rfl

theorem opendir_eq_some_iff :
    tree.opendir cwd arg = some opened ↔
      tree.resolve cwd arg = some opened ∧ tree.readable opened = true := by
  rw [DirectoryTree.opendir, Option.filter_eq_some_iff]

end entries

section condition

variable {cwd opened : List Name} {arg : Path Name} {name : Name}

theorem opendir_eq_none_iff_of_mem (directory : tree.Directory opened)
    (searchable : tree.searchable opened = true) (member : name ∈ tree.subdirectories opened) :
    tree.opendir opened (.single (.name name)) = none ↔
      ¬tree.readable (name :: opened) = true := by
  rw [DirectoryTree.opendir,
    DirectoryTree.resolve_of_mem_subdirectories directory searchable member]
  simp

theorem allUndone_of_fails (fails : tree.opendir cwd arg = none) : AllUndone tree cwd arg := by
  intro top resolved enter dir visits readable
  have closed : ¬tree.readable top = true := by
    intro open_
    rw [opendir_eq_some_iff.mpr ⟨resolved, open_⟩] at fails
    cases fails
  obtain rfl := (visits.of_not_readable closed).2
  exact absurd readable closed

theorem allUndone_of_resolve (resolved : tree.resolve cwd arg = some opened) :
    AllUndone tree cwd arg ↔ ∀ enter dir, Visits tree cwd opened enter dir →
      tree.readable dir = true → Undone tree enter dir := by
  simp only [AllUndone, resolved, Option.some.injEq, forall_eq']

/-- A directory that can be searched is undone by itself, then come those in it. -/
theorem allUndone_iff_of_searchable (resolved : tree.resolve cwd arg = some opened)
    (directory : tree.Directory opened) (readable : tree.readable opened = true)
    (searchable : tree.searchable opened = true) :
    AllUndone tree cwd arg ↔ tree.parentDir opened = cwd ∧
      ∀ name ∈ tried tree opened (tree.subdirectories opened),
        AllUndone tree opened (.single (.name name)) := by
  have own : Undone tree cwd opened ↔ tree.parentDir opened = cwd := by
    rw [Undone, if_pos searchable]
  have child : ∀ name ∈ tried tree opened (tree.subdirectories opened),
      tree.resolve opened (.single (.name name)) = some (name :: opened) := fun name member =>
    DirectoryTree.resolve_of_mem_subdirectories directory searchable (tried_subset _ _ _ member)
  rw [allUndone_of_resolve resolved]
  constructor
  · intro undone
    refine ⟨own.mp (undone _ _ .here readable), fun name member => ?_⟩
    rw [allUndone_of_resolve (child name member)]
    exact fun enter dir visits => undone enter dir (.inside readable searchable member visits)
  · intro undone enter dir visits isReadable
    cases visits with
    | here => exact own.mpr undone.1
    | inside _ _ member visits =>
        have later := undone.2 _ member
        rw [allUndone_of_resolve (child _ member)] at later
        exact later enter dir visits isReadable

theorem allUndone_iff_of_not_searchable (resolved : tree.resolve cwd arg = some opened)
    (readable : tree.readable opened = true) (closed : ¬tree.searchable opened = true) :
    AllUndone tree cwd arg ↔ tree.parentDir cwd = cwd ∧ dirName tree cwd opened = [] := by
  have own : Undone tree cwd opened ↔ tree.parentDir cwd = cwd ∧ dirName tree cwd opened = [] := by
    rw [Undone, if_neg closed]
  rw [allUndone_of_resolve resolved, ← own]
  constructor
  · exact fun undone => undone _ _ .here readable
  · intro undone enter dir visits _
    rcases visits.of_not_searchable closed with ⟨rfl, rfl⟩
    exact undone

end condition

section loop

variable {cwd opened last : List Name} {names : List Name} {calls later : List (Call Name)}
  {name : Name} {listed : Return Name}

structure LoopRestores (tree : DirectoryTree Name) (opened cwd names last : List Name)
    (calls : List (Call Name)) : Prop where
  empty : names = [] → calls = [] ∧ last = cwd
  /-- The first call is made. -/
  first : names ≠ [] → ∃ call ∈ calls, call.enter = cwd ∧ call.foundIn = some opened
  restores : cwd = opened → tree.Directory opened → tree.searchable opened = true →
    (∀ name ∈ names, name ∈ tree.subdirectories opened) →
    (RestoresAll calls ↔ ∀ name ∈ tried tree opened names,
      AllUndone tree opened (.single (.name name)))
  returns : cwd = opened → RestoresAll calls → last = opened

theorem loopRestores_nil (opened cwd : List Name) : LoopRestores tree opened cwd [] cwd [] where
  empty := fun _ => ⟨rfl, rfl⟩
  first := fun nonempty => absurd rfl nonempty
  restores := by
    intro _ _ _ _
    exact iff_of_true restoresAll_nil fun _ member => nomatch member
  returns := fun same _ => same

theorem Returns.cwd_eq (called : Returns tree (some opened) cwd (.single (.name name)) listed)
    (restores : RestoresAll listed.calls) : listed.cwd = cwd := by
  rcases called.first with ⟨_, others, calls⟩
  rw [calls, restoresAll_cons] at restores
  exact restores.1.1

theorem Returns.exists_mem (called : Returns tree (some opened) cwd (.single (.name name)) listed) :
    ∃ call ∈ listed.calls, call.enter = cwd ∧ call.foundIn = some opened := by
  rcases called.first with ⟨_, others, calls⟩
  rw [calls]
  exact ⟨_, List.mem_cons_self, rfl, rfl⟩

theorem loopRestores_stops (names : List Name)
    (called : Returns tree (some opened) cwd (.single (.name name)) listed)
    (ofCall : tree.Directory cwd → (RestoresAll listed.calls ↔
      FoundIn (some opened) cwd ∧ AllUndone tree cwd (.single (.name name))))
    (failed : listed.result = -1) :
    LoopRestores tree opened cwd (name :: names) listed.cwd listed.calls where
  empty := fun empty => absurd empty (List.cons_ne_nil _ _)
  first := fun _ => called.exists_mem
  restores := by
    rintro rfl directory searchable members
    have member := members name List.mem_cons_self
    have closed := (opendir_eq_none_iff_of_mem directory searchable member).mp
      (called.first.1.mp failed)
    rw [ofCall directory, and_iff_right (foundIn_self cwd), tried, if_neg closed,
      List.forall_mem_singleton]
  returns := by
    rintro rfl restores
    exact called.cwd_eq restores

theorem loopRestores_goesOn
    (called : Returns tree (some opened) cwd (.single (.name name)) listed)
    (ofCall : tree.Directory cwd → (RestoresAll listed.calls ↔
      FoundIn (some opened) cwd ∧ AllUndone tree cwd (.single (.name name))))
    (worked : listed.result ≠ -1) (rest : LoopRestores tree opened listed.cwd names last later) :
    LoopRestores tree opened cwd (name :: names) last (listed.calls ++ later) where
  empty := fun empty => absurd empty (List.cons_ne_nil _ _)
  first := by
    intro _
    rcases called.exists_mem with ⟨call, member, both⟩
    exact ⟨call, List.mem_append_left _ member, both⟩
  restores := by
    rintro rfl directory searchable members
    rw [List.forall_mem_cons] at members
    have open_ : tree.readable (name :: cwd) = true := by
      by_contra closed
      exact worked (called.first.1.mpr
        ((opendir_eq_none_iff_of_mem directory searchable members.1).mpr closed))
    rw [restoresAll_append, ofCall directory, and_iff_right (foundIn_self cwd), tried,
      if_pos open_, List.forall_mem_cons]
    apply and_congr_right
    intro undone
    have back := called.cwd_eq ((ofCall directory).mpr ⟨foundIn_self cwd, undone⟩)
    exact rest.restores back directory searchable members.2
  returns := by
    rintro rfl restores
    rw [restoresAll_append] at restores
    exact rest.returns (called.cwd_eq restores.1) restores.2

end loop

section run

variable {cwd opened last : List Name} {arg : Path Name} {foundIn : Option (List Name)}
  {calls : List (Call Name)}

theorem restoresAll_of_searchable (resolved : tree.resolve cwd arg = some opened)
    (directory : tree.Directory opened) (readable : tree.readable opened = true)
    (searchable : tree.searchable opened = true)
    (loop : LoopRestores tree opened opened (tree.subdirectories opened) last calls) :
    RestoresAll (⟨foundIn, cwd, arg, some opened, tree.parentDir last⟩ :: calls) ↔
      FoundIn foundIn cwd ∧ AllUndone tree cwd arg := by
  rw [restoresAll_cons_mk,
    allUndone_iff_of_searchable resolved directory readable searchable,
    ← loop.restores rfl directory searchable fun _ member => member]
  constructor
  · rintro ⟨⟨back, found⟩, restores⟩
    rw [loop.returns rfl restores] at back
    exact ⟨found, back, restores⟩
  · rintro ⟨found, back, restores⟩
    rw [loop.returns rfl restores]
    exact ⟨⟨back, found⟩, restores⟩

theorem restoresAll_of_not_searchable (resolved : tree.resolve cwd arg = some opened)
    (readable : tree.readable opened = true) (searchable : ¬tree.searchable opened = true)
    (loop : LoopRestores tree opened cwd (dirName tree cwd opened) last calls) :
    RestoresAll (⟨foundIn, cwd, arg, some opened, tree.parentDir last⟩ :: calls) ↔
      FoundIn foundIn cwd ∧ AllUndone tree cwd arg := by
  rw [restoresAll_cons_mk,
    allUndone_iff_of_not_searchable resolved readable searchable]
  by_cases nothing : dirName tree cwd opened = []
  · rcases loop.empty nothing with ⟨rfl, rfl⟩
    rw [and_iff_left nothing, and_iff_left restoresAll_nil, and_comm]
  · refine iff_of_false ?_ fun holds => nothing holds.2.2
    rintro ⟨_, restores⟩
    rcases loop.first nothing with ⟨call, member, enters, found⟩
    have inPlace := (restores call member).2
    rw [found, enters] at inPlace
    obtain rfl := inPlace opened rfl
    exact nothing (collect_of_not_searchable (Bool.not_eq_true _ ▸ searchable) _)

/-- A run restores the current directory in every call exactly if each `chdir` is
undone. -/
theorem restoresAll_iff {returned : Return Name} (directory : tree.Directory cwd)
    (returns : Returns tree foundIn cwd arg returned) :
    RestoresAll returned.calls ↔ FoundIn foundIn cwd ∧ AllUndone tree cwd arg := by
  revert directory
  apply returns_induction (fun foundIn cwd arg returned => tree.Directory cwd →
    (RestoresAll returned.calls ↔ FoundIn foundIn cwd ∧ AllUndone tree cwd arg))
    (LoopRestores tree) _ _ _ _ _ returns
  · intro foundIn cwd arg fails directory
    rw [restoresAll_cons, and_iff_left restoresAll_nil,
      and_iff_left (allUndone_of_fails fails)]
    exact and_iff_right rfl
  · intro foundIn cwd arg opened last calls opens fits loop directory
    rcases opendir_eq_some_iff.mp opens with ⟨resolved, readable⟩
    have openedDirectory := DirectoryTree.directory_of_resolve directory resolved
    rw [enterDir_of_resolve resolved] at loop
    by_cases searchable : tree.searchable opened = true
    · rw [if_pos searchable, dirName_self searchable] at loop
      exact restoresAll_of_searchable resolved openedDirectory readable searchable loop
    · rw [if_neg searchable] at loop
      exact restoresAll_of_not_searchable resolved readable searchable loop
  · exact loopRestores_nil
  · exact fun opened cwd name names listed called ofCall failed =>
      loopRestores_stops names called ofCall failed
  · exact fun opened cwd name names listed last later called ofCall worked rest =>
      loopRestores_goesOn called ofCall worked rest

end run

/-- A run that returns does so in the directory in which it began, as does every call in
it, and every name is looked up where it was found, exactly if each `chdir` is undone. -/
theorem listDir_restores_iff (tree : DirectoryTree Name) (cwd : List Name) (arg : Path Name)
    (returned : Return Name) (directory : tree.Directory cwd)
    (returns : Returns tree none cwd arg returned) :
    returned.cwd = cwd ∧ RestoresAll returned.calls ↔ AllUndone tree cwd arg := by
  have all := restoresAll_iff directory returns
  rw [and_iff_right (foundIn_none cwd)] at all
  rw [← all]
  apply and_iff_right_of_imp
  intro restores
  rcases returns.first with ⟨_, others, calls⟩
  rw [calls, restoresAll_cons] at restores
  exact restores.1.1

def oneDirectory : DirectoryTree Bytes where
  listing location :=
    if location = [] then [.here, .up, .name (CString.ascii ['a'])] else [.here, .up]
  isDirectory _ := true
  readable _ := true
  searchable _ := true
  height := 1
  nodup location := by
    split_ifs
    · decide
    · decide
  bounded location directory := by
    cases location with
    | nil => exact Nat.zero_le 1
    | cons name parent =>
        cases parent with
        | nil => exact Nat.le_refl 1
        | cons above others =>
            have member := directory.2.1
            simp at member

def listedA : Return Bytes where
  result := 0
  cwd := []
  calls := [⟨none, [], .single (.name (CString.ascii ['a'])), some [CString.ascii ['a']], []⟩]

theorem listDir_restores_iff_oneDirectory :
    listedA.cwd = [] ∧ RestoresAll listedA.calls ↔
      AllUndone oneDirectory [] (.single (.name (CString.ascii ['a']))) :=
  listDir_restores_iff oneDirectory [] (.single (.name (CString.ascii ['a']))) listedA trivial
    ⟨1, rfl⟩

/-- Listing `.` in `/a` ends in the directory above. -/
theorem not_restores_here :
    ¬∀ (tree : DirectoryTree Bytes) (cwd : List Bytes) (arg : Path Bytes)
      (returned : Return Bytes), tree.Directory cwd → Returns tree none cwd arg returned →
        returned.cwd = cwd ∧ RestoresAll returned.calls := by
  intro always
  have restored := always oneDirectory [CString.ascii ['a']] (.single .here) _ (by decide) ⟨1, rfl⟩
  exact absurd restored.1 (by decide)

end RaspberryPi.ListDir
