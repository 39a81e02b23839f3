import Mathlib.Data.List.Nodup
import Mathlib.Data.List.Basic

/-! # Directory trees

Directories with permissions, and the system calls that find their way among
them. A directory is located by the names that lead to it, the last one first.
Symbolic links are not followed. -/

namespace RaspberryPi

inductive Component (Name : Type u)
  | here
  | up
  | name (name : Name)
deriving DecidableEq

/-- A path as the calls get it; one that is neither absolute nor has components is empty. -/
structure Path (Name : Type u) where
  absolute : Bool
  components : List (Component Name)
deriving DecidableEq

namespace Path

variable {Name : Type u}

def single (component : Component Name) : Path Name := ⟨false, [component]⟩

end Path

def IsDirectory {Name : Type u} (listing : List Name → List (Component Name))
    (isDirectory : List Name → Bool) : List Name → Prop
  | [] => True
  | name :: parent => IsDirectory listing isDirectory parent ∧ .name name ∈ listing parent ∧
      isDirectory (name :: parent) = true

structure DirectoryTree (Name : Type u) where
  /-- What `readdir` returns one after the other. -/
  listing : List Name → List (Component Name)
  /-- Whether the thing of that name is a directory. -/
  isDirectory : List Name → Bool
  readable : List Name → Bool
  searchable : List Name → Bool
  height : Nat
  nodup : ∀ location, (listing location).Nodup
  bounded : ∀ location, IsDirectory listing isDirectory location → location.length ≤ height

namespace DirectoryTree

variable {Name : Type u} {tree : DirectoryTree Name}

def Directory (tree : DirectoryTree Name) (location : List Name) : Prop :=
  IsDirectory tree.listing tree.isDirectory location

def subdirectories (tree : DirectoryTree Name) (location : List Name) : List Name :=
  (tree.listing location).filterMap fun
    | .name name => if tree.isDirectory (name :: location) then some name else none
    | .here | .up => none

def parentDir (tree : DirectoryTree Name) (cwd : List Name) : List Name :=
  if tree.searchable cwd && tree.searchable cwd.tail then cwd.tail else cwd

theorem mem_subdirectories {location : List Name} {name : Name} :
    name ∈ tree.subdirectories location ↔
      .name name ∈ tree.listing location ∧ tree.isDirectory (name :: location) = true := by
  rw [subdirectories, List.mem_filterMap]
  constructor
  · intro member
    rcases member with ⟨entry, listed, found⟩
    cases entry with
    | here => cases found
    | up => cases found
    | name other =>
        dsimp only at found
        split_ifs at found with directory
        obtain rfl := Option.some.inj found
        exact ⟨listed, directory⟩
  · intro holds
    rcases holds with ⟨listed, directory⟩
    exact ⟨.name name, listed, if_pos directory⟩

theorem directory_of_mem_subdirectories {location : List Name} {name : Name}
    (directory : tree.Directory location) (member : name ∈ tree.subdirectories location) :
    tree.Directory (name :: location) :=
  ⟨directory, mem_subdirectories.mp member⟩

theorem Directory.tail {location : List Name} (directory : tree.Directory location) :
    tree.Directory location.tail := by
  cases location with
  | nil => trivial
  | cons name parent => exact directory.1

section calls

variable [DecidableEq Name]

instance decidableIsDirectory (listing : List Name → List (Component Name))
    (isDirectory : List Name → Bool) : DecidablePred (IsDirectory listing isDirectory)
  | [] => .isTrue trivial
  | _ :: parent =>
      have := decidableIsDirectory listing isDirectory parent
      inferInstanceAs (Decidable (_ ∧ _ ∧ _))

instance : DecidablePred tree.Directory :=
  inferInstanceAs (DecidablePred (IsDirectory tree.listing tree.isDirectory))

def lookup (tree : DirectoryTree Name) (location : List Name) :
    Component Name → Option (List Name)
  | .here => some location
  | .up => some location.tail
  | .name entry => if tree.Directory (entry :: location) then some (entry :: location) else none

/-- The directory that the components lead to; each is looked up in a directory that
must be searchable. -/
def walk (tree : DirectoryTree Name) : List Name → List (Component Name) → Option (List Name)
  | location, [] => some location
  | location, component :: rest =>
      if tree.searchable location then
        (tree.lookup location component).bind fun next => tree.walk next rest
      else none

def resolve (tree : DirectoryTree Name) (cwd : List Name) (path : Path Name) :
    Option (List Name) :=
  if path.absolute then tree.walk [] path.components
  else if path.components = [] then none
  else tree.walk cwd path.components

def opendir (tree : DirectoryTree Name) (cwd : List Name) (path : Path Name) :
    Option (List Name) :=
  (tree.resolve cwd path).filter tree.readable

def chdir (tree : DirectoryTree Name) (cwd : List Name) (path : Path Name) :
    Option (List Name) :=
  (tree.resolve cwd path).filter tree.searchable

def lstat (tree : DirectoryTree Name) (cwd : List Name) (entry : Component Name) :
    Option Bool :=
  if tree.searchable cwd then
    match entry with
    | .here | .up => some true
    | .name name =>
        if .name name ∈ tree.listing cwd then some (tree.isDirectory (name :: cwd)) else none
  else none

theorem directory_of_walk {location found : List Name} {components : List (Component Name)}
    (directory : tree.Directory location) (walked : tree.walk location components = some found) :
    tree.Directory found := by
  induction components generalizing location with
  | nil =>
      obtain rfl := Option.some.inj walked
      exact directory
  | cons component rest induction =>
      rw [walk] at walked
      split_ifs at walked
      rcases Option.bind_eq_some_iff.mp walked with ⟨next, looked, onward⟩
      apply induction _ onward
      cases component with
      | here =>
          obtain rfl := Option.some.inj looked
          exact directory
      | up =>
          obtain rfl := Option.some.inj looked
          exact directory.tail
      | name name =>
          rw [lookup] at looked
          split_ifs at looked with isDirectory
          obtain rfl := Option.some.inj looked
          exact isDirectory

theorem directory_of_resolve {cwd found : List Name} {path : Path Name}
    (directory : tree.Directory cwd) (resolved : tree.resolve cwd path = some found) :
    tree.Directory found := by
  rw [resolve] at resolved
  split_ifs at resolved
  · have root : tree.Directory ([] : List Name) := trivial
    exact directory_of_walk root resolved
  · exact directory_of_walk directory resolved

theorem resolve_single (cwd : List Name) (component : Component Name) :
    tree.resolve cwd (.single component) =
      if tree.searchable cwd then tree.lookup cwd component else none := by
  simp [resolve, Path.single, walk]

theorem resolve_of_mem_subdirectories {cwd : List Name} {name : Name}
    (directory : tree.Directory cwd) (searchable : tree.searchable cwd = true)
    (member : name ∈ tree.subdirectories cwd) :
    tree.resolve cwd (.single (.name name)) = some (name :: cwd) := by
  rw [resolve_single, if_pos searchable, lookup,
    if_pos (directory_of_mem_subdirectories directory member)]

theorem chdir_up (cwd : List Name) :
    (tree.chdir cwd (.single .up)).getD cwd = tree.parentDir cwd := by
  rw [chdir, resolve_single, parentDir]
  cases searchable : tree.searchable cwd with
  | false => rfl
  | true =>
      cases above : tree.searchable cwd.tail with
      | false => simp [lookup, Option.filter, above]
      | true => simp [lookup, Option.filter, above]

end calls

/-- The directories that can be reached through directories that can be read. -/
inductive Reached (tree : DirectoryTree Name) (root : List Name) : List Name → Prop
  | root : Reached tree root root
  | inside {location : List Name} {name : Name} (above : Reached tree root location)
      (readable : tree.readable location = true) (member : name ∈ tree.subdirectories location) :
      Reached tree root (name :: location)

namespace Reached

variable {root location : List Name} {name : Name}

theorem ofSubdirectory (readable : tree.readable root = true)
    (member : name ∈ tree.subdirectories root)
    (reached : tree.Reached (name :: root) location) : tree.Reached root location := by
  induction reached with
  | root => exact .inside .root readable member
  | inside _ aboveReadable aboveMember induction =>
      exact .inside induction aboveReadable aboveMember

theorem suffix (reached : tree.Reached root location) : root <:+ location := by
  induction reached with
  | root => exact List.suffix_refl _
  | inside _ _ _ induction => exact induction.trans (List.suffix_cons _ _)

theorem directory (reached : tree.Reached root location) (directory : tree.Directory root) :
    tree.Directory location := by
  induction reached with
  | root => exact directory
  | inside _ _ member induction => exact directory_of_mem_subdirectories induction member

end Reached

end DirectoryTree

end RaspberryPi
