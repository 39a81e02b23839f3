import Mathlib.Data.List.Basic

/-! # The layout of a C structure

The members lie in the order of their declaration, each at the next multiple of
its alignment. -/

namespace RaspberryPi

/-- A member of a structure. An array has the alignment of its elements. -/
structure Member (Name : Type u) where
  name : Name
  size : Nat
  alignment : Nat

def alignUp (alignment offset : Nat) : Nat := (offset + (alignment - 1)) / alignment * alignment

theorem alignUp_of_dvd {alignment offset : Nat} (divides : alignment ∣ offset) :
    alignUp alignment offset = offset := by
  rcases divides with ⟨count, rfl⟩
  rw [alignUp]
  cases alignment with
  | zero => rw [Nat.zero_mul, Nat.mul_zero]
  | succ below =>
      rw [Nat.add_sub_cancel, Nat.mul_add_div (Nat.succ_pos below),
        Nat.div_eq_of_lt (Nat.lt_succ_self below), Nat.add_zero, Nat.mul_comm]

namespace Layout

variable {Name : Type u} [DecidableEq Name] {Cell : Type v}

/-- Where a member lies when those that are left begin after `offset`. -/
def offsetOf (name : Name) : Nat → List (Member Name) → Nat
  | offset, [] => offset
  | offset, member :: members =>
      if member.name = name then alignUp member.alignment offset
      else offsetOf name (alignUp member.alignment offset + member.size) members

def sizeOf (name : Name) : List (Member Name) → Nat
  | [] => 0
  | member :: members => if member.name = name then member.size else sizeOf name members

def extent : Nat → List (Member Name) → Nat
  | offset, [] => offset
  | offset, member :: members => extent (alignUp member.alignment offset + member.size) members

/-- The size of the structure, which an array of such structures needs for each. -/
def size (members : List (Member Name)) : Nat :=
  alignUp ((members.map Member.alignment).foldl max 1) (extent 0 members)

def read (name : Name) (members : List (Member Name)) (memory : List Cell) : List Cell :=
  (memory.drop (offsetOf name 0 members)).take (sizeOf name members)

def Packed : Nat → List (Member Name) → Prop
  | _, [] => True
  | offset, member :: members =>
      member.alignment ∣ offset ∧ Packed (offset + member.size) members

instance : ∀ (offset : Nat) (members : List (Member Name)), Decidable (Packed offset members)
  | _, [] => .isTrue trivial
  | offset, member :: members =>
      have := instDecidablePacked (offset + member.size) members
      inferInstanceAs (Decidable (_ ∧ _))

theorem drop_offsetOf {contents : Name → List Cell} {members : List (Member Name)} {name : Name}
    (sizes : members.map Member.size = members.map fun member => (contents member.name).length)
    (present : name ∈ members.map Member.name) (before behind : List Cell)
    (packed : Packed before.length members) :
    ((before ++ (members.map fun member => contents member.name).flatten ++ behind).drop
      (offsetOf name before.length members)).take (sizeOf name members) = contents name := by
  induction members generalizing before with
  | nil => exact absurd present List.not_mem_nil
  | cons member members induction =>
      rcases packed with ⟨divides, packed⟩
      have length : member.size = (contents member.name).length := (List.cons.inj sizes).1
      rw [offsetOf, sizeOf, alignUp_of_dvd divides, List.map_cons, List.flatten_cons]
      by_cases same : member.name = name
      · rw [if_pos same, if_pos same, length, same, List.append_assoc, List.drop_left,
          List.append_assoc, List.take_left]
      · rw [if_neg same, if_neg same]
        have elsewhere : name ∈ members.map Member.name := by
          rcases List.mem_cons.mp present with equal | later
          · exact absurd equal.symm same
          · exact later
        have next : (before ++ contents member.name).length = before.length + member.size := by
          rw [List.length_append, length]
        have rest := induction (List.cons.inj sizes).2 elsewhere (before ++ contents member.name)
          (next ▸ packed)
        rw [next] at rest
        rw [← List.append_assoc before]
        exact rest

end Layout

end RaspberryPi
