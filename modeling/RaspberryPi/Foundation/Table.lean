import Mathlib.Data.List.Basic

/-! # Tables of bounded capacity

A fixed array of slots whose first `count` ones are in use, as C programs keep
a growing and shrinking list in a static array. `entries` is the list the
table stands for; every operation comes with its effect on that list. -/

namespace RaspberryPi

structure Table (α : Type u) (capacity : Nat) where
  slots : List α
  size : slots.length = capacity
  count : Nat
  countLe : count ≤ capacity

namespace Table

variable {α : Type u} {capacity : Nat}

def entries (table : Table α capacity) : List α := table.slots.take table.count

def empty (fill : α) : Table α capacity where
  slots := List.replicate capacity fill
  size := List.length_replicate
  count := 0
  countLe := Nat.zero_le capacity

def push (table : Table α capacity) (value : α)
    (free : table.count < capacity) : Table α capacity where
  slots := table.slots.set table.count value
  size := by rw [List.length_set, table.size]
  count := table.count + 1
  countLe := free

def modify (table : Table α capacity) (index : Nat) (update : α → α) :
    Table α capacity where
  slots := table.slots.modify index update
  size := by rw [List.length_modify, table.size]
  count := table.count
  countLe := table.countLe

/-- Update every slot in use, as a loop over the first `count` indices does. -/
def updateAll (table : Table α capacity) (update : α → α) : Table α capacity where
  slots := table.entries.map update ++ table.slots.drop table.count
  size := by
    have bound := table.countLe
    simp only [entries, List.length_append, List.length_map, List.length_take,
      List.length_drop, table.size]
    omega
  count := table.count
  countLe := table.countLe

/-- `steps` rounds of `slots[j] = slots[j + 1]`, with `j` counting up from `first`. -/
def shiftDown (slots : List α) (first : Nat) : Nat → List α
  | 0 => slots
  | steps + 1 =>
      let shifted := match slots[first + 1]? with
        | some following => slots.set first following
        | none => slots
      shiftDown shifted (first + 1) steps

theorem length_shiftDown (slots : List α) (first steps : Nat) :
    (shiftDown slots first steps).length = slots.length := by
  induction steps generalizing slots first with
  | zero => rfl
  | succ steps induction =>
      rw [shiftDown, induction]
      cases slots[first + 1]? <;> simp

def shiftChecked (slots : List α) (first : Nat) : Nat → Option (List α)
  | 0 => some slots
  | steps + 1 =>
      match slots[first + 1]? with
      | some following =>
          if first < slots.length then shiftChecked (slots.set first following) (first + 1) steps
          else none
      | none => none

theorem shiftChecked_eq {slots : List α} {first steps : Nat}
    (inside : first + steps < slots.length) :
    shiftChecked slots first steps = some (shiftDown slots first steps) := by
  induction steps generalizing slots first with
  | zero => rfl
  | succ steps induction =>
      have readable : first + 1 < slots.length := by omega
      have writable : first < slots.length := by omega
      rw [shiftChecked, shiftDown, List.getElem?_eq_getElem readable]
      simp only [if_pos writable]
      apply induction
      rw [List.length_set]
      omega

/-- Close the gap at `index` by moving the later entries down one slot. The
last used slot keeps a stale copy, which is no longer counted. -/
def removeAt (table : Table α capacity) (index : Nat) : Table α capacity where
  slots := shiftDown table.slots index (table.count - 1 - index)
  size := by rw [length_shiftDown, table.size]
  count := table.count - 1
  countLe := Nat.le_trans (Nat.sub_le _ _) table.countLe

@[simp] theorem length_entries (table : Table α capacity) :
    table.entries.length = table.count := by
  have bound := table.countLe
  rw [entries, List.length_take, table.size]
  omega

@[simp] theorem entries_push (table : Table α capacity) (value : α)
    (free : table.count < capacity) :
    (table.push value free).entries = table.entries ++ [value] := by
  have inRange : table.count < table.slots.length := by rw [table.size]; exact free
  change (table.slots.set table.count value).take (table.count + 1) =
    table.slots.take table.count ++ [value]
  rw [List.take_add_one, List.take_set, List.getElem?_set_self inRange,
    List.set_eq_of_length_le (by rw [List.length_take]; omega)]
  rfl

@[simp] theorem entries_modify (table : Table α capacity) (index : Nat)
    (update : α → α) :
    (table.modify index update).entries = table.entries.modify index update :=
  List.take_modify ..

@[simp] theorem entries_updateAll (table : Table α capacity) (update : α → α) :
    (table.updateAll update).entries = table.entries.map update := by
  have length : (table.entries.map update).length = table.count := by simp
  change (table.entries.map update ++ table.slots.drop table.count).take
    table.count = _
  rw [← length, List.take_left]

theorem getElem?_shiftDown (slots : List α) (first steps index : Nat)
    (inRange : first + steps < slots.length) :
    (shiftDown slots first steps)[index]? =
      if first ≤ index ∧ index < first + steps then slots[index + 1]?
      else slots[index]? := by
  induction steps generalizing slots first with
  | zero =>
      have outside : ¬(first ≤ index ∧ index < first + 0) := by omega
      rw [if_neg outside]
      rfl
  | succ steps induction =>
      have nextInRange : first + 1 < slots.length := by omega
      rw [shiftDown, List.getElem?_eq_getElem nextInRange]
      rw [induction _ _ (by rw [List.length_set]; omega)]
      simp only [List.getElem?_set]
      by_cases atFirst : index = first
      · subst atFirst
        have before : ¬(index + 1 ≤ index ∧ index < index + 1 + steps) := by omega
        have moved : index ≤ index ∧ index < index + (steps + 1) := by omega
        have valid : index < slots.length := by omega
        rw [if_neg before, if_pos moved, if_pos rfl, if_pos valid,
          List.getElem?_eq_getElem nextInRange]
      · have unchanged : ¬first = index := Ne.symm atFirst
        by_cases moved : first + 1 ≤ index ∧ index < first + 1 + steps
        · have nextUnchanged : ¬first = index + 1 := by omega
          rw [if_pos moved, if_neg nextUnchanged, if_pos (by omega)]
        · rw [if_neg moved, if_neg unchanged, if_neg (by omega)]

/-- Removing by shifting erases exactly the one entry. -/
@[simp] theorem entries_removeAt (table : Table α capacity) (index : Nat)
    (used : index < table.count) :
    (table.removeAt index).entries = table.entries.eraseIdx index := by
  have bound := table.countLe
  have size := table.size
  apply List.ext_getElem?
  intro position
  change ((shiftDown table.slots index (table.count - 1 - index)).take
    (table.count - 1))[position]? = ((table.slots.take table.count).eraseIdx index)[position]?
  rw [List.getElem?_take, List.getElem?_eraseIdx,
    getElem?_shiftDown _ _ _ _ (by omega)]
  simp only [List.getElem?_take]
  by_cases kept : position < table.count - 1
  · by_cases below : position < index
    · rw [if_pos kept, if_neg (by omega), if_pos below, if_pos (by omega)]
    · rw [if_pos kept, if_pos (by omega), if_neg below, if_pos (by omega)]
  · rw [if_neg kept, if_neg (by omega), if_neg (by omega)]

/-- What is written to an entry that is then removed leaves no trace. -/
theorem entries_removeAt_modify (table : Table α capacity) {index : Nat}
    (update : α → α) (used : index < table.count) :
    ((table.modify index update).removeAt index).entries = table.entries.eraseIdx index := by
  have stillUsed : index < (table.modify index update).count := used
  rw [entries_removeAt _ _ stillUsed, entries_modify, List.eraseIdx_modify_of_eq]

/-- The entry in the middle of three goes; its successor moves down. -/
example : ((⟨[1, 2, 3, 0], rfl, 3, by decide⟩ : Table Nat 4).removeAt 1).entries =
    [1, 3] := rfl

end Table

end RaspberryPi
