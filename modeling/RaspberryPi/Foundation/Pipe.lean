import Mathlib.Data.List.Basic

/-! # Pipes

A pipe is a first-in first-out stream of bytes that keeps no record of where
one write ended and the next began. The model remembers the writes only so that
"the reader stands between two of them" can be said. -/

namespace RaspberryPi

structure Pipe (α : Type u) where
  written : List (List α)
  taken : Nat
  takenLe : taken ≤ written.flatten.length

namespace Pipe

variable {α : Type u}

def empty : Pipe α where
  written := []
  taken := 0
  takenLe := Nat.le_refl 0

def unread (pipe : Pipe α) : List α := pipe.written.flatten.drop pipe.taken

def write (pipe : Pipe α) (record : List α) : Pipe α where
  written := pipe.written ++ [record]
  taken := pipe.taken
  takenLe := by
    have bound := pipe.takenLe
    simp only [List.flatten_append, List.length_append]
    omega

def chunk (pipe : Pipe α) (count : Nat) : List α := pipe.unread.take count

def read (pipe : Pipe α) (count : Nat) : Pipe α where
  written := pipe.written
  taken := min (pipe.taken + count) pipe.written.flatten.length
  takenLe := Nat.min_le_right _ _

@[simp] theorem unread_write (pipe : Pipe α) (record : List α) :
    (pipe.write record).unread = pipe.unread ++ record := by
  simp [unread, write, List.drop_append_of_le_length pipe.takenLe]

@[simp] theorem unread_read (pipe : Pipe α) (count : Nat) :
    (pipe.read count).unread = pipe.unread.drop count := by
  simp only [unread, read, List.drop_drop]
  by_cases enough : pipe.taken + count ≤ pipe.written.flatten.length
  · rw [Nat.min_eq_left enough]
  · rw [Nat.min_eq_right (by omega), List.drop_of_length_le (Nat.le_refl _),
      List.drop_of_length_le (by omega)]

theorem unread_eq_nil_iff {pipe : Pipe α} :
    pipe.unread = [] ↔ ¬pipe.taken < pipe.written.flatten.length := by
  rw [unread, List.drop_eq_nil_iff, Nat.not_lt]

theorem chunk_append_unread (pipe : Pipe α) (count : Nat) :
    pipe.chunk count ++ (pipe.read count).unread = pipe.unread := by
  rw [unread_read, chunk, List.take_append_drop]

def delivered (pipe : Pipe α) : List α := pipe.written.flatten.take pipe.taken

@[simp] theorem delivered_write (pipe : Pipe α) (record : List α) :
    (pipe.write record).delivered = pipe.delivered := by
  simp [delivered, write, List.take_append_of_le_length pipe.takenLe]

@[simp] theorem delivered_read (pipe : Pipe α) (count : Nat) :
    (pipe.read count).delivered = pipe.delivered ++ pipe.chunk count := by
  rw [delivered, delivered, chunk, unread, ← List.take_add]
  exact List.take_eq_take_min.symm

end Pipe

end RaspberryPi
