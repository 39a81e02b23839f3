import Mathlib.Data.List.Basic

/-! # Pieces

A list that is passed on in pieces and joined again keeps no record of the cuts.
When there is a limit on the number of the pieces and one on their lengths, the
cuts are known only if both limits are reached. -/

namespace RaspberryPi

variable {α : Type u}

/-- At most `slots` pieces, of at most `limit` elements each. -/
structure Fits (slots limit : Nat) (pieces : List (List α)) : Prop where
  few : pieces.length ≤ slots
  short : ∀ piece ∈ pieces, piece.length ≤ limit

namespace Fits

variable {slots limit : Nat} {pieces others : List (List α)}

theorem tail {piece : List α} (fits : Fits (slots + 1) limit (piece :: pieces)) :
    Fits slots limit pieces where
  few := Nat.le_of_succ_le_succ fits.few
  short := fun other member => fits.short other (List.mem_cons_of_mem _ member)

theorem length_flatten_le (fits : Fits slots limit pieces) :
    pieces.flatten.length ≤ slots * limit := by
  induction pieces generalizing slots with
  | nil => exact Nat.zero_le _
  | cons piece pieces induction =>
      cases slots with
      | zero => exact (Nat.not_succ_le_zero _ fits.few).elim
      | succ slots =>
          have here := fits.short piece List.mem_cons_self
          have later := induction fits.tail
          rw [List.flatten_cons, List.length_append, Nat.succ_mul]
          omega

theorem length_flatten_of_full (full : ∀ piece ∈ pieces, piece.length = limit) :
    pieces.flatten.length = pieces.length * limit := by
  induction pieces with
  | nil => rw [List.flatten_nil, List.length_nil, List.length_nil, Nat.zero_mul]
  | cons piece pieces induction =>
      rw [List.flatten_cons, List.length_append, full piece List.mem_cons_self,
        induction fun other member => full other (List.mem_cons_of_mem _ member),
        List.length_cons, Nat.succ_mul, Nat.add_comm]

/-- Nothing else that fits is joined to the same as full pieces in all slots. -/
theorem eq_of_full (positive : 0 < limit) (fits : Fits pieces.length limit others)
    (full : ∀ piece ∈ pieces, piece.length = limit)
    (same : others.flatten = pieces.flatten) : others = pieces := by
  induction pieces generalizing others with
  | nil => exact List.length_eq_zero_iff.mp (Nat.le_zero.mp fits.few)
  | cons piece pieces induction =>
      have first := full piece List.mem_cons_self
      have later : ∀ other ∈ pieces, other.length = limit :=
        fun other member => full other (List.mem_cons_of_mem _ member)
      cases others with
      | nil =>
          have length := congrArg List.length same
          rw [List.flatten_nil, List.flatten_cons, List.length_append, first,
            List.length_nil] at length
          omega
      | cons other others =>
          -- the later pieces cannot make up for a first one that is shorter
          have length := congrArg List.length same
          have bound := fits.tail.length_flatten_le
          have short := fits.short other List.mem_cons_self
          rw [List.flatten_cons, List.flatten_cons, List.length_append, List.length_append,
            first, length_flatten_of_full later] at length
          rw [List.flatten_cons, List.flatten_cons] at same
          have equal := List.append_inj same (by omega)
          rw [equal.1, induction fits.tail later equal.2]

/-! ## Other cuts -/

theorem exists_move {first second : List α} (firstShort : first.length ≤ limit)
    (secondShort : second.length ≤ limit) (firstNonempty : first ≠ [])
    (secondNonempty : second ≠ []) (room : first.length < limit ∨ second.length < limit) :
    ∃ left right, left.length ≤ limit ∧ right.length ≤ limit ∧
      left ++ right = first ++ second ∧ left ≠ first := by
  rcases room with room | room
  · rcases List.exists_cons_of_ne_nil secondNonempty with ⟨moved, rest, rfl⟩
    refine ⟨first ++ [moved], rest, ?_, ?_, ?_, ?_⟩
    · rw [List.length_append, List.length_singleton]
      exact room
    · rw [List.length_cons] at secondShort
      exact Nat.le_of_succ_le secondShort
    · rw [List.append_assoc, List.singleton_append]
    · intro same
      exact List.cons_ne_nil moved [] (List.append_right_eq_self.mp same)
  · rcases List.eq_nil_or_concat' first with empty | ⟨rest, moved, rfl⟩
    · exact (firstNonempty empty).elim
    rw [List.length_append, List.length_singleton] at firstShort
    refine ⟨rest, moved :: second, Nat.le_of_succ_le firstShort, room, ?_, ?_⟩
    · rw [List.append_assoc, List.singleton_append]
    · intro same
      exact List.cons_ne_nil moved [] (List.self_eq_append_right.mp same)

theorem exists_recut_pair {before after : List (List α)} {first second : List α}
    (fits : Fits slots limit (before ++ first :: second :: after))
    (nonempty : [] ∉ before ++ first :: second :: after)
    (room : first.length < limit ∨ second.length < limit) :
    ∃ others, Fits slots limit others ∧
      others.flatten = (before ++ first :: second :: after).flatten ∧
      others ≠ before ++ first :: second :: after := by
  have firstIn : first ∈ before ++ first :: second :: after := by simp
  have secondIn : second ∈ before ++ first :: second :: after := by simp
  rcases exists_move (fits.short first firstIn) (fits.short second secondIn)
      (fun empty => nonempty (empty ▸ firstIn)) (fun empty => nonempty (empty ▸ secondIn)) room
    with ⟨left, right, leftShort, rightShort, joined, moved⟩
  refine ⟨before ++ left :: right :: after, ⟨?_, ?_⟩, ?_, ?_⟩
  · have few := fits.few
    simp only [List.length_append, List.length_cons] at few ⊢
    exact few
  · intro piece member
    rw [List.mem_append, List.mem_cons, List.mem_cons] at member
    rcases member with inBefore | rfl | rfl | inAfter
    · exact fits.short piece (List.mem_append_left _ inBefore)
    · exact leftShort
    · exact rightShort
    · exact fits.short piece (by simp [inAfter])
  · simp only [List.flatten_append, List.flatten_cons]
    rw [← List.append_assoc left, joined, List.append_assoc]
  · intro same
    exact moved (List.cons.inj (List.append_cancel_left same)).1

theorem exists_recut_short (several : 2 ≤ pieces.length) (fits : Fits slots limit pieces)
    (nonempty : [] ∉ pieces) {piece : List α} (member : piece ∈ pieces)
    (room : piece.length < limit) :
    ∃ others, Fits slots limit others ∧ others.flatten = pieces.flatten ∧ others ≠ pieces := by
  rcases List.append_of_mem member with ⟨before, after, rfl⟩
  cases after with
  | cons next after => exact exists_recut_pair fits nonempty (Or.inl room)
  | nil =>
      rcases List.eq_nil_or_concat' before with rfl | ⟨before, previous, rfl⟩
      · exact absurd several (by simp)
      rw [List.append_assoc, List.singleton_append] at fits nonempty ⊢
      exact exists_recut_pair fits nonempty (Or.inr room)

theorem exists_recut_more (fits : Fits slots limit pieces) (free : pieces.length < slots) :
    ∃ others, Fits slots limit others ∧ others.flatten = pieces.flatten ∧ others ≠ pieces := by
  refine ⟨pieces ++ [[]], ⟨?_, ?_⟩, ?_, ?_⟩
  · rw [List.length_append, List.length_singleton]
    exact free
  · intro piece member
    rcases List.mem_append.mp member with old | new
    · exact fits.short piece old
    · rw [List.mem_singleton.mp new]
      exact Nat.zero_le _
  · rw [List.flatten_append, List.flatten_singleton, List.append_nil]
  · intro same
    exact List.cons_ne_nil [] [] (List.append_right_eq_self.mp same)

theorem exists_recut_fewer (fits : Fits slots limit pieces) (empty : [] ∈ pieces) :
    ∃ others, Fits slots limit others ∧ others.flatten = pieces.flatten ∧ others ≠ pieces := by
  rcases List.append_of_mem empty with ⟨before, after, rfl⟩
  refine ⟨before ++ after, ⟨?_, ?_⟩, ?_, ?_⟩
  · have few := fits.few
    rw [List.length_append, List.length_cons] at few
    rw [List.length_append]
    omega
  · intro piece member
    apply fits.short
    rcases List.mem_append.mp member with inBefore | inAfter
    · exact List.mem_append_left _ inBefore
    · exact List.mem_append_right _ (List.mem_cons_of_mem _ inAfter)
  · rw [List.flatten_append, List.flatten_append, List.flatten_cons, List.nil_append]
  · intro same
    have length := congrArg List.length same
    rw [List.length_append, List.length_append, List.length_cons] at length
    omega

/-- Anything that leaves a slot or a place in a piece free is joined to the same as
something else that fits. -/
theorem exists_recut (several : 2 ≤ slots) (fits : Fits slots limit pieces)
    (room : ¬(pieces.length = slots ∧ ∀ piece ∈ pieces, piece.length = limit)) :
    ∃ others, Fits slots limit others ∧ others.flatten = pieces.flatten ∧ others ≠ pieces := by
  by_cases free : pieces.length < slots
  · exact fits.exists_recut_more free
  by_cases empty : [] ∈ pieces
  · exact fits.exists_recut_fewer empty
  have count : pieces.length = slots := Nat.le_antisymm fits.few (Nat.not_lt.mp free)
  have notFull : ¬∀ piece ∈ pieces, piece.length = limit := fun full => room ⟨count, full⟩
  push Not at notFull
  rcases notFull with ⟨piece, member, unequal⟩
  have short := fits.short piece member
  exact exists_recut_short (by omega) fits empty member (by omega)

end Fits

end RaspberryPi
