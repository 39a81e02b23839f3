import Mathlib.Data.List.Chain
import Mathlib.Logic.Function.Iterate

/-! # While loops

A loop that runs a body as long as a condition holds, as the list of the states
in which the body began. -/

namespace RaspberryPi.WhileLoop

variable {State : Type u} {condition : State → Prop} [DecidablePred condition]
  {next : State → State}

/-- The rounds of `while (condition) next`; no result when they are more than the
fuel. -/
def rounds (condition : State → Prop) [DecidablePred condition] (next : State → State) :
    Nat → State → Option (List State)
  | 0, _ => none
  | fuel + 1, state =>
      if condition state then (rounds condition next fuel (next state)).map (state :: ·)
      else some []

theorem rounds_of_not {state : State} (done : ¬condition state) (fuel : Nat) :
    rounds condition next (fuel + 1) state = some [] := if_neg done

theorem rounds_of {state : State} (holds : condition state) (fuel : Nat) :
    rounds condition next (fuel + 1) state =
      (rounds condition next fuel (next state)).map (state :: ·) := if_pos holds

theorem exists_rounds (measure : State → Nat)
    (lowers : ∀ state, condition state → measure (next state) < measure state) {fuel : Nat}
    {state : State} (enough : measure state < fuel) :
    ∃ visited, rounds condition next fuel state = some visited := by
  induction fuel generalizing state with
  | zero => exact absurd enough (Nat.not_lt_zero _)
  | succ fuel induction =>
      by_cases holds : condition state
      · have lower := lowers state holds
        rcases induction (show measure (next state) < fuel by omega) with ⟨visited, later⟩
        rw [rounds_of holds, later]
        exact ⟨_, rfl⟩
      · exact ⟨[], rounds_of_not holds fuel⟩

/-- Induction over the rounds of a loop that has come to its end. -/
theorem rounds_induction {motive : State → List State → Prop}
    (done : ∀ state, ¬condition state → motive state [])
    (round : ∀ state visited, condition state → motive (next state) visited →
      motive state (state :: visited))
    {fuel : Nat} {state : State} {visited : List State}
    (ended : rounds condition next fuel state = some visited) : motive state visited := by
  induction fuel generalizing state visited with
  | zero => cases ended
  | succ fuel induction =>
      by_cases holds : condition state
      · rw [rounds_of holds] at ended
        rcases Option.map_eq_some_iff.mp ended with ⟨later, laterEnded, rfl⟩
        exact round state later holds (induction laterEnded)
      · rw [rounds_of_not holds] at ended
        obtain rfl := Option.some.inj ended
        exact done state holds

variable {fuel : Nat} {state : State} {visited : List State}

theorem head?_rounds (ended : rounds condition next fuel state = some visited) :
    visited.head? = if condition state then some state else none := by
  apply rounds_induction _ _ ended
  · intro state done
    rw [if_neg done]
    rfl
  · intro state later holds _
    rw [if_pos holds]
    rfl

theorem last_rounds (ended : rounds condition next fuel state = some visited) :
    ∀ last ∈ visited.getLast?, ¬condition (next last) := by
  have both : (visited = [] → ¬condition state) ∧
      ∀ last ∈ visited.getLast?, ¬condition (next last) := by
    apply rounds_induction (motive := fun state visited => (visited = [] → ¬condition state) ∧
      ∀ last ∈ visited.getLast?, ¬condition (next last)) _ _ ended
    · intro state done
      exact ⟨fun _ => done, fun last member => (Option.not_mem_none last member).elim⟩
    · rintro state later holds ⟨stopped, lasts⟩
      refine ⟨fun empty => absurd empty (List.cons_ne_nil _ _), fun last member => ?_⟩
      cases later with
      | nil =>
          obtain rfl := Option.some.inj member
          exact stopped rfl
      | cons => exact lasts last member
  exact both.2

theorem isChain_rounds (ended : rounds condition next fuel state = some visited) :
    visited.IsChain fun before after => after = next before := by
  have both : (∀ first ∈ visited.head?, first = state) ∧
      visited.IsChain fun before after => after = next before := by
    apply rounds_induction (motive := fun state visited =>
      (∀ first ∈ visited.head?, first = state) ∧
        visited.IsChain fun before after => after = next before) _ _ ended
    · exact fun state _ => ⟨fun first member => (Option.not_mem_none first member).elim, .nil⟩
    · rintro state later holds ⟨begins, chain⟩
      refine ⟨fun first member => (Option.some.inj member).symm, ?_⟩
      exact List.isChain_cons.mpr ⟨begins, chain⟩
  exact both.2

theorem mem_rounds_iff (ended : rounds condition next fuel state = some visited)
    {reached : State} : reached ∈ visited ↔
      ∃ count, next^[count] state = reached ∧ ∀ index ≤ count, condition (next^[index] state) := by
  apply rounds_induction (motive := fun state visited => reached ∈ visited ↔
    ∃ count, next^[count] state = reached ∧ ∀ index ≤ count, condition (next^[index] state))
    _ _ ended
  · intro state done
    refine iff_of_false (List.not_mem_nil) ?_
    rintro ⟨count, _, always⟩
    exact done (always 0 (Nat.zero_le _))
  · intro state later holds induction
    rw [List.mem_cons, induction]
    constructor
    · rintro (rfl | ⟨count, rfl, always⟩)
      · refine ⟨0, rfl, fun index first => ?_⟩
        obtain rfl := Nat.le_zero.mp first
        exact holds
      · refine ⟨count + 1, rfl, fun index bound => ?_⟩
        cases index with
        | zero => exact holds
        | succ index => exact always index (Nat.le_of_succ_le_succ bound)
    · rintro ⟨count, rfl, always⟩
      cases count with
      | zero => exact Or.inl rfl
      | succ count =>
          exact Or.inr ⟨count, rfl, fun index bound => always (index + 1) (Nat.succ_le_succ bound)⟩

end RaspberryPi.WhileLoop
