import RaspberryPi.Foundation.Machine

/-! # Winding down

Some steps of a machine are due: they wait for nothing but their turn. When each
of them leaves less to do, and a state that has not settled always has one, then
in whatever order they are taken they come to an end, and the end is settled. -/

namespace RaspberryPi

namespace Machine

variable {State : Type u} {Event : Type v}

structure WindsDown (machine : Machine State Event) (invariant : State → Prop)
    (due : State → Event → Prop) (work : State → Nat) (settled : State → Prop) : Prop where
  preserved : ∀ state event following, invariant state → due state event →
    machine.next state event = some following → invariant following
  decreases : ∀ state event following, invariant state → due state event →
    machine.next state event = some following → work following < work state
  moves : ∀ state, invariant state → ¬settled state →
    ∃ event following, due state event ∧ machine.next state event = some following

variable {machine : Machine State Event} {invariant : State → Prop}
  {due : State → Event → Prop} {work : State → Nat} {settled : State → Prop}

theorem WindsDown.length_add_work_le
    (winds : machine.WindsDown invariant due work settled) {state final : State}
    {events : List Event} (holds : invariant state)
    (steps : machine.StepsSatisfy due state events)
    (reached : machine.run state events = some final) :
    invariant final ∧ events.length + work final ≤ work state := by
  induction events generalizing state with
  | nil =>
      cases reached
      exact ⟨holds, by simp⟩
  | cons event events induction =>
      rcases run_cons_eq_some.mp reached with ⟨following, step, rest⟩
      rcases steps following step with ⟨isDue, later⟩
      have keeps := winds.preserved state event following holds isDue step
      have less := winds.decreases state event following holds isDue step
      rcases induction keeps later rest with ⟨ends, bound⟩
      refine ⟨ends, ?_⟩
      rw [List.length_cons]
      omega

theorem WindsDown.settled_of_stuck (winds : machine.WindsDown invariant due work settled)
    {state : State} (holds : invariant state)
    (stuck : ∀ event, due state event → machine.next state event = none) : settled state := by
  by_contra unsettled
  rcases winds.moves state holds unsettled with ⟨event, following, isDue, step⟩
  rw [stuck event isDue] at step
  cases step

/-- The steps that are due lead to a settled state. -/
theorem WindsDown.exists_settled (winds : machine.WindsDown invariant due work settled)
    {state : State} (holds : invariant state) :
    ∃ events final, machine.StepsSatisfy due state events ∧
      machine.run state events = some final ∧ settled final := by
  induction left : work state using Nat.strongRecOn generalizing state with
  | _ left induction =>
    subst left
    by_cases done : settled state
    · exact ⟨[], state, trivial, rfl, done⟩
    · rcases winds.moves state holds done with ⟨event, following, isDue, step⟩
      have keeps := winds.preserved state event following holds isDue step
      have less := winds.decreases state event following holds isDue step
      rcases induction _ less keeps rfl with ⟨events, final, later, reached, ends⟩
      refine ⟨event :: events, final, fun other taken => ?_, ?_, ends⟩
      · obtain rfl := Option.some.inj (step.symm.trans taken)
        exact ⟨isDue, later⟩
      · exact run_cons_eq_some.mpr ⟨following, step, reached⟩

end Machine

end RaspberryPi
