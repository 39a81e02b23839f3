import Mathlib.Data.List.Induction

/-! # Event machines

A machine takes one labelled event at a time. Every choice its environment
makes is part of the event, so a list of events determines a run and "every
interleaving" is quantification over lists of events. -/

namespace RaspberryPi

structure Machine (State : Type u) (Event : Type v) where
  next : State → Event → Option State

namespace Machine

variable {State : Type u} {Event : Type v} {Memory : Type w}

def guarded (enabled : State → Event → Prop) [∀ state event, Decidable (enabled state event)]
    (after : State → Event → State) : Machine State Event where
  next state event := if enabled state event then some (after state event) else none

/-- The machine with an observer beside it, who sees the events and nothing else. -/
def observed (machine : Machine State Event) (observe : Memory → Event → Memory) :
    Machine (State × Memory) Event where
  next state event := (machine.next state.1 event).map fun following =>
    (following, observe state.2 event)

/-- The state after a list of events; `none` when one of them cannot happen. -/
def run (machine : Machine State Event) : State → List Event → Option State
  | state, [] => some state
  | state, event :: events =>
      (machine.next state event).bind fun following => machine.run following events

/-- Every step the run takes meets `condition` in the state it is taken from. -/
def StepsSatisfy (machine : Machine State Event)
    (condition : State → Event → Prop) : State → List Event → Prop
  | _, [] => True
  | state, event :: events => ∀ following,
      machine.next state event = some following →
        condition state event ∧ machine.StepsSatisfy condition following events

instance (machine : Machine State Event) (condition : State → Event → Prop)
    [∀ state event, Decidable (condition state event)] :
    ∀ state events, Decidable (machine.StepsSatisfy condition state events)
  | _, [] => .isTrue trivial
  | state, event :: events =>
      match step : machine.next state event with
      | none => .isTrue fun _ taken => nomatch step.symm.trans taken
      | some following =>
          have := instDecidableStepsSatisfy machine condition following events
          decidable_of_iff
            (condition state event ∧ machine.StepsSatisfy condition following events)
            ⟨fun met _ taken => Option.some.inj (step.symm.trans taken) ▸ met,
              fun steps => steps following step⟩

/-- Every state the run visits, its first and last included, has `property`. -/
def StatesSatisfy (machine : Machine State Event)
    (property : State → Prop) : State → List Event → Prop
  | state, [] => property state
  | state, event :: events => property state ∧ ∀ following,
      machine.next state event = some following →
        machine.StatesSatisfy property following events

variable {machine : Machine State Event}

theorem guarded_next_eq_some {enabled : State → Event → Prop}
    [∀ state event, Decidable (enabled state event)] {after : State → Event → State}
    {state following : State} {event : Event} :
    (guarded enabled after).next state event = some following ↔
      enabled state event ∧ after state event = following := by
  by_cases holds : enabled state event
  · simp [guarded, holds]
  · simp [guarded, holds]

theorem observed_next_eq_some {observe : Memory → Event → Memory}
    {state following : State × Memory} {event : Event} :
    (machine.observed observe).next state event = some following ↔
      machine.next state.1 event = some following.1 ∧ observe state.2 event = following.2 := by
  simp [observed, Prod.ext_iff]

@[simp] theorem run_nil (state : State) : machine.run state [] = some state := rfl

theorem run_cons_eq_some {state final : State} {event : Event}
    {events : List Event} :
    machine.run state (event :: events) = some final ↔
      ∃ following, machine.next state event = some following ∧
        machine.run following events = some final := by
  simp [run, Option.bind_eq_some_iff]

theorem run_append_eq_some {state final : State} {first second : List Event} :
    machine.run state (first ++ second) = some final ↔
      ∃ middle, machine.run state first = some middle ∧
        machine.run middle second = some final := by
  induction first generalizing state with
  | nil => simp
  | cons event events induction =>
      simp only [List.cons_append, run_cons_eq_some, induction]
      constructor
      · rintro ⟨following, step, middle, before, after⟩
        exact ⟨middle, ⟨following, step, before⟩, after⟩
      · rintro ⟨middle, ⟨following, step, before⟩, after⟩
        exact ⟨following, step, middle, before, after⟩

theorem run_snoc_eq_some {state final : State} {event : Event}
    {events : List Event} :
    machine.run state (events ++ [event]) = some final ↔
      ∃ last, machine.run state events = some last ∧
        machine.next last event = some final := by
  simp [run_append_eq_some, run_cons_eq_some]

theorem run_observed_eq_some {observe : Memory → Event → Memory}
    {state final : State × Memory} {events : List Event} :
    (machine.observed observe).run state events = some final ↔
      machine.run state.1 events = some final.1 ∧ events.foldl observe state.2 = final.2 := by
  induction events generalizing state with
  | nil => simp [Prod.ext_iff]
  | cons event events induction =>
      simp only [run_cons_eq_some, observed_next_eq_some, induction, List.foldl_cons]
      constructor
      · rintro ⟨following, ⟨step, seen⟩, rest, later⟩
        rw [← seen] at later
        exact ⟨⟨following.1, step, rest⟩, later⟩
      · rintro ⟨⟨following, step, rest⟩, later⟩
        exact ⟨(following, observe state.2 event), ⟨step, rfl⟩, rest, later⟩

theorem run_of_next {other : Machine State Event}
    (steps : ∀ state event following, machine.next state event = some following →
      other.next state event = some following)
    {state final : State} {events : List Event}
    (reached : machine.run state events = some final) : other.run state events = some final := by
  induction events generalizing state with
  | nil => exact reached
  | cons event events induction =>
      rcases run_cons_eq_some.mp reached with ⟨following, step, rest⟩
      exact run_cons_eq_some.mpr ⟨following, steps state event following step, induction rest⟩

theorem run_invariant {invariant : State → Prop}
    (preserved : ∀ state event following, invariant state →
      machine.next state event = some following → invariant following)
    {state final : State} {events : List Event} (holds : invariant state)
    (reached : machine.run state events = some final) : invariant final := by
  induction events generalizing state with
  | nil =>
      cases reached
      exact holds
  | cons event events induction =>
      rcases run_cons_eq_some.mp reached with ⟨following, step, rest⟩
      exact induction (preserved state event following holds step) rest

theorem run_invariant_of_steps {invariant : State → Prop}
    {condition : State → Event → Prop}
    (preserved : ∀ state event following, invariant state →
      condition state event → machine.next state event = some following →
        invariant following)
    {state final : State} {events : List Event} (holds : invariant state)
    (steps : machine.StepsSatisfy condition state events)
    (reached : machine.run state events = some final) : invariant final := by
  induction events generalizing state with
  | nil =>
      cases reached
      exact holds
  | cons event events induction =>
      rcases run_cons_eq_some.mp reached with ⟨following, step, rest⟩
      have met := steps following step
      exact induction (preserved state event following holds met.1 step) met.2 rest

theorem stepsSatisfy_append {condition : State → Event → Prop} {state middle : State}
    {first second : List Event}
    (reached : machine.run state first = some middle) :
    machine.StepsSatisfy condition state (first ++ second) ↔
      machine.StepsSatisfy condition state first ∧
        machine.StepsSatisfy condition middle second := by
  induction first generalizing state with
  | nil =>
      cases reached
      simp [StepsSatisfy]
  | cons event events induction =>
      rcases run_cons_eq_some.mp reached with ⟨following, step, rest⟩
      simp only [List.cons_append, StepsSatisfy, step, Option.some.injEq,
        forall_eq', induction rest, and_assoc]

theorem stepsSatisfy_singleton {condition : State → Event → Prop}
    {state following : State} {event : Event}
    (step : machine.next state event = some following) :
    machine.StepsSatisfy condition state [event] ↔ condition state event := by
  simp [StepsSatisfy, step]

/-- Induction over a run from its first event, keeping the events so far. -/
theorem run_induction_of_steps {motive : List Event → State → Prop} {initial : State}
    {condition : State → Event → Prop} (start : motive [] initial)
    (extend : ∀ events state event following,
      machine.run initial events = some state → motive events state →
      condition state event → machine.next state event = some following →
        motive (events ++ [event]) following)
    {events : List Event} {final : State}
    (steps : machine.StepsSatisfy condition initial events)
    (reached : machine.run initial events = some final) : motive events final := by
  induction events using List.reverseRecOn generalizing final with
  | nil =>
      cases reached
      exact start
  | append_singleton events event induction =>
      rcases run_snoc_eq_some.mp reached with ⟨last, before, step⟩
      rcases (stepsSatisfy_append before).mp steps with ⟨earlier, latest⟩
      exact extend events last event final before (induction earlier before)
        ((stepsSatisfy_singleton step).mp latest) step

theorem stepsSatisfy_of_forall {condition : State → Event → Prop}
    (always : ∀ state event, condition state event) (state : State) (events : List Event) :
    machine.StepsSatisfy condition state events := by
  induction events generalizing state with
  | nil => trivial
  | cons event events induction =>
      exact fun following _ => ⟨always state event, induction following⟩

theorem run_induction {motive : List Event → State → Prop} {initial : State}
    (start : motive [] initial)
    (extend : ∀ events state event following,
      machine.run initial events = some state → motive events state →
      machine.next state event = some following → motive (events ++ [event]) following)
    {events : List Event} {final : State}
    (reached : machine.run initial events = some final) : motive events final := by
  have steps : machine.StepsSatisfy (fun _ _ => True) initial events :=
    stepsSatisfy_of_forall (fun _ _ => trivial) initial events
  refine run_induction_of_steps start ?_ steps reached
  exact fun events state event following before holds _ =>
    extend events state event following before holds

theorem StepsSatisfy.imp {invariant : State → Prop} {condition weaker : State → Event → Prop}
    (preserved : ∀ state event following, invariant state → condition state event →
      machine.next state event = some following → invariant following)
    (implies : ∀ state event following, invariant state → condition state event →
      machine.next state event = some following → weaker state event)
    {state : State} {events : List Event} (holds : invariant state)
    (steps : machine.StepsSatisfy condition state events) :
    machine.StepsSatisfy weaker state events := by
  induction events generalizing state with
  | nil => trivial
  | cons event events induction =>
      intro following step
      have met := steps following step
      exact ⟨implies state event following holds met.1 step,
        induction (preserved state event following holds met.1 step) met.2⟩

/-- When a step has `property` exactly if it meets a condition on what an observer
has seen, so do whole runs. -/
theorem stepsSatisfy_iff_observed {observe : Memory → Event → Memory}
    {agrees : State → Memory → Prop} {property : State → Event → Prop}
    {condition : State × Memory → Event → Prop}
    (preserved : ∀ state memory event following, agrees state memory →
      machine.next state event = some following → agrees following (observe memory event))
    (exactly : ∀ state memory event following, agrees state memory →
      machine.next state event = some following →
        (property state event ↔ condition (state, memory) event))
    {state : State} {memory : Memory} (events : List Event) (holds : agrees state memory) :
    machine.StepsSatisfy property state events ↔
      (machine.observed observe).StepsSatisfy condition (state, memory) events := by
  induction events generalizing state memory with
  | nil => exact Iff.rfl
  | cons event events induction =>
      simp only [StepsSatisfy]
      constructor
      · rintro steps ⟨following, observed⟩ taken
        rcases observed_next_eq_some.mp taken with ⟨step, rfl⟩
        have keeps := preserved state memory event following holds step
        have met := steps following step
        exact ⟨(exactly state memory event following holds step).mp met.1,
          (induction keeps).mp met.2⟩
      · intro steps following step
        have keeps := preserved state memory event following holds step
        have met := steps (following, observe memory event)
          (observed_next_eq_some.mpr ⟨step, rfl⟩)
        exact ⟨(exactly state memory event following holds step).mpr met.1,
          (induction keeps).mpr met.2⟩

/-- When, on the states of an invariant, a step keeps `property` exactly if it
meets `condition`, a whole run keeps the property exactly if its steps all
meet the condition. -/
theorem statesSatisfy_iff_stepsSatisfy {invariant property : State → Prop}
    {condition : State → Event → Prop}
    (preserved : ∀ state event following, invariant state →
      machine.next state event = some following → invariant following)
    (exactly : ∀ state event following, invariant state → property state →
      machine.next state event = some following →
        (property following ↔ condition state event))
    {state : State} (events : List Event) (holds : invariant state)
    (initially : property state) :
    machine.StatesSatisfy property state events ↔
      machine.StepsSatisfy condition state events := by
  induction events generalizing state with
  | nil => simp [StatesSatisfy, StepsSatisfy, initially]
  | cons event events induction =>
      simp only [StatesSatisfy, StepsSatisfy, initially, true_and]
      refine forall_congr' fun following => imp_congr_right fun step => ?_
      have keeps := preserved state event following holds step
      have decided := exactly state event following holds initially step
      constructor
      · intro visited
        have now : property following := by
          cases events with
          | nil => exact visited
          | cons => exact visited.1
        exact ⟨decided.mp now, (induction keeps now).mp visited⟩
      · rintro ⟨met, rest⟩
        exact (induction keeps (decided.mpr met)).mpr rest

theorem statesSatisfy_iff_stepsSatisfy_of_observed {observe : Memory → Event → Memory}
    {property : State × Memory → Prop} {condition : State × Memory → Event → Prop}
    (agrees : State → Memory → Prop)
    (preserved : ∀ state memory event following, agrees state memory →
      machine.next state event = some following → agrees following (observe memory event))
    (exactly : ∀ state memory event following, agrees state memory →
      property (state, memory) → machine.next state event = some following →
        (property (following, observe memory event) ↔ condition (state, memory) event))
    {state : State} {memory : Memory} (events : List Event) (holds : agrees state memory)
    (initially : property (state, memory)) :
    (machine.observed observe).StatesSatisfy property (state, memory) events ↔
      (machine.observed observe).StepsSatisfy condition (state, memory) events := by
  have preservedBoth : ∀ (both : State × Memory) event following, agrees both.1 both.2 →
      (machine.observed observe).next both event = some following →
        agrees following.1 following.2 := by
    rintro ⟨state, memory⟩ event ⟨following, later⟩ holds taken
    rcases observed_next_eq_some.mp taken with ⟨step, rfl⟩
    exact preserved state memory event following holds step
  apply statesSatisfy_iff_stepsSatisfy preservedBoth ?_ events holds initially
  rintro ⟨state, memory⟩ event ⟨following, later⟩ holds now taken
  rcases observed_next_eq_some.mp taken with ⟨step, rfl⟩
  exact exactly state memory event following holds now step

theorem statesSatisfy_iff_stepsSatisfy_of_exactly {property : State → Prop}
    {condition : State → Event → Prop}
    (exactly : ∀ state event following, property state →
      machine.next state event = some following →
        (property following ↔ condition state event))
    {state : State} (events : List Event) (initially : property state) :
    machine.StatesSatisfy property state events ↔
      machine.StepsSatisfy condition state events := by
  have preserved : ∀ (state : State) (event : Event) (following : State), True →
      machine.next state event = some following → True := fun _ _ _ _ _ => trivial
  refine statesSatisfy_iff_stepsSatisfy preserved ?_ events trivial initially
  exact fun state event following _ => exactly state event following

/-- Steps that break `other` lead into states that no step meeting `condition`
leaves, so a run that ends elsewhere has not broken it. -/
theorem StepsSatisfy.of_escaped {condition other : State → Event → Prop}
    {trapped : State → Prop}
    (enters : ∀ state event following, machine.next state event = some following →
      condition state event → ¬other state event → trapped following)
    (stays : ∀ state event following, machine.next state event = some following →
      condition state event → trapped state → trapped following)
    {state final : State} {events : List Event}
    (steps : machine.StepsSatisfy condition state events)
    (reached : machine.run state events = some final) (escaped : ¬trapped final) :
    machine.StepsSatisfy other state events := by
  induction events generalizing state with
  | nil => trivial
  | cons event events induction =>
      intro following step
      rcases run_cons_eq_some.mp reached with ⟨next, taken, rest⟩
      obtain rfl : next = following := Option.some.inj (taken.symm.trans step)
      have met := steps next step
      refine ⟨?_, induction met.2 rest⟩
      by_contra broken
      have entered := enters state event next step met.1 broken
      refine escaped (run_invariant_of_steps ?_ entered met.2 rest)
      exact fun state event following inside meets step =>
        stays state event following step meets inside

theorem StepsSatisfy.states {condition : State → Event → Prop} {invariant property : State → Prop}
    (preserved : ∀ state event following, invariant state → condition state event →
      machine.next state event = some following → invariant following)
    (implies : ∀ state, invariant state → property state)
    {state : State} {events : List Event} (holds : invariant state)
    (steps : machine.StepsSatisfy condition state events) :
    machine.StatesSatisfy property state events := by
  induction events generalizing state with
  | nil => exact implies state holds
  | cons event events induction =>
      refine ⟨implies state holds, fun following step => ?_⟩
      have met := steps following step
      exact induction (preserved state event following holds met.1 step) met.2

theorem statesSatisfy_iff_first {property : State → Prop} {state : State}
    (events : List Event) :
    machine.StatesSatisfy property state events ↔
      property state ∧ machine.StepsSatisfy (fun state event => ∀ following,
        machine.next state event = some following → property following) state events := by
  induction events generalizing state with
  | nil => simp [StatesSatisfy, StepsSatisfy]
  | cons event events induction =>
      simp only [StatesSatisfy, StepsSatisfy, induction]
      refine and_congr_right fun _ => forall_congr' fun following => imp_congr_right fun step => ?_
      refine and_congr_left fun _ => ⟨fun holds other taken => ?_, fun holds => holds _ step⟩
      exact Option.some.inj (step.symm.trans taken) ▸ holds

theorem StatesSatisfy.final {property : State → Prop} {state final : State}
    {events : List Event} (visited : machine.StatesSatisfy property state events)
    (reached : machine.run state events = some final) : property final := by
  induction events generalizing state with
  | nil =>
      cases reached
      exact visited
  | cons event events induction =>
      rcases run_cons_eq_some.mp reached with ⟨following, step, rest⟩
      exact induction (visited.2 following step) rest

end Machine

end RaspberryPi
