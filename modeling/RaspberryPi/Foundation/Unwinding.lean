import RaspberryPi.Foundation.Machine

/-! # Unwinding

A machine whose steps show something to an observer, and the events that are
hidden from it. When a hidden step shows nothing and leads to a state that is
alike, and alike states answer every other event alike, a run without its
hidden events shows what the whole run shows. -/

namespace RaspberryPi

namespace Machine

variable {State : Type u} {Event : Type v} {Output : Type w}

/-- What a run shows, step by step; `shows` is about the state before the step. -/
def shown (machine : Machine State Event) (shows : State → Event → List Output) :
    State → List Event → List Output
  | _, [] => []
  | state, event :: events =>
      match machine.next state event with
      | none => []
      | some following => shows state event ++ machine.shown shows following events

def purge (machine : Machine State Event) (hidden : State → Event → Prop)
    [∀ state event, Decidable (hidden state event)] : State → List Event → List Event
  | _, [] => []
  | state, event :: events =>
      match machine.next state event with
      | none => []
      | some following =>
          if hidden state event then machine.purge hidden following events
          else event :: machine.purge hidden following events

/-- The observer cannot tell `alike` states apart, nor see a hidden step. -/
structure Unwinds (machine : Machine State Event) (invariant : State → Prop)
    (hidden : State → Event → Prop) (shows : State → Event → List Output)
    (alike : State → State → Prop) : Prop where
  preserved : ∀ state event following, invariant state →
    machine.next state event = some following → invariant following
  hiddenStep : ∀ state twin event following, invariant state → alike state twin →
    hidden state event → machine.next state event = some following →
      shows state event = [] ∧ alike following twin
  openStep : ∀ state twin event following, invariant state → alike state twin →
    ¬hidden state event → machine.next state event = some following →
      ∃ other, machine.next twin event = some other ∧
        shows twin event = shows state event ∧ alike following other

variable {machine : Machine State Event} {invariant : State → Prop}
  {hidden : State → Event → Prop} [∀ state event, Decidable (hidden state event)]
  {shows : State → Event → List Output} {alike : State → State → Prop}

theorem shown_cons {state following : State} {event : Event} (events : List Event)
    (step : machine.next state event = some following) :
    machine.shown shows state (event :: events) =
      shows state event ++ machine.shown shows following events := by
  rw [shown, step]

theorem purge_cons {state following : State} {event : Event} (events : List Event)
    (step : machine.next state event = some following) :
    machine.purge hidden state (event :: events) =
      if hidden state event then machine.purge hidden following events
      else event :: machine.purge hidden following events := by
  rw [purge, step]

theorem Unwinds.run_purge (unwinds : machine.Unwinds invariant hidden shows alike)
    {state twin final : State} {events : List Event} (holds : invariant state)
    (same : alike state twin) (reached : machine.run state events = some final) :
    ∃ other, machine.run twin (machine.purge hidden state events) = some other ∧
      alike final other ∧
      machine.shown shows twin (machine.purge hidden state events) =
        machine.shown shows state events := by
  induction events generalizing state twin with
  | nil =>
      cases reached
      exact ⟨twin, rfl, same, rfl⟩
  | cons event events induction =>
      rcases run_cons_eq_some.mp reached with ⟨following, step, rest⟩
      have keeps := unwinds.preserved state event following holds step
      rw [purge_cons events step, shown_cons events step]
      by_cases isHidden : hidden state event
      · rcases unwinds.hiddenStep state twin event following holds same isHidden step with
          ⟨silent, stays⟩
        rw [if_pos isHidden, silent, List.nil_append]
        exact induction keeps stays rest
      · rcases unwinds.openStep state twin event following holds same isHidden step with
          ⟨next, taken, answers, stays⟩
        rcases induction keeps stays rest with ⟨other, later, ends, shows⟩
        rw [if_neg isHidden, shown_cons _ taken, answers, shows]
        exact ⟨other, run_cons_eq_some.mpr ⟨next, taken, later⟩, ends, rfl⟩

/-- Two runs with the same open events show the same, and end in states that the
same run is alike to. -/
theorem Unwinds.shown_eq (unwinds : machine.Unwinds invariant hidden shows alike)
    {first second twin firstFinal secondFinal : State} {events others : List Event}
    (firstHolds : invariant first) (secondHolds : invariant second)
    (firstSame : alike first twin) (secondSame : alike second twin)
    (firstReached : machine.run first events = some firstFinal)
    (secondReached : machine.run second others = some secondFinal)
    (purged : machine.purge hidden first events = machine.purge hidden second others) :
    machine.shown shows first events = machine.shown shows second others ∧
      ∃ final, alike firstFinal final ∧ alike secondFinal final := by
  rcases unwinds.run_purge firstHolds firstSame firstReached with
    ⟨final, reached, firstEnds, firstShows⟩
  rcases unwinds.run_purge secondHolds secondSame secondReached with
    ⟨other, alsoReached, secondEnds, secondShows⟩
  rw [← purged] at alsoReached secondShows
  have sameFinal : final = other := Option.some.inj (reached.symm.trans alsoReached)
  exact ⟨firstShows.symm.trans secondShows, final, firstEnds, sameFinal ▸ secondEnds⟩

theorem shown_congr {first second : State → Event → List Output}
    {condition : State → Event → Prop}
    (preserved : ∀ state event following, invariant state →
      machine.next state event = some following → invariant following)
    (same : ∀ state event following, invariant state → condition state event →
      machine.next state event = some following → first state event = second state event)
    {state : State} {events : List Event} (holds : invariant state)
    (steps : machine.StepsSatisfy condition state events) :
    machine.shown first state events = machine.shown second state events := by
  induction events generalizing state with
  | nil => rfl
  | cons event events induction =>
      cases step : machine.next state event with
      | none => simp only [shown, step]
      | some following =>
          rcases steps following step with ⟨met, later⟩
          rw [shown_cons events step, shown_cons events step,
            same state event following holds met step,
            induction (preserved state event following holds step) later]

theorem shown_logged {log : State → List Output} {condition : State → Event → Prop}
    (preserved : ∀ state event following, invariant state →
      machine.next state event = some following → invariant following)
    (appends : ∀ state event following, invariant state → condition state event →
      machine.next state event = some following → log following = log state ++ shows state event)
    {state final : State} {events : List Event} (holds : invariant state)
    (steps : machine.StepsSatisfy condition state events)
    (reached : machine.run state events = some final) :
    log final = log state ++ machine.shown shows state events := by
  induction events generalizing state with
  | nil =>
      cases reached
      exact (List.append_nil _).symm
  | cons event events induction =>
      rcases run_cons_eq_some.mp reached with ⟨following, step, rest⟩
      rcases steps following step with ⟨met, later⟩
      rw [induction (preserved state event following holds step) later rest,
        appends state event following holds met step, shown_cons events step, List.append_assoc]

end Machine

end RaspberryPi
