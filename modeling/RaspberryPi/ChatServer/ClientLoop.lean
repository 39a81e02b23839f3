import RaspberryPi.Foundation.Machine
import RaspberryPi.ChatServer.Types

/-! # Wake-ups from parent to child

The loop of `client_work` as far as it reads what the parent delivers. One flag
stands for all deliveries since it was cleared, and one bounded read has to
fetch them. -/

namespace RaspberryPi.ChatServer

inductive ClientPosition
  /-- Before `if (child_sigusr_arrived)`. -/
  | testing
  /-- Before `child_sigusr_arrived = 0`. -/
  | clearing
  /-- Before the `read` of the parent's pipe. -/
  | reading
  /-- Before the `write` to the client's socket. -/
  | forwarding
deriving DecidableEq

structure ClientLoop where
  position : ClientPosition
  childSigusrArrived : Bool
  /-- The parent is between a `write` and its `kill`. -/
  delivering : Bool
  queue : Bytes

inductive ClientEvent
  | write (mesg : Bytes)
  | kill
  | testSigusr
  | clearSigusr
  | read
  | forward

namespace ClientLoop

def boot : ClientLoop := ⟨.testing, false, false, []⟩

def Enabled (loop : ClientLoop) : ClientEvent → Prop
  | .write mesg => loop.delivering = false ∧ mesg ≠ []
  | .kill => loop.delivering = true
  | .testSigusr => loop.position = .testing
  | .clearSigusr => loop.position = .clearing
  | .read => loop.position = .reading
  | .forward => loop.position = .forwarding

instance (loop : ClientLoop) (event : ClientEvent) : Decidable (loop.Enabled event) :=
  match event with
  | .write _ => inferInstanceAs (Decidable (_ ∧ _))
  | .kill => inferInstanceAs (Decidable (loop.delivering = true))
  | .testSigusr | .clearSigusr | .read | .forward =>
      inferInstanceAs (Decidable (loop.position = _))

def after (loop : ClientLoop) : ClientEvent → ClientLoop
  | .write mesg => { loop with delivering := true, queue := loop.queue ++ mesg }
  -- the handler runs at once
  | .kill => { loop with delivering := false, childSigusrArrived := true }
  | .testSigusr =>
      { loop with position := if loop.childSigusrArrived then .clearing else .testing }
  | .clearSigusr => { loop with childSigusrArrived := false, position := .reading }
  -- nothing to forward when the pipe was empty
  | .read =>
      { loop with
        queue := loop.queue.drop (bufsiz - 1)
        position := if loop.queue = [] then .testing else .forwarding }
  | .forward => { loop with position := .testing }

def machine : Machine ClientLoop ClientEvent := Machine.guarded Enabled after

theorem next_eq_some {loop following : ClientLoop} {event : ClientEvent} :
    machine.next loop event = some following ↔
      loop.Enabled event ∧ loop.after event = following :=
  Machine.guarded_next_eq_some

def WillDrain (loop : ClientLoop) : Prop :=
  loop.position = .reading ∧ loop.queue.length < bufsiz

/-- Bytes in the pipe, unless the parent is about to announce them, are
announced or about to be read. -/
def NoLostDelivery (loop : ClientLoop) : Prop :=
  loop.queue ≠ [] → loop.delivering = false →
    loop.childSigusrArrived = true ∨ loop.WillDrain

/-- The flag is cleared when one read can fetch all that was announced. -/
def ClearedInOneRead (loop : ClientLoop) : ClientEvent → Prop
  | .clearSigusr => loop.delivering = true ∨ loop.queue.length < bufsiz
  | _ => True

theorem NoLostDelivery.announced {loop : ClientLoop} (kept : loop.NoLostDelivery)
    (elsewhere : loop.position ≠ .reading) (waiting : loop.queue ≠ [])
    (notDelivering : loop.delivering = false) : loop.childSigusrArrived = true :=
  (kept waiting notDelivering).resolve_right fun drains => elsewhere drains.1

theorem noLostDelivery_after_iff {loop : ClientLoop} {event : ClientEvent}
    (kept : loop.NoLostDelivery) (enabled : loop.Enabled event) :
    (loop.after event).NoLostDelivery ↔ loop.ClearedInOneRead event := by
  cases event with
  | write mesg => exact iff_of_true (fun _ notDelivering => nomatch notDelivering) trivial
  | kill => exact iff_of_true (fun _ _ => Or.inl rfl) trivial
  | clearSigusr =>
      constructor
      · intro holds
        cases delivering : loop.delivering with
        | true => exact Or.inl delivering
        | false =>
            right
            by_cases empty : loop.queue = []
            · rw [empty]
              decide
            · exact ((holds empty delivering).resolve_left Bool.false_ne_true).2
      · rintro (delivering | short) waiting notDelivering
        · exact absurd (delivering.symm.trans notDelivering) (by decide)
        · exact Or.inr ⟨rfl, short⟩
  | read =>
      refine iff_of_true (fun waiting notDelivering => ?_) trivial
      have waited : loop.queue ≠ [] := by
        intro empty
        rw [after, empty, List.drop_nil] at waiting
        exact waiting rfl
      rcases kept waited notDelivering with arrived | drains
      · exact Or.inl arrived
      · exact (waiting (drop_bufsiz_eq_nil_iff.mpr drains.2)).elim
  | testSigusr | forward =>
      refine iff_of_true (fun waiting notDelivering => Or.inl ?_) trivial
      refine kept.announced (fun reading => ?_) waiting notDelivering
      exact absurd (reading.symm.trans enabled) (by decide)

/-- No delivery is lost in any state of a run exactly if the flag is never
cleared with more in the pipe than one read fetches. -/
theorem noLostDelivery_run (events : List ClientEvent) :
    machine.StatesSatisfy NoLostDelivery boot events ↔
      machine.StepsSatisfy ClearedInOneRead boot events := by
  have initially : boot.NoLostDelivery := fun waiting => (waiting rfl).elim
  refine Machine.statesSatisfy_iff_stepsSatisfy_of_exactly ?_ events initially
  intro loop event following kept step
  rcases next_eq_some.mp step with ⟨enabled, rfl⟩
  exact noLostDelivery_after_iff kept enabled

theorem run_longMessage {mesg : Bytes} (long : bufsiz ≤ mesg.length) :
    ∃ loop, machine.run boot [.write mesg, .kill, .testSigusr, .clearSigusr, .read] = some loop ∧
      ¬loop.NoLostDelivery := by
  have nonempty : mesg ≠ [] := by
    rintro rfl
    exact absurd long (by decide)
  refine ⟨⟨.forwarding, false, false, mesg.drop (bufsiz - 1)⟩, ?_, fun kept => ?_⟩
  · simp [Machine.run, machine, Machine.guarded, Enabled, after, boot, nonempty]
  · have left : mesg.drop (bufsiz - 1) ≠ [] := mt drop_bufsiz_eq_nil_iff.mp (Nat.not_lt.mpr long)
    rcases kept left rfl with arrived | ⟨reading, _⟩
    · cases arrived
    · cases reading

theorem not_noLostDelivery_longMessage :
    ¬∀ (events : List ClientEvent) (loop : ClientLoop),
      machine.run boot events = some loop → loop.NoLostDelivery := by
  intro always
  have long : bufsiz ≤ (List.replicate bufsiz 97 : Bytes).length := List.length_replicate.ge
  rcases run_longMessage long with ⟨loop, reached, lost⟩
  exact lost (always _ loop reached)

end ClientLoop

end RaspberryPi.ChatServer
