import RaspberryPi.Foundation.Machine
import RaspberryPi.Foundation.Pipe
import RaspberryPi.ChatServer.Types

/-! # From the parent's pipe to the client's socket

The loop of `client_work` with the outcomes of its system calls. The socket does
not block while it is written to, and the loop looks at nothing but whether the
`write` failed. -/

namespace RaspberryPi.ChatServer

open CString

inductive DeliveryPosition
  /-- Before `if (child_sigusr_arrived)`. -/
  | testing
  | clearing
  | reading
  /-- Before the `write` of what was read to the client's socket. -/
  | forwarding (mesg : Bytes)
  /-- Before the part that serves the client, which may end the loop. -/
  | serving
  /-- After a `break`. -/
  | ended
deriving DecidableEq

def DeliveryPosition.held : DeliveryPosition → Bytes
  | forwarding mesg => mesg
  | _ => []

structure SocketDelivery where
  position : DeliveryPosition
  childSigusrArrived : Bool
  parentPfd : Pipe UInt8
  /-- All that was put on the client's socket. -/
  socket : Bytes

/-- What `write` to the socket that does not block comes to. -/
inductive WriteOutcome
  | wrote (count : Nat)
  /-- `EAGAIN` or `EWOULDBLOCK`. -/
  | refused
  /-- Any other error. -/
  | failed
deriving DecidableEq

inductive DeliveryEvent
  /-- The parent writes to the pipe. -/
  | write (mesg : Bytes)
  /-- The signal of the parent. -/
  | kill
  | testSigusr
  | clearSigusr
  | read (count : Nat)
  /-- `EAGAIN`, `EWOULDBLOCK` or `EINTR`. -/
  | readNothing
  /-- The end of the pipe or any other error. -/
  | readEnd
  | forward (outcome : WriteOutcome)
  | serve (goesOn : Bool)

namespace SocketDelivery

def start : SocketDelivery := ⟨.testing, false, .empty, []⟩

def Enabled (delivery : SocketDelivery) : DeliveryEvent → Prop
  | .write mesg => mesg ≠ []
  | .kill => True
  | .testSigusr => delivery.position = .testing
  | .clearSigusr => delivery.position = .clearing
  | .read count => delivery.position = .reading ∧ 0 < count ∧ count < bufsiz ∧
      count ≤ delivery.parentPfd.unread.length
  | .readNothing | .readEnd => delivery.position = .reading
  | .forward (.wrote count) => 0 < count ∧ count ≤ delivery.position.held.length
  | .forward .refused | .forward .failed => delivery.position.held ≠ []
  | .serve _ => delivery.position = .serving

instance (delivery : SocketDelivery) (event : DeliveryEvent) :
    Decidable (delivery.Enabled event) := by
  unfold Enabled
  split <;> infer_instance

def after (delivery : SocketDelivery) : DeliveryEvent → SocketDelivery
  | .write mesg => { delivery with parentPfd := delivery.parentPfd.write mesg }
  | .kill => { delivery with childSigusrArrived := true }
  | .testSigusr =>
      { delivery with position := if delivery.childSigusrArrived then .clearing else .serving }
  | .clearSigusr => { delivery with childSigusrArrived := false, position := .reading }
  | .read count => { delivery with
      parentPfd := delivery.parentPfd.read count
      position := .forwarding (delivery.parentPfd.chunk count) }
  | .readNothing => { delivery with position := .serving }
  | .readEnd => { delivery with position := .ended }
  -- how many bytes were written is not looked at
  | .forward (.wrote count) => { delivery with
      position := .serving
      socket := delivery.socket ++ delivery.position.held.take count }
  | .forward .refused => { delivery with position := .serving }
  | .forward .failed => { delivery with position := .ended }
  | .serve goesOn => { delivery with position := if goesOn then .testing else .ended }

def machine : Machine SocketDelivery DeliveryEvent := .guarded Enabled after

/-- The socket has a prefix of what was read, and as long as the connection is open
the rest of it is still to be written. -/
structure LosesNothing (delivery : SocketDelivery) : Prop where
  inOrder : delivery.socket <+: delivery.parentPfd.delivered
  complete : delivery.position ≠ .ended →
    delivery.socket ++ delivery.position.held = delivery.parentPfd.delivered

/-- A write takes all it is given, or fails so that the loop ends. -/
def TakesAll (delivery : SocketDelivery) : DeliveryEvent → Prop
  | .forward (.wrote count) => count = delivery.position.held.length
  | .forward .refused => False
  | _ => True

theorem LosesNothing.of_append {delivery : SocketDelivery}
    (all : delivery.socket ++ delivery.position.held = delivery.parentPfd.delivered) :
    LosesNothing delivery := by
  refine ⟨?_, fun _ => all⟩
  rw [← all]
  exact List.prefix_append _ _

theorem LosesNothing.socket_eq {delivery : SocketDelivery} (kept : LosesNothing delivery)
    (stillOpen : delivery.position ≠ .ended) (nothing : delivery.position.held = []) :
    delivery.socket = delivery.parentPfd.delivered := by
  have all := kept.complete stillOpen
  rwa [nothing, List.append_nil] at all

theorem LosesNothing.of_socket_eq {delivery : SocketDelivery}
    (all : delivery.socket = delivery.parentPfd.delivered)
    (nothing : delivery.position.held = []) : LosesNothing delivery := by
  apply LosesNothing.of_append
  rw [nothing, List.append_nil, all]

theorem open_of_held {position : DeliveryPosition} (holds : position.held ≠ []) :
    position ≠ .ended := by
  rintro rfl
  exact holds rfl

theorem losesNothing_wrote_iff {delivery : SocketDelivery} {count : Nat}
    (kept : LosesNothing delivery) (positive : 0 < count)
    (bound : count ≤ delivery.position.held.length) :
    LosesNothing (delivery.after (.forward (.wrote count))) ↔
      count = delivery.position.held.length := by
  have all := kept.complete (open_of_held (List.ne_nil_of_length_pos (by omega)))
  constructor
  · intro later
    have sent : delivery.socket ++ delivery.position.held.take count =
        delivery.parentPfd.delivered := later.socket_eq nofun rfl
    have whole := List.append_cancel_left (sent.trans all.symm)
    have length := congrArg List.length whole
    rw [List.length_take, Nat.min_eq_left bound] at length
    exact length
  · intro whole
    apply LosesNothing.of_socket_eq ?_ rfl
    have taken : delivery.position.held.take count = delivery.position.held :=
      List.take_of_length_le (Nat.le_of_eq whole.symm)
    rw [after, taken]
    exact all

theorem not_losesNothing_refused {delivery : SocketDelivery} (kept : LosesNothing delivery)
    (holds : delivery.position.held ≠ []) :
    ¬LosesNothing (delivery.after (.forward .refused)) := by
  intro later
  have all := kept.complete (open_of_held holds)
  have same : delivery.socket = delivery.parentPfd.delivered := later.socket_eq nofun rfl
  rw [← same] at all
  exact holds (List.append_right_eq_self.mp all)

theorem losesNothing_after_iff {delivery : SocketDelivery} {event : DeliveryEvent}
    (kept : LosesNothing delivery) (enabled : delivery.Enabled event) :
    LosesNothing (delivery.after event) ↔ delivery.TakesAll event := by
  rcases delivery with ⟨position, childSigusrArrived, parentPfd, socket⟩
  cases event with
  | write mesg =>
      refine iff_of_true ⟨?_, ?_⟩ trivial
      · rw [after, Pipe.delivered_write]
        exact kept.inOrder
      · rw [after, Pipe.delivered_write]
        exact kept.complete
  | kill => exact iff_of_true ⟨kept.inOrder, kept.complete⟩ trivial
  | testSigusr =>
      obtain rfl : position = .testing := enabled
      refine iff_of_true (.of_socket_eq (kept.socket_eq nofun rfl) ?_) trivial
      cases childSigusrArrived with
      | false => rfl
      | true => rfl
  | clearSigusr =>
      obtain rfl : position = .clearing := enabled
      exact iff_of_true (.of_socket_eq (kept.socket_eq nofun rfl) rfl) trivial
  | read count =>
      obtain rfl : position = .reading := enabled.1
      have all : socket = parentPfd.delivered := kept.socket_eq nofun rfl
      refine iff_of_true (.of_append ?_) trivial
      rw [after, Pipe.delivered_read, ← all]
      rfl
  | readNothing | readEnd =>
      obtain rfl : position = .reading := enabled
      exact iff_of_true (.of_socket_eq (kept.socket_eq nofun rfl) rfl) trivial
  | serve goesOn =>
      obtain rfl : position = .serving := enabled
      refine iff_of_true (.of_socket_eq (kept.socket_eq nofun rfl) ?_) trivial
      cases goesOn with
      | false => rfl
      | true => rfl
  | forward outcome =>
      cases outcome with
      | wrote count => exact losesNothing_wrote_iff kept enabled.1 enabled.2
      | refused => exact iff_of_false (not_losesNothing_refused kept enabled) not_false
      | failed => exact iff_of_true ⟨kept.inOrder, fun going => absurd rfl going⟩ trivial

/-- In every state of a run the socket has what was read, in order and without gaps,
exactly if every write of the run takes all it is given or fails for good. -/
theorem losesNothing_run (events : List DeliveryEvent) :
    machine.StatesSatisfy LosesNothing start events ↔
      machine.StepsSatisfy TakesAll start events := by
  have initially : LosesNothing start := ⟨List.prefix_rfl, fun _ => rfl⟩
  refine Machine.statesSatisfy_iff_stepsSatisfy_of_exactly ?_ events initially
  intro delivery event following kept step
  rcases Machine.guarded_next_eq_some.mp step with ⟨enabled, rfl⟩
  exact losesNothing_after_iff kept enabled

/-- The second byte is dropped by a write that takes one of two, and what is read
later follows the first byte on the socket. -/
theorem not_losesNothing_shortWrite :
    ∃ delivery, machine.run start [.write (ascii ['a', 'b']), .kill, .testSigusr, .clearSigusr,
        .read 2, .forward (.wrote 1), .serve true, .write (ascii ['c', 'd']), .kill, .testSigusr,
        .clearSigusr, .read 2, .forward (.wrote 2)] = some delivery ∧
      delivery.position = .serving ∧ delivery.parentPfd.delivered = ascii ['a', 'b', 'c', 'd'] ∧
      delivery.socket = ascii ['a', 'c', 'd'] ∧ ¬LosesNothing delivery := by
  refine ⟨_, rfl, rfl, rfl, rfl, fun kept => ?_⟩
  exact absurd kept.inOrder (by decide)

/-! Whatever is dropped, nothing is sent twice or out of order. -/

def SendsInOrder (delivery : SocketDelivery) : Prop :=
  (delivery.socket ++ delivery.position.held).Sublist delivery.parentPfd.delivered

theorem SendsInOrder.after {delivery : SocketDelivery} {event : DeliveryEvent}
    (ordered : SendsInOrder delivery) (enabled : delivery.Enabled event) :
    SendsInOrder (delivery.after event) := by
  rcases delivery with ⟨position, childSigusrArrived, parentPfd, socket⟩
  have dropped : (socket ++ []).Sublist parentPfd.delivered :=
    (List.Sublist.append_left (List.nil_sublist _) socket).trans ordered
  cases event with
  | write mesg =>
      rw [SendsInOrder, SocketDelivery.after, Pipe.delivered_write]
      exact ordered
  | kill => exact ordered
  | testSigusr =>
      cases childSigusrArrived with
      | false => exact dropped
      | true => exact dropped
  | clearSigusr | readNothing | readEnd => exact dropped
  | read count =>
      rw [SendsInOrder, SocketDelivery.after, Pipe.delivered_read]
      rw [List.append_nil] at dropped
      exact dropped.append_right _
  | serve goesOn =>
      cases goesOn with
      | false => exact dropped
      | true => exact dropped
  | forward outcome =>
      cases outcome with
      | wrote count =>
          have part := List.Sublist.append_left (List.take_sublist count position.held) socket
          have sent := part.trans ordered
          rw [← List.append_nil (socket ++ position.held.take count)] at sent
          exact sent
      | refused | failed => exact dropped

end SocketDelivery

end RaspberryPi.ChatServer
