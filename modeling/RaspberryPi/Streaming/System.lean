import Mathlib.Logic.Function.Basic
import RaspberryPi.Foundation.Machine
import RaspberryPi.Streaming.Link

/-! # The streaming server and its clients

Any number of clients run beside one server process. The server handles one
ready socket at a time, in whatever order `select` reports them, and a frame it
has begun keeps it from all other sockets. -/

namespace RaspberryPi.Streaming

structure System where
  link : Nat → Link
  serving : Option (Nat × ServerTask)

inductive SystemEvent
  | client (connection : Nat) (event : ClientEvent)
  | pick (connection : Nat)
  | server (event : ServerEvent)

namespace System

def start : System := ⟨fun _ => .connected, none⟩

def setLink (system : System) (connection : Nat) (link : Link) : System :=
  { system with link := Function.update system.link connection link }

def Readable (link : Link) : Prop := link.toServer ≠ [] ∨ link.client.IsStopped

instance (link : Link) : Decidable (Readable link) := inferInstanceAs (Decidable (_ ∨ _))

def next (order : ByteOrder) (system : System) : SystemEvent → Option System
  | .client connection event =>
      ((system.link connection).clientNext order event).map (system.setLink connection)
  | .pick connection =>
      if system.serving = none ∧ (system.link connection).closed = false ∧
          Readable (system.link connection) then
        some { system with serving := some (connection, .receiving .dataType []) }
      else none
  | .server event =>
      match system.serving with
      | none => none
      | some (connection, task) =>
          ((system.link connection).serverNext order task event).map fun (link, task) =>
            { system.setLink connection link with serving := task.map (connection, ·) }

def machine (order : ByteOrder) : Machine System SystemEvent := ⟨next order⟩

def task (system : System) (connection : Nat) : Option ServerTask :=
  match system.serving with
  | none => none
  | some (served, task) => if served = connection then some task else none

def Sound (order : ByteOrder) (system : System) : Prop :=
  ∀ connection, (system.link connection).Follows order (system.task connection)

/-- The server processes what the client sent, and the client gets the answers
to it, from the first on and without gaps. -/
structure InOrder (link : Link) : Prop where
  processed : link.accepted <+: link.sent.map Frame.message
  returned : link.returned <+: link.acks

variable {order : ByteOrder} {system following : System}

theorem task_of_serving {served : Nat} {task : ServerTask}
    (serving : system.serving = some (served, task)) : system.task served = some task := by
  simp [System.task, serving]

theorem task_of_other {served connection : Nat} {task : ServerTask}
    (serving : system.serving = some (served, task)) (other : connection ≠ served) :
    system.task connection = none := by
  simp [System.task, serving, other.symm]

theorem task_of_idle (idle : system.serving = none) (connection : Nat) :
    system.task connection = none := by
  simp [System.task, idle]

theorem sound_start (order : ByteOrder) : Sound order start :=
  fun _ => Link.follows_connected order

theorem Sound.client {connection : Nat} {event : ClientEvent} (sound : Sound order system)
    (step : system.next order (.client connection event) = some following) :
    Sound order following := by
  rcases Option.map_eq_some_iff.mp step with ⟨link, taken, rfl⟩
  intro other
  by_cases same : other = connection
  · subst same
    simp only [setLink, Function.update_self]
    exact (sound other).clientNext taken
  · simp only [setLink, Function.update_of_ne same]
    exact sound other

theorem Sound.pick {connection : Nat} (sound : Sound order system)
    (step : system.next order (.pick connection) = some following) : Sound order following := by
  rcases Option.ite_none_right_eq_some.mp step with ⟨⟨idle, isOpen, _⟩, picked⟩
  cases picked
  intro other
  have follows := sound other
  rw [task_of_idle idle other] at follows
  by_cases same : other = connection
  · subst same
    rw [task_of_serving rfl]
    exact { follows with open_of_served := fun _ => isOpen }
  · rw [task_of_other rfl same]
    exact follows

theorem Sound.server {event : ServerEvent} (sound : Sound order system)
    (step : system.next order (.server event) = some following) : Sound order following := by
  rw [next] at step
  split at step
  case h_1 => cases step
  case h_2 connection task serving =>
    rcases Option.map_eq_some_iff.mp step with ⟨⟨link, task⟩, taken, rfl⟩
    intro other
    have follows := sound other
    by_cases same : other = connection
    · subst same
      rw [task_of_serving serving] at follows
      simp only [setLink, Function.update_self]
      have kept := follows.serverNext taken
      cases task with
      | none => exact kept
      | some task =>
          rw [task_of_serving rfl]
          exact kept
    · rw [task_of_other serving same] at follows
      simp only [setLink, Function.update_of_ne same]
      cases task with
      | none => exact follows
      | some task =>
          rw [task_of_other rfl same]
          exact follows

/-- For every connection of every run: however the streams are cut, and in
whatever order the server comes to its clients. -/
theorem inOrder_run {events : List SystemEvent}
    (reached : (machine order).run start events = some system) (connection : Nat) :
    InOrder (system.link connection) := by
  have sound : Sound order system := by
    apply Machine.run_invariant ?_ (sound_start order) reached
    intro system event following sound step
    cases event with
    | client connection event => exact sound.client step
    | pick connection => exact sound.pick step
    | server event => exact sound.server step
  exact ⟨(sound connection).accepted, (sound connection).returned⟩

def tick : Frame := ⟨audioType, [7], by decide, by decide⟩

theorem inOrder_run_piecewise :
    ∃ events system, (machine .little).run start events = some system ∧
      (system.link 1).returned = [1] ∧ InOrder (system.link 1) := by
  have reached : (machine .little).run start
      [.client 0 (.frame tick), .client 0 (.send 1), .client 1 (.frame tick), .client 1 (.send 1),
        .client 1 .sendDone, .client 1 (.send 3), .pick 1, .server (.recv 1), .client 1 .sendAgain,
        .client 1 (.send 1), .client 1 .sendDone, .client 1 (.send 1), .client 1 .sendDone,
        .server .recvDone, .server (.recv 2), .server .recvAgain, .server (.recv 2),
        .server .recvDone, .server (.recv 1), .server .recvDone, .server (.process true),
        .server (.send 3), .client 1 .select, .client 1 (.recv 2), .server (.send 1),
        .server .sendDone, .client 1 (.recv 2), .client 1 .recvDone] = some _ := rfl
  exact ⟨_, _, reached, rfl, inOrder_run reached 1⟩

end System

end RaspberryPi.Streaming
