import Mathlib.Logic.Function.Basic
import RaspberryPi.Foundation.Pipe
import RaspberryPi.ChatServer.Server

/-! # The parent and its children

The parent together with the pipe of every child. A child writes whole records,
the parent reads as many bytes as it is given. `from_who` is what a read says
of itself; the pipe it came from is not asked. -/

namespace RaspberryPi.ChatServer

open CString

structure System where
  server : Server
  pipes : Pid → Pipe UInt8

inductive SystemEvent
  | accept (attempt : AcceptAttempt)
  | exit (pid : Pid)
  | clean (reaped : List Pid)
  | send (pid : Pid) (received : Bytes)
  | read (index count : Nat)

namespace System

def boot (buffer : MesgBuffer) (before : Finset Fd) (others : Finset Pid) : System where
  server := .boot buffer before others
  pipes := fun _ => .empty

def accept (system : System) (attempt : AcceptAttempt) : Option System :=
  (system.server.acceptClient attempt).map fun server =>
    match attempt.fork with
    | some pid =>
        if system.server.Refuses attempt then ⟨server, system.pipes⟩
        else ⟨server, Function.update system.pipes pid .empty⟩
    | none => ⟨server, system.pipes⟩

def send (system : System) (pid : Pid) (received : Bytes) : Option System :=
  if pid ∈ system.server.forked.map Child.pid ∧ pid ∉ system.server.exited ∧
      received ≠ [] ∧ received.length < bufsiz then
    some { system with
      pipes := Function.update system.pipes pid
        ((system.pipes pid).write (formatRecord pid received)) }
  else none

def read (system : System) (index count : Nat) : Option System :=
  match system.server.parent.clients[index]? with
  | none => none
  | some child =>
      (system.server.scanRead index ((system.pipes child.pid).chunk count)).map
        fun result => ⟨result.1, Function.update system.pipes child.pid
          ((system.pipes child.pid).read count)⟩

def next (system : System) : SystemEvent → Option System
  | .accept attempt => system.accept attempt
  | .exit pid => (system.server.exitChild pid).map fun server => { system with server }
  | .clean reaped =>
      (system.server.cleanActiveProcess reaped).map fun server => { system with server }
  | .send pid received => system.send pid received
  | .read index count => system.read index count

def machine : Machine System SystemEvent := ⟨next⟩

structure Sound (before : Finset Fd) (system : System) : Prop where
  registry : system.server.RegistryHolds before
  records : ∀ pid, ∀ record ∈ (system.pipes pid).written,
    ∃ content, record = decimal pid ++ colon :: content ++ [0]

theorem sound_boot (buffer : MesgBuffer) (before : Finset Fd) (others : Finset Pid) :
    Sound before (boot buffer before others) where
  registry := Server.registryHolds_boot buffer before others
  records := by simp [boot, Pipe.empty]

theorem next_pipes {system following : System} {event : SystemEvent} (pid : Pid)
    (registry : ∀ child ∈ system.server.forked, (child.pid : Int) ≤ intMax)
    (step : system.next event = some following) :
    (following.pipes pid).written = (system.pipes pid).written ∨
      (following.pipes pid).written = [] ∨
      ∃ content, (following.pipes pid).written =
        (system.pipes pid).written ++ [decimal pid ++ colon :: content ++ [0]] := by
  cases event with
  | accept attempt =>
      rcases Option.map_eq_some_iff.mp step with ⟨server, _, rfl⟩
      cases attempt.fork with
      | none => exact Or.inl rfl
      | some forked =>
          by_cases refuses : system.server.Refuses attempt
          · simp [refuses]
          · by_cases same : pid = forked
            · simp [refuses, same, Pipe.empty]
            · simp [refuses, same]
  | exit other =>
      rcases Option.map_eq_some_iff.mp step with ⟨server, _, rfl⟩
      exact Or.inl rfl
  | clean reaped =>
      rcases Option.map_eq_some_iff.mp step with ⟨server, _, rfl⟩
      exact Or.inl rfl
  | send sender received =>
      simp only [next, send] at step
      split_ifs at step with valid
      cases step
      rcases valid with ⟨isForked, _, _, fits⟩
      rcases List.mem_map.mp isForked with ⟨child, member, rfl⟩
      by_cases same : pid = child.pid
      · subst same
        refine Or.inr (Or.inr ⟨text received, ?_⟩)
        simp [Pipe.write, formatRecord_eq (registry child member) fits]
      · simp [same]
  | read index count =>
      simp only [next, read] at step
      cases here : system.server.parent.clients[index]? with
      | none => simp [here] at step
      | some child =>
          simp only [here] at step
          rcases Option.map_eq_some_iff.mp step with ⟨result, _, rfl⟩
          by_cases same : pid = child.pid
          · subst same
            simp [Pipe.read]
          · simp [same]

theorem next_server {system following : System} {event : SystemEvent}
    (step : system.next event = some following) :
    following.server = system.server ∨
      ∃ serverEvent, system.server.next serverEvent = some following.server := by
  cases event with
  | accept attempt =>
      rcases Option.map_eq_some_iff.mp step with ⟨server, done, rfl⟩
      refine Or.inr ⟨.accept attempt, ?_⟩
      cases attempt.fork with
      | none => exact done
      | some forked =>
          dsimp only
          split_ifs <;> exact done
  | exit pid =>
      rcases Option.map_eq_some_iff.mp step with ⟨server, done, rfl⟩
      exact Or.inr ⟨.exit pid, done⟩
  | clean reaped =>
      rcases Option.map_eq_some_iff.mp step with ⟨server, done, rfl⟩
      exact Or.inr ⟨.clean reaped, done⟩
  | send pid received =>
      simp only [next, send] at step
      split_ifs at step
      cases step
      exact Or.inl rfl
  | read index count =>
      simp only [next, read] at step
      cases here : system.server.parent.clients[index]? with
      | none => simp [here] at step
      | some child =>
          simp only [here] at step
          rcases Option.map_eq_some_iff.mp step with ⟨result, done, rfl⟩
          refine Or.inr ⟨.read index ((system.pipes child.pid).chunk count), ?_⟩
          exact Option.map_eq_some_iff.mpr ⟨result, done, rfl⟩

theorem next_sound {before : Finset Fd} {system following : System} {event : SystemEvent}
    (sound : Sound before system) (step : system.next event = some following) :
    Sound before following := by
  constructor
  · rcases next_server step with same | ⟨serverEvent, served⟩
    · rw [same]
      exact sound.registry
    · exact Server.next_holds sound.registry served
  · intro pid record member
    have inRange := fun child isForked => (sound.registry.inRange child isForked).2
    rcases next_pipes pid inRange step with same | emptied | ⟨content, written⟩
    · exact sound.records pid record (same ▸ member)
    · simp [emptied] at member
    · rw [written] at member
      rcases List.mem_append.mp member with old | new
      · exact sound.records pid record old
      · exact ⟨content, List.mem_singleton.mp new⟩

/-! ## Attribution -/

end System

end RaspberryPi.ChatServer
