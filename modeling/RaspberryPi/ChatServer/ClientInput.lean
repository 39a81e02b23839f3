import RaspberryPi.Foundation.Framing
import RaspberryPi.Foundation.Machine
import RaspberryPi.Foundation.Pipe
import RaspberryPi.ChatServer.Types

/-! # Typed input in `client_server.c`

One process reads the terminal, writes each line to a pipe and raises `SIGUSR1`.
The other one talks to the server, and its signal handler moves bytes from the
pipe to the socket. Pending signals do not count, and the read of the handler
blocks on an empty pipe. -/

namespace RaspberryPi.ChatServer

open CString

/-- What `fgets(buf, BUFSIZ, stdin)` makes of typed text. -/
def IsLine (line : Bytes) : Prop := line ≠ [] ∧ 0 ∉ line ∧ line.length < bufsiz

instance (line : Bytes) : Decidable (IsLine line) := inferInstanceAs (Decidable (_ ∧ _))

inductive Handler
  | idle
  | reading
  | writing (buf : Bytes)
  deriving DecidableEq

def Handler.held : Handler → Bytes
  | idle => []
  | reading => []
  | writing buf => buf

structure ClientInput where
  pfd : Pipe UInt8
  /-- The input process wrote a line and has not called `kill` for it yet. -/
  signalling : Bool
  pending : Bool
  handler : Handler
  typed : List Bytes
  socket : Bytes

inductive InputEvent
  | write (line : Bytes)
  | kill
  | deliver
  | read (count : Nat)
  | send

namespace ClientInput

def start : ClientInput := ⟨.empty, false, false, .idle, [], []⟩

def Enabled (input : ClientInput) : InputEvent → Prop
  | .write line => input.signalling = false ∧ IsLine line
  | .kill => input.signalling = true
  -- the signal stays blocked until its handler returns
  | .deliver => input.pending = true ∧ input.handler = .idle
  | .read count => input.handler = .reading ∧
      0 < count ∧ count ≤ bufsiz ∧ count ≤ input.pfd.unread.length
  | .send => input.handler ≠ .idle ∧ input.handler ≠ .reading

instance (input : ClientInput) (event : InputEvent) : Decidable (input.Enabled event) := by
  cases event <;> unfold Enabled <;> infer_instance

def after (input : ClientInput) : InputEvent → ClientInput
  | .write line => { input with
      pfd := input.pfd.write (line ++ [0])
      signalling := true
      typed := input.typed ++ [line] }
  | .kill => { input with signalling := false, pending := true }
  | .deliver => { input with pending := false, handler := .reading }
  | .read count => { input with
      pfd := input.pfd.read count
      handler := .writing (input.pfd.chunk count) }
  | .send => { input with handler := .idle, socket := input.socket ++ input.handler.held }

def machine : Machine ClientInput InputEvent := .guarded Enabled after

def AtRest (input : ClientInput) : Prop :=
  input.handler = .idle ∧ input.pending = false ∧ input.signalling = false

/-- The handler finds bytes to read, and the lines go out in order and once. -/
structure Forwards (input : ClientInput) : Prop where
  readable : input.handler = .reading → input.pfd.unread ≠ []
  sent : input.socket <+: terminated input.typed
  complete : input.AtRest → input.socket = terminated input.typed

/-- At a delivery the input process has written more than the handler took, and
a handler that leaves bytes behind will be called again. -/
def InStep (input : ClientInput) : InputEvent → Prop
  | .deliver => input.pfd.taken < input.pfd.written.flatten.length
  | .send => input.pfd.taken < input.pfd.written.flatten.length →
      input.pending = true ∨ input.signalling = true
  | _ => True

structure Conserves (input : ClientInput) : Prop where
  written : input.pfd.written = input.typed.map (· ++ [0])
  stream : input.socket ++ input.handler.held ++ input.pfd.unread = terminated input.typed

theorem conserves_start : Conserves start := by
  constructor <;> rfl

theorem Conserves.after {input : ClientInput} {event : InputEvent} (conserves : Conserves input)
    (enabled : input.Enabled event) : Conserves (input.after event) := by
  have stream := conserves.stream
  cases event with
  | write line =>
      constructor
      · simp [ClientInput.after, Pipe.write, conserves.written]
      · simp only [ClientInput.after, Pipe.unread_write]
        rw [← List.append_assoc, stream]
        simp [terminated]
  | kill => exact ⟨conserves.written, stream⟩
  | deliver =>
      rw [enabled.2] at stream
      exact ⟨conserves.written, stream⟩
  | read count =>
      rw [enabled.1, Handler.held, List.append_nil] at stream
      constructor
      · exact conserves.written
      · simp only [ClientInput.after, Handler.held]
        rw [List.append_assoc, Pipe.chunk_append_unread, stream]
  | send =>
      constructor
      · exact conserves.written
      · simpa [ClientInput.after, Handler.held] using stream

theorem Conserves.prefix_terminated {input : ClientInput} (conserves : Conserves input) :
    input.socket <+: terminated input.typed := by
  rw [← conserves.stream, List.append_assoc]
  exact List.prefix_append _ _

theorem Conserves.complete_iff {input : ClientInput} (conserves : Conserves input)
    (idle : input.handler = .idle) :
    input.socket = terminated input.typed ↔ input.pfd.unread = [] := by
  have stream := conserves.stream
  rw [idle, Handler.held, List.append_nil] at stream
  rw [← stream]
  exact List.self_eq_append_right

theorem forwards_after_iff {input : ClientInput} {event : InputEvent}
    (conserves : Conserves input) (forwards : Forwards input) (enabled : input.Enabled event) :
    Forwards (input.after event) ↔ input.InStep event := by
  have conserved := conserves.after enabled
  have sent := conserved.prefix_terminated
  cases event with
  | write line =>
      refine iff_of_true ⟨fun _ => ?_, sent, fun rest => ?_⟩ trivial
      · simp [after]
      · exact absurd rest.2.2 Bool.noConfusion
  | kill =>
      refine iff_of_true ⟨forwards.readable, sent, fun rest => ?_⟩ trivial
      exact absurd rest.2.1 Bool.noConfusion
  | read count =>
      refine iff_of_true ⟨fun reading => ?_, sent, fun rest => ?_⟩ trivial
      · exact absurd reading Handler.noConfusion
      · exact absurd rest.1 Handler.noConfusion
  | deliver =>
      constructor
      · intro holds
        by_contra behind
        exact holds.readable rfl (Pipe.unread_eq_nil_iff.mpr behind)
      · intro ahead
        refine ⟨fun _ empty => ?_, sent, fun rest => ?_⟩
        · exact Pipe.unread_eq_nil_iff.mp empty ahead
        · exact absurd rest.1 Handler.noConfusion
  | send =>
      have complete := conserved.complete_iff rfl
      constructor
      · intro holds left
        by_contra silent
        rw [not_or, Bool.not_eq_true, Bool.not_eq_true] at silent
        have drained := complete.mp (holds.complete ⟨rfl, silent⟩)
        exact Pipe.unread_eq_nil_iff.mp drained left
      · intro announced
        refine ⟨fun reading => ?_, sent, fun rest => ?_⟩
        · exact absurd reading Handler.noConfusion
        · apply complete.mpr
          apply Pipe.unread_eq_nil_iff.mpr
          intro left
          rcases announced left with pending | signalling
          · exact absurd (pending.symm.trans rest.2.1) Bool.noConfusion
          · exact absurd (signalling.symm.trans rest.2.2) Bool.noConfusion

/-- Every state of a run forwards its input exactly if every delivery and every
return of the handler meets the condition. -/
theorem forwards_run (events : List InputEvent) :
    machine.StatesSatisfy Forwards start events ↔ machine.StepsSatisfy InStep start events := by
  apply Machine.statesSatisfy_iff_stepsSatisfy ?_ ?_ events conserves_start
  · constructor <;> simp [start, Pipe.empty]
  · intro input event following conserves step
    rcases Machine.guarded_next_eq_some.mp step with ⟨enabled, rfl⟩
    exact conserves.after enabled
  · intro input event following conserves forwards step
    rcases Machine.guarded_next_eq_some.mp step with ⟨enabled, rfl⟩
    exact forwards_after_iff conserves forwards enabled

/-- A read that takes the second line before its signal is raised leaves a
signal for which there is nothing to read. -/
theorem not_forwards_earlyRead :
    ¬∀ (events : List InputEvent) (input : ClientInput),
      machine.run start events = some input → Forwards input := by
  intro always
  have reached : machine.run start
      [.write (ascii ['a', '\n']), .kill, .deliver, .write (ascii ['b', '\n']), .read 6, .kill,
        .send, .deliver] = some _ := rfl
  exact (always _ _ reached).readable rfl rfl

end ClientInput

end RaspberryPi.ChatServer
