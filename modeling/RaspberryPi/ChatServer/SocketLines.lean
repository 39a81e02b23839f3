import RaspberryPi.Foundation.Framing
import RaspberryPi.Foundation.Machine
import RaspberryPi.Foundation.Pipe
import RaspberryPi.ChatServer.ClientInput
import RaspberryPi.ChatServer.Message

/-! # Lines on the socket of a client

`client_server.c` ends every line with a NUL. `client_work` takes whatever one
read of its socket returns for one line. -/

namespace RaspberryPi.ChatServer

open CString

structure SocketLines where
  stream : Pipe UInt8
  typed : List Bytes
  received : List Bytes
  records : List Bytes

inductive SocketEvent
  | typed (line : Bytes)
  | read (count : Nat)

namespace SocketLines

def start : SocketLines := ⟨.empty, [], [], []⟩

def typeLine (lines : SocketLines) (line : Bytes) : Option SocketLines :=
  if IsLine line then
    some { lines with
      stream := lines.stream.write (line ++ [0])
      typed := lines.typed ++ [line] }
  else none

/-- One socket read of `client_work`, and the record it writes to the parent. -/
def read (lines : SocketLines) (clientPid : Pid) (count : Nat) : Option SocketLines :=
  if 0 < count ∧ count < bufsiz ∧ count ≤ lines.stream.unread.length then
    some { lines with
      stream := lines.stream.read count
      received := lines.received ++ [lines.stream.chunk count]
      records := lines.records ++ [formatRecord clientPid (lines.stream.chunk count)] }
  else none

def machine (clientPid : Pid) : Machine SocketLines SocketEvent where
  next lines
    | .typed line => lines.typeLine line
    | .read count => lines.read clientPid count

def ForwardedExactly (clientPid : Pid) (lines : SocketLines) : Prop :=
  lines.records = lines.typed.map fun line => decimal clientPid ++ colon :: line ++ [0]

structure Streams (clientPid : Pid) (lines : SocketLines) : Prop where
  written : lines.stream.written = lines.typed.map (· ++ [0])
  areLines : ∀ line ∈ lines.typed, IsLine line
  stream : lines.received.flatten ++ lines.stream.unread = lines.stream.written.flatten
  chunks : ∀ chunk ∈ lines.received, chunk ≠ [] ∧ chunk.length < bufsiz
  records : lines.records = lines.received.map (formatRecord clientPid)

theorem streams_start (clientPid : Pid) : Streams clientPid start := by
  constructor <;> simp [start, Pipe.empty, Pipe.unread]

theorem Streams.typeLine {clientPid : Pid} {lines next : SocketLines} {line : Bytes}
    (streams : Streams clientPid lines) (step : lines.typeLine line = some next) :
    Streams clientPid next := by
  rw [SocketLines.typeLine] at step
  split_ifs at step with isLine
  cases step
  constructor
  · simp [Pipe.write, streams.written]
  · intro other member
    rcases List.mem_append.mp member with old | new
    · exact streams.areLines other old
    · exact List.mem_singleton.mp new ▸ isLine
  · rw [Pipe.unread_write, ← List.append_assoc, streams.stream]
    simp [Pipe.write]
  · exact streams.chunks
  · exact streams.records

theorem Streams.read {clientPid : Pid} {lines next : SocketLines} {count : Nat}
    (streams : Streams clientPid lines) (step : lines.read clientPid count = some next) :
    Streams clientPid next := by
  rw [SocketLines.read] at step
  split_ifs at step with readable
  cases step
  rcases readable with ⟨positive, bounded, available⟩
  have length : (lines.stream.chunk count).length = count := by
    rw [Pipe.chunk, List.length_take]
    omega
  constructor
  · exact streams.written
  · exact streams.areLines
  · rw [List.flatten_append, List.flatten_singleton, List.append_assoc,
      Pipe.chunk_append_unread, streams.stream]
    rfl
  · intro chunk member
    rcases List.mem_append.mp member with old | new
    · exact streams.chunks chunk old
    · rw [List.mem_singleton.mp new]
      constructor
      · intro empty
        rw [empty, List.length_nil] at length
        omega
      · rw [length]
        exact bounded
  · simp [streams.records]

theorem streams_run {clientPid : Pid} {events : List SocketEvent} {lines : SocketLines}
    (reached : (machine clientPid).run start events = some lines) :
    Streams clientPid lines := by
  apply Machine.run_invariant ?_ (streams_start clientPid) reached
  intro lines event next streams step
  cases event with
  | typed line => exact streams.typeLine step
  | read count => exact streams.read step

theorem Streams.records_eq {clientPid : Pid} (inRange : (clientPid : Int) ≤ intMax)
    {lines : SocketLines} (streams : Streams clientPid lines) :
    lines.records = (lines.received.map text).map fun line =>
      decimal clientPid ++ colon :: line ++ [0] := by
  rw [streams.records, List.map_map]
  apply List.map_congr_left
  intro chunk member
  rw [formatRecord_eq inRange (streams.chunks chunk member).2]
  rfl

/-- Once everything was read, the records are those of the lines exactly when
each read returned one whole line. -/
theorem forwardedExactly_iff {clientPid : Pid} (inRange : (clientPid : Int) ≤ intMax)
    {events : List SocketEvent} {lines : SocketLines}
    (reached : (machine clientPid).run start events = some lines)
    (drained : lines.stream.unread = []) :
    ForwardedExactly clientPid lines ↔ lines.received = lines.typed.map (· ++ [0]) := by
  have streams := streams_run reached
  constructor
  · intro forwarded
    have injective : Function.Injective fun line : Bytes =>
        decimal clientPid ++ colon :: line ++ [0] := by
      intro first second equal
      simpa using equal
    have texts : lines.received.map text = lines.typed := by
      apply List.map_injective_iff.mpr injective
      rw [← streams.records_eq inRange, forwarded]
    have stream := streams.stream
    rw [drained, List.append_nil, streams.written, ← texts] at stream
    rw [← texts]
    apply chunks_eq_of_texts ?_ ?_ stream
    · exact fun chunk member => (streams.chunks chunk member).1
    · exact fun line member => (streams.areLines line (texts ▸ member)).1
  · intro whole
    have texts : lines.received.map text = lines.typed := by
      rw [whole, List.map_map]
      calc lines.typed.map (text ∘ (· ++ [0])) = lines.typed.map id := by
            apply List.map_congr_left
            intro line member
            exact text_append_nul [] (streams.areLines line member).2.1
        _ = lines.typed := List.map_id _
    rw [ForwardedExactly, streams.records_eq inRange, texts]

theorem forwardedExactly_iff_apart :
    ∃ lines, (machine 100).run start
        [.typed (ascii ['a', '\n']), .read 3, .typed (ascii ['b', '\n']), .read 3] = some lines ∧
      (ForwardedExactly 100 lines ↔ lines.received = lines.typed.map (· ++ [0])) := by
  have reached : (machine 100).run start
      [.typed (ascii ['a', '\n']), .read 3, .typed (ascii ['b', '\n']), .read 3] = some _ := rfl
  exact ⟨_, reached, forwardedExactly_iff (by decide) reached (by decide)⟩

/-- Of two lines that are read together the second is dropped. -/
theorem not_forwardedExactly_together :
    ¬∀ (clientPid : Pid) (events : List SocketEvent) (lines : SocketLines),
      (clientPid : Int) ≤ intMax → (machine clientPid).run start events = some lines →
      lines.stream.unread = [] → ForwardedExactly clientPid lines := by
  intro always
  have reached : (machine 100).run start
      [.typed (ascii ['a', '\n']), .typed (ascii ['b', '\n']), .read 6] = some _ := rfl
  have forwarded := always 100 _ _ (by decide) reached (by decide)
  exact absurd forwarded (by unfold ForwardedExactly; decide)

end SocketLines

end RaspberryPi.ChatServer
