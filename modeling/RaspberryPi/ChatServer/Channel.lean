import RaspberryPi.Foundation.Framing
import RaspberryPi.Foundation.Machine
import RaspberryPi.Foundation.Pipe
import RaspberryPi.ChatServer.Message

/-! # The channel from a child to the parent

One child writes records to its pipe and the scan of the parent reads from it.
The encoder counts on record boundaries that the reads do not see. -/

namespace RaspberryPi.ChatServer

open CString

structure Dispatched where
  fromWho : Int
  content : Bytes
deriving DecidableEq

/-- The pipe of one child with both of its ends, and what became of it so far. -/
structure Channel where
  pipe : Pipe UInt8
  sent : List Bytes
  mesgBuffer : MesgBuffer
  received : List Bytes
  dispatched : List Dispatched
  crashed : Bool

inductive ChannelEvent
  | write (content : Bytes)
  | read (count : Nat)

namespace Channel

def start (buffer : MesgBuffer) : Channel := ⟨.empty, [], buffer, [], [], false⟩

def write (channel : Channel) (clientPid : Pid) (content : Bytes) : Option Channel :=
  if content ≠ [] ∧ 0 ∉ content ∧ content.length < bufsiz then
    some { channel with
      pipe := channel.pipe.write (formatRecord clientPid content)
      sent := channel.sent ++ [content] }
  else none

def parse (channel : Channel) (chunk : Bytes) : Channel :=
  let buffer := channel.mesgBuffer.store (chunk ++ [0])
  let channel := { channel with received := channel.received ++ [chunk] }
  match parseMessage buffer.bytes with
  | .error _ => { channel with crashed := true }
  | .ok (pidStr, content) =>
      let dispatched := match pidStr with
        | some pidStr => [⟨atoi (text pidStr), text content⟩]
        | none => []
      { channel with
        mesgBuffer := parsedBuffer buffer content
        dispatched := channel.dispatched ++ dispatched }

def read (channel : Channel) (count : Nat) : Option Channel :=
  if 0 < count ∧ count < bufsiz ∧ count ≤ channel.pipe.unread.length ∧
      channel.crashed = false then
    some (parse { channel with pipe := channel.pipe.read count } (channel.pipe.chunk count))
  else none

def machine (clientPid : Pid) : Machine Channel ChannelEvent where
  next channel
    | .write content => channel.write clientPid content
    | .read count => channel.read count

/-- Every record was parsed on its own and dispatched once, in order. -/
structure DeliveredExactly (clientPid : Pid) (channel : Channel) : Prop where
  dispatched : channel.dispatched =
    channel.sent.map fun content => ⟨clientPid, lineOf content⟩
  parsed : channel.received.map text =
    channel.sent.map fun content => decimal clientPid ++ colon :: content

def messageOf (chunk : Bytes) : Dispatched :=
  ⟨atoi (pidText (text chunk)), lineOf (contentText (text chunk))⟩

theorem parse_eq (channel : Channel) {chunk : Bytes} (fits : chunk.length < bufsiz) :
    ∃ buffer, channel.parse chunk =
      if contentText (text chunk) = [] then
        { channel with received := channel.received ++ [chunk], crashed := true }
      else
        { channel with
          received := channel.received ++ [chunk]
          mesgBuffer := buffer
          dispatched := channel.dispatched ++ [messageOf chunk] } := by
  rcases parseMessage_store channel.mesgBuffer fits with ⟨tail, parsed, _⟩
  have noNul := zero_notMem_text chunk
  rw [parse]
  dsimp only
  rw [parsed]
  by_cases empty : contentText (text chunk) = []
  · exact ⟨channel.mesgBuffer, by rw [if_pos empty, if_pos empty]⟩
  · rcases cutAt_content tail (zero_notMem_contentText noNul) with ⟨behind, cut, _, _⟩
    have line : text (lineOf (contentText (text chunk)) ++ 0 :: behind) =
        lineOf (contentText (text chunk)) :=
      text_append_nul behind (zero_notMem_lineOf (zero_notMem_contentText noNul))
    refine ⟨parsedBuffer (channel.mesgBuffer.store (chunk ++ [0]))
      (lineOf (contentText (text chunk)) ++ 0 :: behind), ?_⟩
    rw [if_neg empty, if_neg empty, cut]
    dsimp only
    rw [text_pidText_append _ noNul, line]
    rfl

/-- How what was sent, read and dispatched hangs together. -/
structure Streams (clientPid : Pid) (channel : Channel) : Prop where
  written : channel.pipe.written = channel.sent.map (formatRecord clientPid)
  contents : ∀ content ∈ channel.sent,
    content ≠ [] ∧ 0 ∉ content ∧ content.length < bufsiz
  stream : channel.received.flatten ++ channel.pipe.unread = channel.pipe.written.flatten
  nonempty : ∀ chunk ∈ channel.received, chunk ≠ []
  dispatched : channel.crashed = false → channel.dispatched = channel.received.map messageOf
  crashed : channel.crashed = true ↔
    ∃ chunk ∈ channel.received, contentText (text chunk) = []

theorem streams_start (clientPid : Pid) (buffer : MesgBuffer) :
    Streams clientPid (start buffer) := by
  constructor <;> simp [start, Pipe.empty, Pipe.unread]

theorem Streams.write {clientPid : Pid} {channel next : Channel} {content : Bytes}
    (streams : Streams clientPid channel)
    (step : channel.write clientPid content = some next) : Streams clientPid next := by
  rw [Channel.write] at step
  split_ifs at step with valid
  cases step
  constructor
  · simp [Pipe.write, streams.written]
  · intro other member
    rcases List.mem_append.mp member with old | new
    · exact streams.contents other old
    · exact List.mem_singleton.mp new ▸ valid
  · rw [Pipe.unread_write, ← List.append_assoc, streams.stream]
    simp [Pipe.write]
  · exact streams.nonempty
  · exact streams.dispatched
  · exact streams.crashed

theorem Streams.read {clientPid : Pid} {channel next : Channel} {count : Nat}
    (streams : Streams clientPid channel)
    (step : channel.read count = some next) : Streams clientPid next := by
  rw [Channel.read] at step
  split_ifs at step with readable
  rcases readable with ⟨positive, bounded, available, alive⟩
  have length : (channel.pipe.chunk count).length = count := by
    rw [Pipe.chunk, List.length_take]
    omega
  have chunkNonempty : channel.pipe.chunk count ≠ [] := by
    intro empty
    rw [empty, List.length_nil] at length
    omega
  have stream : (channel.received ++ [channel.pipe.chunk count]).flatten ++
      (channel.pipe.read count).unread = channel.pipe.written.flatten := by
    rw [List.flatten_append, List.flatten_singleton, List.append_assoc,
      Pipe.chunk_append_unread, streams.stream]
  have nonempty : ∀ chunk ∈ channel.received ++ [channel.pipe.chunk count], chunk ≠ [] := by
    intro chunk member
    rcases List.mem_append.mp member with old | new
    · exact streams.nonempty chunk old
    · exact List.mem_singleton.mp new ▸ chunkNonempty
  have soFar : ¬∃ chunk ∈ channel.received, contentText (text chunk) = [] := by
    rw [← streams.crashed, alive]
    simp
  rcases parse_eq { channel with pipe := channel.pipe.read count }
    (by rw [length]; exact bounded) with ⟨buffer, parsed⟩
  rw [parsed, Option.some.injEq] at step
  by_cases empty : contentText (text (channel.pipe.chunk count)) = []
  · rw [if_pos empty] at step
    subst step
    exact ⟨streams.written, streams.contents, stream, nonempty, by simp,
      by simpa using Or.inr empty⟩
  · rw [if_neg empty] at step
    subst step
    refine ⟨streams.written, streams.contents, stream, nonempty, ?_, ?_⟩
    · intro _
      simp [streams.dispatched alive]
    · simpa [alive, empty] using soFar

theorem streams_run {clientPid : Pid} {buffer : MesgBuffer} {events : List ChannelEvent}
    {channel : Channel}
    (reached : (machine clientPid).run (start buffer) events = some channel) :
    Streams clientPid channel := by
  refine Machine.run_invariant ?_ (streams_start clientPid buffer) reached
  intro channel event next streams step
  cases event with
  | write content => exact streams.write step
  | read count => exact streams.read step

theorem map_formatRecord {clientPid : Pid} (inRange : (clientPid : Int) ≤ intMax)
    {contents : List Bytes}
    (valid : ∀ content ∈ contents, content ≠ [] ∧ 0 ∉ content ∧ content.length < bufsiz) :
    contents.map (formatRecord clientPid) =
      (contents.map fun content => decimal clientPid ++ colon :: content).map (· ++ [0]) := by
  rw [List.map_map]
  apply List.map_congr_left
  intro content member
  rcases valid content member with ⟨_, noNul, fits⟩
  rw [formatRecord_eq inRange fits, text_eq_self noNul]
  rfl

theorem Streams.alive {clientPid : Pid} {channel : Channel}
    (streams : Streams clientPid channel)
    (parsed : channel.received.map text =
      channel.sent.map fun content => decimal clientPid ++ colon :: content) :
    channel.crashed = false := by
  rw [Bool.eq_false_iff]
  intro crashed
  rcases streams.crashed.mp crashed with ⟨chunk, member, empty⟩
  have seen : text chunk ∈ channel.received.map text := List.mem_map_of_mem member
  rw [parsed] at seen
  rcases List.mem_map.mp seen with ⟨content, isSent, equal⟩
  rw [← equal, contentText_record] at empty
  exact (streams.contents content isSent).1 empty

/-- Once everything was read, or the parent is down, the records were delivered
exactly when each read returned one whole record. -/
theorem deliveredExactly_iff {clientPid : Pid} (inRange : (clientPid : Int) ≤ intMax)
    {buffer : MesgBuffer} {events : List ChannelEvent} {channel : Channel}
    (reached : (machine clientPid).run (start buffer) events = some channel)
    (ended : channel.pipe.unread = [] ∨ channel.crashed = true) :
    DeliveredExactly clientPid channel ↔
      channel.received = channel.sent.map (formatRecord clientPid) := by
  have streams := streams_run reached
  have records := map_formatRecord inRange streams.contents
  constructor
  · intro delivered
    have alive := streams.alive delivered.parsed
    have drained : channel.pipe.unread = [] := ended.resolve_right (by simp [alive])
    have stream := streams.stream
    rw [drained, List.append_nil, streams.written, records, ← delivered.parsed] at stream
    have nonempty : ∀ string ∈ channel.received.map text, string ≠ [] := by
      rw [delivered.parsed]
      intro string member
      rcases List.mem_map.mp member with ⟨content, _, rfl⟩
      simp
    rw [records, ← delivered.parsed]
    exact chunks_eq_of_texts streams.nonempty nonempty stream
  · intro whole
    have parsed : channel.received.map text =
        channel.sent.map fun content => decimal clientPid ++ colon :: content := by
      rw [whole, records, List.map_map, List.map_map]
      apply List.map_congr_left
      intro content member
      exact text_append_nul [] (zero_notMem_record clientPid (streams.contents content member).2.1)
    have alive := streams.alive parsed
    refine ⟨?_, parsed⟩
    have messages : channel.received.map messageOf =
        (channel.received.map text).map fun string =>
          ⟨atoi (pidText string), lineOf (contentText string)⟩ := by
      rw [List.map_map]
      rfl
    rw [streams.dispatched alive, messages, parsed, List.map_map]
    apply List.map_congr_left
    intro content _
    rw [Function.comp, pidText_record, contentText_record, atoi_decimal inRange]

theorem deliveredExactly_iff_apart :
    ∃ channel, (machine 100).run (start .zeroed)
        [.write (ascii ['a']), .read 6, .write (ascii ['b']), .read 6] = some channel ∧
      (DeliveredExactly 100 channel ↔
        channel.received = channel.sent.map (formatRecord 100)) := by
  have reached : (machine 100).run (start .zeroed)
      [.write (ascii ['a']), .read 6, .write (ascii ['b']), .read 6] = some _ := rfl
  exact ⟨_, reached, deliveredExactly_iff (by decide) reached (Or.inl (by decide))⟩

/-- Two records that are read together reach the dispatch as one. -/
theorem not_dispatched_together :
    ¬∀ (clientPid : Pid) (buffer : MesgBuffer) (events : List ChannelEvent)
      (channel : Channel), 0 < clientPid → (clientPid : Int) ≤ intMax →
      (machine clientPid).run (start buffer) events = some channel →
      channel.pipe.unread = [] →
      channel.dispatched = channel.sent.map fun content => ⟨clientPid, lineOf content⟩ := by
  intro always
  have reached : (machine 100).run (start .zeroed)
      [.write (ascii ['a']), .write (ascii ['b']), .read 12] = some _ := rfl
  have same := always 100 _ _ _ (by decide) (by decide) reached (by decide)
  exact absurd same (by decide)

end Channel

end RaspberryPi.ChatServer
