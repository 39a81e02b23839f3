import RaspberryPi.Streaming.Frame

/-! # One client and its connection

The frame loop of `v4l2_client.c`, the two byte streams of its connection, and
the frame handling of `v4l2_tcp_server.c` for that connection. The calls of
`send` and `recv` inside `send_all` and `recv_all` are steps of their own, and
each transfers as much as it likes. -/

namespace RaspberryPi.Streaming

inductive ClientTask
  /-- Before the next frame. -/
  | ready
  /-- In `send_all`: what is left of its buffer, and the buffers of later calls. -/
  | sending (rest : Bytes) (later : List Bytes)
  /-- In `select`, waiting for the answer. -/
  | selecting
  /-- In `recv_all`: what has arrived of the answer. -/
  | receiving (got : Bytes)
  /-- Out of the loop; the socket is closed. -/
  | stopped

inductive Part
  | dataType
  | totalsize (dataType : UInt8)
  | buffer (dataType : UInt8) (totalsize : BitVec 32)

inductive ServerTask
  | receiving (part : Part) (got : Bytes)
  | processing (message : Message)
  | answering (rest : Bytes)

/-- A connection. What was sent, processed and returned so far is remembered. -/
structure Link where
  client : ClientTask
  toServer : Bytes
  toClient : Bytes
  /-- The server has closed its socket. -/
  closed : Bool
  sent : List Frame
  processed : List (Message × BitVec 32)
  returned : List (BitVec 32)

inductive ClientEvent
  | frame (frame : Frame)
  | noFrame
  | send (count : Nat)
  | sendAgain
  | sendDone
  | sendFails
  | select
  | selectFails
  | recv (count : Nat)
  | recvAgain
  | recvDone
  | recvFails

inductive ServerEvent
  | recv (count : Nat)
  | recvAgain
  | recvDone
  | recvFails
  | mallocFails
  | process (played : Bool)
  | send (count : Nat)
  | sendAgain
  | sendDone
  | sendFails

namespace ClientTask

def unsent : ClientTask → Bytes
  | sending rest later => rest ++ later.flatten
  | ready | selecting | receiving _ | stopped => []

def got : ClientTask → Bytes
  | receiving got => got
  | ready | sending _ _ | selecting | stopped => []

def IsStopped : ClientTask → Prop
  | stopped => True
  | ready | sending _ _ | selecting | receiving _ => False

instance (task : ClientTask) : Decidable task.IsStopped := by
  cases task <;> unfold IsStopped <;> infer_instance

end ClientTask

namespace Part

def length : Part → Nat
  | .dataType => 1
  | .totalsize _ => 4
  | .buffer _ size => size.toNat

def before (order : ByteOrder) : Part → Bytes
  | .dataType => []
  | .totalsize kind => [kind]
  | .buffer kind size => kind :: order.wordBytes size

def next (order : ByteOrder) (got : Bytes) : (part : Part) → got.length = part.length → ServerTask
  | .dataType, _ => .receiving (.totalsize (got.headD 0)) []
  | .totalsize kind, _ => .receiving (.buffer kind (order.word got)) []
  | .buffer kind size, complete => .processing ⟨kind, size, got, complete⟩

end Part

namespace ServerTask

def taken (order : ByteOrder) : ServerTask → Bytes
  | receiving part got => part.before order ++ got
  | processing message => message.bytes order
  | answering _ => []

def unsent : ServerTask → Bytes
  | answering rest => rest
  | receiving _ _ | processing _ => []

end ServerTask

namespace Link

def connected : Link := ⟨.ready, [], [], false, [], [], []⟩

def clientNext (order : ByteOrder) (link : Link) (event : ClientEvent) : Option Link :=
  match event, link.client with
  | .frame frame, .ready =>
      some { link with
        client := .sending [frame.dataType] [order.wordBytes frame.totalsize, frame.buffer]
        sent := link.sent ++ [frame] }
  | .noFrame, .ready => some { link with client := .stopped }
  | .send count, .sending rest later =>
      if 0 < count ∧ count ≤ rest.length then
        some { link with
          client := .sending (rest.drop count) later
          toServer := link.toServer ++ rest.take count }
      else none
  | .sendAgain, .sending rest _ => if rest ≠ [] then some link else none
  | .sendDone, .sending [] (next :: later) => some { link with client := .sending next later }
  | .sendDone, .sending [] [] => some { link with client := .selecting }
  | .sendFails, .sending rest _ =>
      if rest ≠ [] then some { link with client := .stopped } else none
  | .select, .selecting =>
      if link.toClient ≠ [] ∨ link.closed then some { link with client := .receiving [] }
      else none
  | .selectFails, .selecting => some { link with client := .stopped }
  | .recv count, .receiving got =>
      if 0 < count ∧ got.length + count ≤ 4 ∧ count ≤ link.toClient.length then
        some { link with
          client := .receiving (got ++ link.toClient.take count)
          toClient := link.toClient.drop count }
      else none
  | .recvAgain, .receiving got => if got.length < 4 then some link else none
  | .recvDone, .receiving got =>
      if got.length = 4 then
        some { link with
          client := if order.word got = 1 then .ready else .stopped
          returned := link.returned ++ [order.word got] }
      else none
  | .recvFails, .receiving got =>
      if got.length < 4 then some { link with client := .stopped } else none
  | _, _ => none

def cleanup (link : Link) : Link := { link with closed := true }

/-- A step of the server on this connection, and where it is afterwards. -/
def serverNext (order : ByteOrder) (link : Link) (task : ServerTask) (event : ServerEvent) :
    Option (Link × Option ServerTask) :=
  match event, task with
  | .recv count, .receiving part got =>
      if 0 < count ∧ got.length + count ≤ part.length ∧ count ≤ link.toServer.length then
        some ({ link with toServer := link.toServer.drop count },
          some (.receiving part (got ++ link.toServer.take count)))
      else none
  | .recvAgain, .receiving part got =>
      if got.length < part.length then some (link, some task) else none
  | .recvDone, .receiving part got =>
      if complete : got.length = part.length then some (link, some (part.next order got complete))
      else none
  | .recvFails, .receiving part got =>
      if got.length < part.length then some (link.cleanup, none) else none
  | .mallocFails, .receiving (.totalsize _) got =>
      if got.length = 4 then some (link.cleanup, none) else none
  | .process played, .processing message =>
      let ack := finalAck message.dataType played
      some ({ link with processed := link.processed ++ [(message, ack)] },
        some (.answering (order.wordBytes ack)))
  | .send count, .answering rest =>
      if 0 < count ∧ count ≤ rest.length then
        some ({ link with toClient := link.toClient ++ rest.take count },
          some (.answering (rest.drop count)))
      else none
  | .sendAgain, .answering rest => if rest ≠ [] then some (link, some task) else none
  | .sendDone, .answering [] => some (link, none)
  | .sendFails, .answering rest => if rest ≠ [] then some (link.cleanup, none) else none
  | _, _ => none

/-! ## What is under way -/

def accepted (link : Link) : List Message := link.processed.map Prod.fst

def acks (link : Link) : List (BitVec 32) := link.processed.map Prod.snd

/-- Each byte of a frame is processed, in the hands of the server, on the way or
not sent yet; the same for the answers. Bytes get lost only when one end closes. -/
structure Follows (order : ByteOrder) (link : Link) (task : Option ServerTask) : Prop where
  open_of_served : task ≠ none → link.closed = false
  accepted : link.accepted <+: link.sent.map Frame.message
  returned : link.returned <+: link.acks
  incoming : link.closed = false →
    link.accepted.flatMap (Message.bytes order) ++ task.elim [] (ServerTask.taken order) ++
      (link.toServer ++ link.client.unsent) <+:
        (link.sent.map Frame.message).flatMap (Message.bytes order)
  incomingAll : link.closed = false → ¬link.client.IsStopped →
    link.accepted.flatMap (Message.bytes order) ++ task.elim [] (ServerTask.taken order) ++
      (link.toServer ++ link.client.unsent) =
        (link.sent.map Frame.message).flatMap (Message.bytes order)
  outgoing : ¬link.client.IsStopped →
    link.returned.flatMap order.wordBytes ++ (link.client.got ++ link.toClient) ++
      task.elim [] ServerTask.unsent <+: link.acks.flatMap order.wordBytes
  outgoingAll : link.closed = false → ¬link.client.IsStopped →
    link.returned.flatMap order.wordBytes ++ (link.client.got ++ link.toClient) ++
      task.elim [] ServerTask.unsent = link.acks.flatMap order.wordBytes

variable {order : ByteOrder} {link next : Link} {task : Option ServerTask}

theorem follows_connected (order : ByteOrder) : Follows order connected none := by
  constructor <;> simp [connected, Link.accepted, acks, ClientTask.unsent, ClientTask.got]

theorem Follows.moved (follows : Follows order link task) {before : ClientTask}
    (started : link.client = before) (running : ¬before.IsStopped) (client : ClientTask)
    (toServer toClient : Bytes)
    (sending : toServer ++ client.unsent = link.toServer ++ before.unsent)
    (receiving : client.got ++ toClient = before.got ++ link.toClient) :
    Follows order { link with client, toServer, toClient } task := by
  subst started
  constructor
  · exact follows.open_of_served
  · exact follows.accepted
  · exact follows.returned
  · intro isOpen
    simp only [sending]
    exact follows.incoming isOpen
  · intro isOpen _
    simp only [sending]
    exact follows.incomingAll isOpen running
  · intro _
    simp only [receiving]
    exact follows.outgoing running
  · intro isOpen _
    simp only [receiving]
    exact follows.outgoingAll isOpen running

theorem Follows.stop (follows : Follows order link task) :
    Follows order { link with client := .stopped } task := by
  constructor
  · exact follows.open_of_served
  · exact follows.accepted
  · exact follows.returned
  · intro isOpen
    refine List.IsPrefix.trans ?_ (follows.incoming isOpen)
    apply (List.prefix_append_right_inj _).mpr
    apply (List.prefix_append_right_inj _).mpr
    exact List.nil_prefix
  · exact fun _ running => (running trivial).elim
  · exact fun running => (running trivial).elim
  · exact fun _ running => (running trivial).elim

theorem Follows.frame (follows : Follows order link task) (frame : Frame)
    (ready : link.client = .ready) :
    Follows order { link with
      client := .sending [frame.dataType] [order.wordBytes frame.totalsize, frame.buffer]
      sent := link.sent ++ [frame] } task := by
  have running : ¬link.client.IsStopped := by
    rw [ready]
    exact id
  have bytes : [frame.dataType] ++ [order.wordBytes frame.totalsize, frame.buffer].flatten =
      frame.message.bytes order := frame.flatten_parts order
  have all : link.closed = false →
      link.accepted.flatMap (Message.bytes order) ++ task.elim [] (ServerTask.taken order) ++
        (link.toServer ++ frame.message.bytes order) =
          ((link.sent ++ [frame]).map Frame.message).flatMap (Message.bytes order) := by
    intro isOpen
    have before := follows.incomingAll isOpen running
    rw [ready, ClientTask.unsent, List.append_nil] at before
    rw [← List.append_assoc, before]
    simp
  constructor
  · exact follows.open_of_served
  · refine follows.accepted.trans ?_
    rw [List.map_append]
    exact List.prefix_append _ _
  · exact follows.returned
  · intro isOpen
    simp only [ClientTask.unsent, bytes]
    exact ⟨[], (List.append_nil _).trans (all isOpen)⟩
  · intro isOpen _
    simp only [ClientTask.unsent, bytes]
    exact all isOpen
  · intro _
    have before := follows.outgoing running
    rwa [ready] at before
  · intro isOpen _
    have before := follows.outgoingAll isOpen running
    rwa [ready] at before

theorem Follows.recvDone {got : Bytes} (follows : Follows order link task)
    (receiving : link.client = .receiving got) (complete : got.length = 4) :
    Follows order { link with
      client := if order.word got = 1 then .ready else .stopped
      returned := link.returned ++ [order.word got] } task := by
  have running : ¬link.client.IsStopped := by
    rw [receiving]
    exact id
  have word : order.wordBytes (order.word got) = got := order.wordBytes_word complete
  have unsent : (if order.word got = 1 then ClientTask.ready else .stopped).unsent = [] := by
    split_ifs <;> rfl
  have nothing : (if order.word got = 1 then ClientTask.ready else .stopped).got = [] := by
    split_ifs <;> rfl
  have outgoing := follows.outgoing running
  rw [receiving, ClientTask.got, List.append_assoc, List.append_assoc] at outgoing
  constructor
  · exact follows.open_of_served
  · exact follows.accepted
  · apply (prefixCode_wordBytes order).next follows.returned
    rw [word, List.append_assoc]
    exact outgoing
  · intro isOpen
    have before := follows.incoming isOpen
    rw [receiving, ClientTask.unsent] at before
    simp only [unsent]
    exact before
  · intro isOpen _
    have before := follows.incomingAll isOpen running
    rw [receiving, ClientTask.unsent] at before
    simp only [unsent]
    exact before
  · intro _
    simp only [nothing, List.flatMap_append, List.flatMap_singleton, word, List.nil_append,
      List.append_assoc]
    exact outgoing
  · intro isOpen _
    have before := follows.outgoingAll isOpen running
    rw [receiving, ClientTask.got, List.append_assoc, List.append_assoc] at before
    simp only [nothing, List.flatMap_append, List.flatMap_singleton, word, List.nil_append,
      List.append_assoc]
    exact before

theorem Follows.clientNext {event : ClientEvent} (follows : Follows order link task)
    (step : link.clientNext order event = some next) : Follows order next task := by
  unfold Link.clientNext at step
  split at step
  case h_1 frame ready =>
    cases step
    exact follows.frame frame ready
  case h_2 =>
    cases step
    exact follows.stop
  case h_3 count rest later sending =>
    split_ifs at step
    cases step
    apply follows.moved sending id (.sending (rest.drop count) later) _ link.toClient ?_ rfl
    simp only [ClientTask.unsent, List.append_assoc]
    rw [← List.append_assoc (rest.take count), List.take_append_drop]
  case h_4 =>
    split_ifs at step
    cases step
    exact follows
  case h_5 later sending =>
    cases step
    exact follows.moved sending id _ _ _ rfl rfl
  case h_6 sending =>
    cases step
    exact follows.moved sending id .selecting _ _ rfl rfl
  case h_7 =>
    split_ifs at step
    cases step
    exact follows.stop
  case h_8 selecting =>
    split_ifs at step
    cases step
    exact follows.moved selecting id (.receiving []) _ _ rfl rfl
  case h_9 =>
    cases step
    exact follows.stop
  case h_10 count got receiving =>
    split_ifs at step
    cases step
    apply follows.moved receiving id (.receiving (got ++ link.toClient.take count)) link.toServer _
      rfl ?_
    simp only [ClientTask.got, List.append_assoc, List.take_append_drop]
  case h_11 =>
    split_ifs at step
    cases step
    exact follows
  case h_12 got receiving =>
    rcases Option.ite_none_right_eq_some.mp step with ⟨complete, done⟩
    cases done
    exact follows.recvDone receiving complete
  case h_13 =>
    split_ifs at step
    cases step
    exact follows.stop
  case h_14 => cases step

/-! ## Steps of the server -/

theorem taken_next (order : ByteOrder) {part : Part} {got : Bytes}
    (complete : got.length = part.length) :
    (part.next order got complete).taken order = part.before order ++ got := by
  cases part with
  | dataType =>
      rcases List.length_eq_one_iff.mp complete with ⟨byte, rfl⟩
      rfl
  | totalsize kind =>
      simp [Part.next, Part.before, ServerTask.taken, order.wordBytes_word complete]
  | buffer kind size => rfl

theorem unsent_next (order : ByteOrder) {part : Part} {got : Bytes}
    (complete : got.length = part.length) : (part.next order got complete).unsent = [] := by
  cases part <;> rfl

theorem Follows.served {before : ServerTask} (follows : Follows order link (some before))
    (following : Option ServerTask) (toServer toClient : Bytes)
    (receiving : following.elim [] (ServerTask.taken order) ++ toServer =
      before.taken order ++ link.toServer)
    (sending : toClient ++ following.elim [] ServerTask.unsent =
      link.toClient ++ before.unsent) :
    Follows order { link with toServer, toClient } following := by
  have isOpen := follows.open_of_served (Option.some_ne_none before)
  have sameIn : ∀ read unsent : Bytes,
      read ++ following.elim [] (ServerTask.taken order) ++ (toServer ++ unsent) =
        read ++ before.taken order ++ (link.toServer ++ unsent) := by
    intro read unsent
    rw [← List.append_assoc, List.append_assoc read, receiving]
    simp only [List.append_assoc]
  have sameOut : ∀ returned got : Bytes,
      returned ++ (got ++ toClient) ++ following.elim [] ServerTask.unsent =
        returned ++ (got ++ link.toClient) ++ before.unsent := by
    intro returned got
    simp only [List.append_assoc, sending]
  constructor
  · exact fun _ => isOpen
  · exact follows.accepted
  · exact follows.returned
  · intro _
    simp only [sameIn]
    exact follows.incoming isOpen
  · intro _ running
    simp only [sameIn]
    exact follows.incomingAll isOpen running
  · intro running
    simp only [sameOut]
    exact follows.outgoing running
  · intro _ running
    simp only [sameOut]
    exact follows.outgoingAll isOpen running

theorem Follows.cleanup {before : ServerTask} (follows : Follows order link (some before)) :
    Follows order link.cleanup none := by
  constructor
  · exact fun served => (served rfl).elim
  · exact follows.accepted
  · exact follows.returned
  · exact fun isOpen => nomatch isOpen
  · exact fun isOpen => nomatch isOpen
  · intro running
    refine List.IsPrefix.trans ?_ (follows.outgoing running)
    exact (List.prefix_append_right_inj _).mpr List.nil_prefix
  · exact fun isOpen => nomatch isOpen

theorem Follows.process {message : Message}
    (follows : Follows order link (some (.processing message))) (ack : BitVec 32) :
    Follows order { link with processed := link.processed ++ [(message, ack)] }
      (some (.answering (order.wordBytes ack))) := by
  have isOpen := follows.open_of_served (Option.some_ne_none _)
  have incoming := follows.incoming isOpen
  have incomingAll := follows.incomingAll isOpen
  simp only [Option.elim_some, ServerTask.taken] at incoming incomingAll
  have accepted : Link.accepted { link with processed := link.processed ++ [(message, ack)] } =
      link.accepted ++ [message] := by
    simp [Link.accepted]
  have acks : Link.acks { link with processed := link.processed ++ [(message, ack)] } =
      link.acks ++ [ack] := by
    simp [Link.acks]
  have all : ¬link.client.IsStopped →
      link.returned.flatMap order.wordBytes ++ (link.client.got ++ link.toClient) ++
        order.wordBytes ack = (link.acks ++ [ack]).flatMap order.wordBytes := by
    intro running
    have before := follows.outgoingAll isOpen running
    simp only [Option.elim_some, ServerTask.unsent, List.append_nil] at before
    rw [before]
    simp
  constructor
  · exact fun _ => isOpen
  · rw [accepted]
    exact (Message.prefixCode_bytes order).next follows.accepted incoming
  · rw [acks]
    exact follows.returned.trans (List.prefix_append _ _)
  · intro _
    rw [accepted]
    simpa [ServerTask.taken] using incoming
  · intro _ running
    rw [accepted]
    simpa [ServerTask.taken] using incomingAll running
  · intro running
    rw [acks]
    exact ⟨[], (List.append_nil _).trans (all running)⟩
  · intro _ running
    rw [acks]
    exact all running

theorem Follows.serverNext {event : ServerEvent} {before : ServerTask}
    {following : Option ServerTask} (follows : Follows order link (some before))
    (step : link.serverNext order before event = some (next, following)) :
    Follows order next following := by
  unfold Link.serverNext at step
  split at step
  case h_1 count part got =>
    split_ifs at step
    cases step
    apply follows.served _ _ link.toClient ?_ rfl
    simp only [Option.elim_some, ServerTask.taken, List.append_assoc, List.take_append_drop]
  case h_2 =>
    split_ifs at step
    cases step
    exact follows
  case h_3 part got =>
    split_ifs at step with complete
    cases step
    apply follows.served _ link.toServer link.toClient
    · rw [Option.elim_some, taken_next]
      rfl
    · rw [Option.elim_some, unsent_next]
      rfl
  case h_4 =>
    split_ifs at step
    cases step
    exact follows.cleanup
  case h_5 =>
    split_ifs at step
    cases step
    exact follows.cleanup
  case h_6 message =>
    cases step
    exact follows.process _
  case h_7 count rest =>
    split_ifs at step
    cases step
    apply follows.served _ link.toServer _ rfl
    simp only [Option.elim_some, ServerTask.unsent, List.append_assoc, List.take_append_drop]
  case h_8 =>
    split_ifs at step
    cases step
    exact follows
  case h_9 =>
    cases step
    exact follows.served none _ _ rfl rfl
  case h_10 =>
    split_ifs at step
    cases step
    exact follows.cleanup
  case h_11 => cases step

end Link

end RaspberryPi.Streaming
