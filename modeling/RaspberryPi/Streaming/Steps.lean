import RaspberryPi.Streaming.System

/-! # What a step can do

The steps of the client and of the server one by one, with what they need and where
they lead. -/

namespace RaspberryPi.Streaming

namespace Link

inductive ClientStep (order : ByteOrder) (link : Link) : ClientEvent → Link → Prop
  | frame (frame : Frame) (ready : link.client = .ready) :
      ClientStep order link (.frame frame)
        { link with
          client := .sending [frame.dataType] [order.wordBytes frame.totalsize, frame.buffer]
          sent := link.sent ++ [frame] }
  | noFrame (ready : link.client = .ready) :
      ClientStep order link .noFrame { link with client := .stopped }
  | send (count : Nat) (rest : Bytes) (later : List Bytes)
      (sending : link.client = .sending rest later) (positive : 0 < count)
      (fits : count ≤ rest.length) :
      ClientStep order link (.send count)
        { link with
          client := .sending (rest.drop count) later
          toServer := link.toServer ++ rest.take count }
  | sendAgain : ClientStep order link .sendAgain link
  | nextPart (part : Bytes) (later : List Bytes)
      (sending : link.client = .sending [] (part :: later)) :
      ClientStep order link .sendDone { link with client := .sending part later }
  | lastPart (sending : link.client = .sending [] []) :
      ClientStep order link .sendDone { link with client := .selecting }
  | sendFails (rest : Bytes) (later : List Bytes) (sending : link.client = .sending rest later)
      (unsent : rest ≠ []) :
      ClientStep order link .sendFails { link with client := .stopped }
  | select (selecting : link.client = .selecting) (readable : link.toClient ≠ [] ∨ link.closed) :
      ClientStep order link .select { link with client := .receiving [] }
  | selectFails (selecting : link.client = .selecting) :
      ClientStep order link .selectFails { link with client := .stopped }
  | recv (count : Nat) (got : Bytes) (receiving : link.client = .receiving got)
      (positive : 0 < count) (inside : got.length + count ≤ 4)
      (arrived : count ≤ link.toClient.length) :
      ClientStep order link (.recv count)
        { link with
          client := .receiving (got ++ link.toClient.take count)
          toClient := link.toClient.drop count }
  | recvAgain : ClientStep order link .recvAgain link
  | confirmed (got : Bytes) (receiving : link.client = .receiving got)
      (complete : got.length = 4) (isOne : order.word got = 1) :
      ClientStep order link .recvDone
        { link with client := .ready, returned := link.returned ++ [order.word got] }
  | refused (got : Bytes) (receiving : link.client = .receiving got)
      (complete : got.length = 4) (notOne : order.word got ≠ 1) :
      ClientStep order link .recvDone
        { link with client := .stopped, returned := link.returned ++ [order.word got] }
  | recvFails (got : Bytes) (receiving : link.client = .receiving got) (short : got.length < 4) :
      ClientStep order link .recvFails { link with client := .stopped }

inductive ServerStep (order : ByteOrder) (link : Link) :
    ServerTask → ServerEvent → Link → Option ServerTask → Prop
  | recv (part : Part) (got : Bytes) (count : Nat) (positive : 0 < count)
      (inside : got.length + count ≤ part.length) (arrived : count ≤ link.toServer.length) :
      ServerStep order link (.receiving part got) (.recv count)
        { link with toServer := link.toServer.drop count }
        (some (.receiving part (got ++ link.toServer.take count)))
  | recvAgain (part : Part) (got : Bytes) :
      ServerStep order link (.receiving part got) .recvAgain link (some (.receiving part got))
  | recvDone (part : Part) (got : Bytes) (complete : got.length = part.length) :
      ServerStep order link (.receiving part got) .recvDone link
        (some (part.next order got complete))
  | recvFails (part : Part) (got : Bytes) (short : got.length < part.length) :
      ServerStep order link (.receiving part got) .recvFails link.cleanup none
  | mallocFails (kind : UInt8) (got : Bytes) :
      ServerStep order link (.receiving (.totalsize kind) got) .mallocFails link.cleanup none
  | process (message : Message) (played : Bool) :
      ServerStep order link (.processing message) (.process played)
        { link with
          processed := link.processed ++ [(message, finalAck message.dataType played)] }
        (some (.answering (order.wordBytes (finalAck message.dataType played))))
  | send (rest : Bytes) (count : Nat) (positive : 0 < count) (fits : count ≤ rest.length) :
      ServerStep order link (.answering rest) (.send count)
        { link with toClient := link.toClient ++ rest.take count }
        (some (.answering (rest.drop count)))
  | sendAgain (rest : Bytes) :
      ServerStep order link (.answering rest) .sendAgain link (some (.answering rest))
  | sendDone : ServerStep order link (.answering []) .sendDone link none
  | sendFails (rest : Bytes) (unsent : rest ≠ []) :
      ServerStep order link (.answering rest) .sendFails link.cleanup none

variable {order : ByteOrder} {link next : Link}

theorem clientStep_of_next {event : ClientEvent}
    (step : link.clientNext order event = some next) : link.ClientStep order event next := by
  unfold Link.clientNext at step
  split at step
  case h_1 frame ready =>
    cases step
    exact .frame frame ready
  case h_2 ready =>
    cases step
    exact .noFrame ready
  case h_3 count rest later sending =>
    rcases Option.ite_none_right_eq_some.mp step with ⟨⟨positive, fits⟩, taken⟩
    cases taken
    exact .send count rest later sending positive fits
  case h_4 =>
    rcases Option.ite_none_right_eq_some.mp step with ⟨_, same⟩
    cases same
    exact .sendAgain
  case h_5 part later sending =>
    cases step
    exact .nextPart part later sending
  case h_6 sending =>
    cases step
    exact .lastPart sending
  case h_7 rest later sending =>
    rcases Option.ite_none_right_eq_some.mp step with ⟨unsent, failed⟩
    cases failed
    exact .sendFails rest later sending unsent
  case h_8 selecting =>
    rcases Option.ite_none_right_eq_some.mp step with ⟨readable, selected⟩
    cases selected
    exact .select selecting readable
  case h_9 selecting =>
    cases step
    exact .selectFails selecting
  case h_10 count got receiving =>
    rcases Option.ite_none_right_eq_some.mp step with ⟨⟨positive, inside, arrived⟩, taken⟩
    cases taken
    exact .recv count got receiving positive inside arrived
  case h_11 =>
    rcases Option.ite_none_right_eq_some.mp step with ⟨_, same⟩
    cases same
    exact .recvAgain
  case h_12 got receiving =>
    rcases Option.ite_none_right_eq_some.mp step with ⟨complete, done⟩
    cases done
    by_cases isOne : order.word got = 1
    · rw [if_pos isOne]
      exact .confirmed got receiving complete isOne
    · rw [if_neg isOne]
      exact .refused got receiving complete isOne
  case h_13 got receiving =>
    rcases Option.ite_none_right_eq_some.mp step with ⟨short, failed⟩
    cases failed
    exact .recvFails got receiving short
  case h_14 => cases step

theorem serverStep_of_next {event : ServerEvent} {before : ServerTask}
    {following : Option ServerTask}
    (step : link.serverNext order before event = some (next, following)) :
    link.ServerStep order before event next following := by
  unfold Link.serverNext at step
  split at step
  case h_1 count part got =>
    rcases Option.ite_none_right_eq_some.mp step with ⟨⟨positive, inside, arrived⟩, taken⟩
    cases taken
    exact .recv part got count positive inside arrived
  case h_2 part got =>
    rcases Option.ite_none_right_eq_some.mp step with ⟨_, same⟩
    cases same
    exact .recvAgain part got
  case h_3 part got =>
    split_ifs at step with complete
    cases step
    exact .recvDone part got complete
  case h_4 part got =>
    rcases Option.ite_none_right_eq_some.mp step with ⟨short, failed⟩
    cases failed
    exact .recvFails part got short
  case h_5 kind got =>
    rcases Option.ite_none_right_eq_some.mp step with ⟨_, failed⟩
    cases failed
    exact .mallocFails kind got
  case h_6 played message =>
    cases step
    exact .process message played
  case h_7 count rest =>
    rcases Option.ite_none_right_eq_some.mp step with ⟨⟨positive, fits⟩, taken⟩
    cases taken
    exact .send rest count positive fits
  case h_8 rest =>
    rcases Option.ite_none_right_eq_some.mp step with ⟨_, same⟩
    cases same
    exact .sendAgain rest
  case h_9 =>
    cases step
    exact .sendDone
  case h_10 rest =>
    rcases Option.ite_none_right_eq_some.mp step with ⟨unsent, failed⟩
    cases failed
    exact .sendFails rest unsent
  case h_11 => cases step

theorem ClientStep.processed_eq {event : ClientEvent} (step : link.ClientStep order event next) :
    next.processed = link.processed := by
  cases step <;> rfl

theorem ClientStep.mem_sent {event : ClientEvent} (step : link.ClientStep order event next)
    {frame : Frame} (sent : frame ∈ next.sent) : frame ∈ link.sent ∨ event = .frame frame := by
  cases step with
  | frame begun _ =>
      rcases List.mem_append.mp sent with earlier | latest
      · exact .inl earlier
      · exact .inr (congrArg ClientEvent.frame (List.mem_singleton.mp latest).symm)
  | _ => exact .inl sent

theorem ServerStep.sent_eq {event : ServerEvent} {before : ServerTask}
    {following : Option ServerTask} (step : link.ServerStep order before event next following) :
    next.sent = link.sent := by
  cases step <;> rfl

end Link

namespace System

variable {order : ByteOrder} {system following : System}

theorem Sound.next {event : SystemEvent} (sound : Sound order system)
    (step : system.next order event = some following) : Sound order following := by
  cases event with
  | client connection event => exact sound.client step
  | pick connection => exact sound.pick step
  | server event => exact sound.server step

theorem next_client_eq_some {acting : Nat} {event : ClientEvent} :
    system.next order (.client acting event) = some following ↔
      ∃ link, (system.link acting).clientNext order event = some link ∧
        system.setLink acting link = following :=
  Option.map_eq_some_iff

theorem next_pick_eq_some {acting : Nat} :
    system.next order (.pick acting) = some following ↔
      (system.serving = none ∧ (system.link acting).closed = false ∧
        Readable (system.link acting)) ∧
        { system with serving := some (acting, .receiving .dataType []) } = following := by
  rw [next, Option.ite_none_right_eq_some, Option.some.injEq]

theorem next_server_eq_some {event : ServerEvent} :
    system.next order (.server event) = some following ↔
      ∃ acting task link left, system.serving = some (acting, task) ∧
        (system.link acting).serverNext order task event = some (link, left) ∧
        { system.setLink acting link with serving := left.map (acting, ·) } = following := by
  rw [next]
  cases serving : system.serving with
  | none => simp
  | some served =>
      rcases served with ⟨acting, task⟩
      simp only [Option.map_eq_some_iff, Prod.exists, Option.some.injEq, Prod.mk.injEq]
      constructor
      · intro taken
        rcases taken with ⟨link, left, taken, same⟩
        exact ⟨acting, task, link, left, ⟨rfl, rfl⟩, taken, same⟩
      · intro taken
        rcases taken with ⟨_, _, link, left, ⟨rfl, rfl⟩, taken, same⟩
        exact ⟨link, left, taken, same⟩

theorem mem_sent_next {event : SystemEvent} (step : system.next order event = some following)
    {connection : Nat} {frame : Frame} (sent : frame ∈ (following.link connection).sent) :
    frame ∈ (system.link connection).sent ∨ event = .client connection (.frame frame) := by
  cases event with
  | client acting event =>
      rcases next_client_eq_some.mp step with ⟨link, taken, rfl⟩
      by_cases same : connection = acting
      · subst same
        simp only [setLink, Function.update_self] at sent
        rcases (Link.clientStep_of_next taken).mem_sent sent with earlier | rfl
        · exact .inl earlier
        · exact .inr rfl
      · simp only [setLink, Function.update_of_ne same] at sent
        exact .inl sent
  | pick acting =>
      rcases next_pick_eq_some.mp step with ⟨_, rfl⟩
      exact .inl sent
  | server event =>
      rcases next_server_eq_some.mp step with ⟨acting, task, link, left, _, taken, rfl⟩
      by_cases same : connection = acting
      · subst same
        simp only [setLink, Function.update_self] at sent
        rw [(Link.serverStep_of_next taken).sent_eq] at sent
        exact .inl sent
      · simp only [setLink, Function.update_of_ne same] at sent
        exact .inl sent

end System

end RaspberryPi.Streaming
