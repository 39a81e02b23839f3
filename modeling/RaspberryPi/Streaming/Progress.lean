import Mathlib.Algebra.BigOperators.Group.Finset.Basic
import Mathlib.Algebra.GroupWithZero.Nat
import RaspberryPi.Foundation.Progress
import RaspberryPi.Streaming.Steps

/-! # Progress of the streaming server

The server reads a frame to its end before it looks at another socket, and a
client waits for each answer. Still they never wait for each other in a circle:
as long as no call fails, every frame that was begun gets its answer. -/

namespace RaspberryPi.Streaming

namespace ClientTask

def unanswered : ClientTask → Nat
  | ready | stopped => 0
  | sending _ _ | selecting | receiving _ => 1

def rank : ClientTask → Nat
  | sending _ later => later.length + 3
  | selecting => 2
  | receiving _ => 1
  | ready | stopped => 0

end ClientTask

/-- How much of a frame is left to the server, where an idle server counts as five. -/
def ServerTask.work : ServerTask → Nat
  | receiving .dataType _ => 4
  | receiving (.totalsize _) _ => 3
  | receiving (.buffer _ _) _ => 2
  | processing _ => 1
  | answering rest => 2 * rest.length + 6

def serverWork (task : Option ServerTask) : Nat := task.elim 5 ServerTask.work

namespace Link

/-- How much is under way on a connection; a byte counts once for each hand it goes
through. -/
def work (link : Link) : Nat :=
  link.client.rank + 2 * link.client.unsent.length + link.toServer.length +
    20 * (link.sent.length - link.processed.length) + link.toClient.length +
    if link.closed then 0 else 20

/-- Steps of the client that wait for nothing else; a call fails only when the server
has closed the connection. -/
def ClientDue (link : Link) : ClientEvent → Prop
  | .send _ | .sendDone | .select | .recv _ | .recvDone => True
  | .sendFails | .recvFails => link.closed = true
  | .frame _ | .noFrame | .sendAgain | .selectFails | .recvAgain => False

def ServerDue (link : Link) : ServerEvent → Prop
  | .recv _ | .recvDone | .process _ | .send _ | .sendDone => True
  | .recvFails | .sendFails => link.client.IsStopped
  | .recvAgain | .mallocFails | .sendAgain => False

structure InStep (link : Link) (task : Option ServerTask) : Prop where
  counted : ¬link.client.IsStopped →
    link.returned.length + link.client.unanswered = link.sent.length
  gotFits : link.client.got.length ≤ 4
  partFits : ∀ part got, task = some (.receiving part got) → got.length ≤ part.length
  picked : task = some (.receiving .dataType []) → link.toServer ≠ [] ∨ link.client.IsStopped
  /-- A connection that was closed keeps the client from an answer. -/
  cut : link.closed = true → ¬link.client.IsStopped →
    4 * link.returned.length + link.client.got.length + link.toClient.length <
      4 * link.sent.length

inductive Rests (link : Link) : Prop
  /-- Every frame was processed, once and in order, and the client has every answer. -/
  | answered (ready : link.client = .ready) (isOpen : link.closed = false)
      (processed : link.accepted = link.sent.map Frame.message)
      (returned : link.returned = link.acks) (toServer : link.toServer = [])
      (toClient : link.toClient = [])
  /-- The client has left, and the server has closed its end. -/
  | ended (stopped : link.client = .stopped) (closed : link.closed = true)

variable {order : ByteOrder} {link next : Link} {task : Option ServerTask}

/-! ## The two ends keep in step -/

theorem inStep_connected : InStep connected none where
  counted := fun _ => rfl
  gotFits := Nat.zero_le _
  partFits := fun _ _ receiving => nomatch receiving
  picked := fun receiving => nomatch receiving
  cut := fun closed => nomatch closed

theorem not_clientDue_connected {event : ClientEvent}
    (step : connected.clientNext order event = some next) : ¬connected.ClientDue event := by
  cases event with
  | frame | noFrame => exact id
  | send | sendAgain | sendDone | sendFails | select | selectFails | recv | recvAgain | recvDone |
      recvFails => cases step

theorem length_flatMap_wordBytes (order : ByteOrder) (words : List (BitVec 32)) :
    (words.flatMap order.wordBytes).length = 4 * words.length := by
  induction words with
  | nil => rfl
  | cons word words induction =>
      rw [List.flatMap_cons, List.length_append, order.length_wordBytes, induction,
        List.length_cons]
      omega

theorem length_acks (link : Link) : link.acks.length = link.processed.length :=
  List.length_map _

theorem length_accepted (link : Link) : link.accepted.length = link.processed.length :=
  List.length_map _

theorem Follows.processed_le (follows : Follows order link task) :
    link.processed.length ≤ link.sent.length := by
  have bound := follows.accepted.length_le
  rwa [length_accepted, List.length_map] at bound

theorem Follows.returned_le (follows : Follows order link task) :
    link.returned.length ≤ link.processed.length := by
  have bound := follows.returned.length_le
  rwa [length_acks] at bound

theorem Follows.exists_unprocessed (follows : Follows order link task)
    (isOpen : link.closed = false) (running : ¬link.client.IsStopped) :
    ∃ unprocessed, link.sent.map Frame.message = link.accepted ++ unprocessed ∧
      unprocessed.flatMap (Message.bytes order) =
        task.elim [] (ServerTask.taken order) ++ (link.toServer ++ link.client.unsent) := by
  rcases follows.accepted with ⟨unprocessed, all⟩
  refine ⟨unprocessed, all.symm, ?_⟩
  have bytes := follows.incomingAll isOpen running
  rw [← all, List.flatMap_append, List.append_assoc] at bytes
  exact (List.append_cancel_left bytes).symm

theorem Follows.length_outgoing (follows : Follows order link task)
    (isOpen : link.closed = false) (running : ¬link.client.IsStopped) :
    4 * link.returned.length + (link.client.got.length + link.toClient.length) +
      (task.elim [] ServerTask.unsent).length = 4 * link.processed.length := by
  have bytes := congrArg List.length (follows.outgoingAll isOpen running)
  rwa [List.length_append, List.length_append, List.length_append, length_flatMap_wordBytes,
    length_flatMap_wordBytes, length_acks] at bytes

theorem InStep.processed_lt {part : Part} {got : Bytes}
    (inStep : InStep link (some (.receiving part got)))
    (follows : Follows order link (some (.receiving part got)))
    (running : ¬link.client.IsStopped) : link.processed.length < link.sent.length := by
  have isOpen := follows.open_of_served (Option.some_ne_none _)
  rcases follows.exists_unprocessed isOpen running with ⟨unprocessed, all, bytes⟩
  have lengths := congrArg List.length all
  rw [List.length_map, List.length_append, length_accepted] at lengths
  cases unprocessed with
  | cons message unprocessed =>
      rw [List.length_cons] at lengths
      omega
  | nil =>
      have nothing : part.before order ++ got = [] ∧ link.toServer = [] := by
        rw [List.flatMap_nil] at bytes
        have empty := List.append_eq_nil_iff.mp bytes.symm
        exact ⟨empty.1, (List.append_eq_nil_iff.mp empty.2).1⟩
      rcases nothing with ⟨taken, toServer⟩
      cases part with
      | dataType =>
          obtain rfl : got = [] := taken
          rcases inStep.picked rfl with some_ | stopped
          · exact absurd toServer some_
          · exact absurd stopped running
      | totalsize kind => cases taken
      | buffer kind size => cases taken

theorem inStep_stopped {returned : List (BitVec 32)}
    (partFits : ∀ part got, task = some (.receiving part got) → got.length ≤ part.length) :
    InStep { link with client := .stopped, returned } task where
  counted := fun running => (running trivial).elim
  gotFits := Nat.zero_le _
  partFits := partFits
  picked := fun _ => Or.inr trivial
  cut := fun _ running => (running trivial).elim

theorem InStep.clientNext {event : ClientEvent} (inStep : InStep link task)
    (step : link.clientNext order event = some next) : InStep next task := by
  have same := inStep
  rcases inStep with ⟨counted, gotFits, partFits, picked, cut⟩
  cases clientStep_of_next step with
  | frame frame ready =>
      rw [ready] at counted picked cut
      refine ⟨fun _ => ?_, Nat.zero_le _, partFits, fun receiving => ?_, fun closed _ => ?_⟩
      · have before := counted id
        simp only [ClientTask.unanswered, List.length_append, List.length_singleton] at before ⊢
        omega
      · exact Or.inl ((picked receiving).resolve_right id)
      · have before := cut closed id
        simp only [ClientTask.got, List.length_nil, List.length_append,
          List.length_singleton] at before ⊢
        omega
  | noFrame => exact inStep_stopped partFits
  | send count rest later sending =>
      rw [sending] at counted picked cut
      refine ⟨counted, Nat.zero_le _, partFits, fun receiving => Or.inl ?_, cut⟩
      have some_ := (picked receiving).resolve_right id
      exact fun empty => some_ (List.append_eq_nil_iff.mp empty).1
  | sendAgain => exact same
  | nextPart part later sending =>
      rw [sending] at counted picked cut
      exact ⟨counted, Nat.zero_le _, partFits, picked, cut⟩
  | lastPart sending =>
      rw [sending] at counted picked cut
      exact ⟨counted, Nat.zero_le _, partFits, picked, cut⟩
  | sendFails => exact inStep_stopped partFits
  | select selecting =>
      rw [selecting] at counted picked cut
      exact ⟨counted, Nat.zero_le _, partFits, picked, cut⟩
  | selectFails => exact inStep_stopped partFits
  | recv count got receiving positive inside arrived =>
      rw [receiving] at counted picked cut
      have length : (got ++ link.toClient.take count).length = got.length + count := by
        rw [List.length_append, List.length_take, Nat.min_eq_left arrived]
      refine ⟨counted, length.trans_le inside, partFits, picked, fun closed _ => ?_⟩
      have before := cut closed id
      simp only [ClientTask.got, length, List.length_drop] at before ⊢
      omega
  | recvAgain => exact same
  | confirmed got receiving complete isOne =>
      rw [receiving] at counted picked cut
      refine ⟨fun _ => ?_, Nat.zero_le _, partFits, picked, fun closed _ => ?_⟩
      · have before := counted id
        simp only [ClientTask.unanswered, List.length_append, List.length_singleton] at before ⊢
        omega
      · have before := cut closed id
        simp only [ClientTask.got, List.length_append, List.length_singleton,
          List.length_nil] at before ⊢
        omega
  | refused => exact inStep_stopped partFits
  | recvFails => exact inStep_stopped partFits

/-- The task of a server that is not reading does not matter. -/
theorem InStep.served (inStep : InStep link task) {following : Option ServerTask}
    (isOpen : link.closed = false) (toServer toClient : Bytes)
    (processed : List (Message × BitVec 32))
    (partFits : ∀ part got, following = some (.receiving part got) → got.length ≤ part.length)
    (picked : following = some (.receiving .dataType []) →
      toServer ≠ [] ∨ link.client.IsStopped) :
    InStep { link with toServer, toClient, processed } following where
  counted := inStep.counted
  gotFits := inStep.gotFits
  partFits := partFits
  picked := picked
  cut := fun closed => nomatch isOpen.symm.trans closed

theorem InStep.served_of_ne (inStep : InStep link task) {following : Option ServerTask}
    (isOpen : link.closed = false) (toServer toClient : Bytes)
    (processed : List (Message × BitVec 32))
    (different : ∀ part got, following ≠ some (.receiving part got)) :
    InStep { link with toServer, toClient, processed } following := by
  apply inStep.served isOpen
  · exact fun part got receiving => absurd receiving (different part got)
  · exact fun receiving => absurd receiving (different _ _)

theorem InStep.cleanup {before : ServerTask} (inStep : InStep link (some before))
    (follows : Follows order link (some before))
    (unfinished : before.unsent ≠ [] ∨ ∃ part got, before = .receiving part got) :
    InStep link.cleanup none where
  counted := inStep.counted
  gotFits := inStep.gotFits
  partFits := fun _ _ receiving => nomatch receiving
  picked := fun receiving => nomatch receiving
  cut := by
    intro _ running
    have isOpen := follows.open_of_served (Option.some_ne_none _)
    have outgoing := follows.length_outgoing isOpen running
    have processed := follows.processed_le
    change 4 * link.returned.length + link.client.got.length + link.toClient.length <
      4 * link.sent.length
    rw [Option.elim_some] at outgoing
    rcases unfinished with unsent | ⟨part, got, rfl⟩
    · have some_ := List.length_pos_iff.mpr unsent
      omega
    · have less := inStep.processed_lt follows running
      omega

theorem InStep.serverNext {event : ServerEvent} {before : ServerTask}
    {following : Option ServerTask} (inStep : InStep link (some before))
    (follows : Follows order link (some before))
    (step : link.serverNext order before event = some (next, following)) :
    InStep next following := by
  have isOpen := follows.open_of_served (Option.some_ne_none before)
  cases serverStep_of_next step with
  | recv part got count positive inside arrived =>
      have length : (got ++ link.toServer.take count).length = got.length + count := by
        rw [List.length_append, List.length_take, Nat.min_eq_left arrived]
      apply inStep.served isOpen
      · intro other read same
        cases same
        exact length.trans_le inside
      · intro same
        have none : got ++ link.toServer.take count = [] :=
          (ServerTask.receiving.inj (Option.some.inj same)).2
        rw [none, List.length_nil] at length
        omega
  | recvAgain => exact inStep
  | recvDone part got complete =>
      apply inStep.served isOpen
      · intro other read same
        cases part <;> cases same <;> exact Nat.zero_le _
      · intro same
        cases part <;> cases same
  | recvFails => exact inStep.cleanup follows (Or.inr ⟨_, _, rfl⟩)
  | mallocFails => exact inStep.cleanup follows (Or.inr ⟨_, _, rfl⟩)
  | process => exact inStep.served_of_ne isOpen _ _ _ (by simp)
  | send => exact inStep.served_of_ne isOpen _ _ _ (by simp)
  | sendAgain => exact inStep
  | sendDone => exact inStep.served_of_ne isOpen _ _ _ (by simp)
  | sendFails rest unsent => exact inStep.cleanup follows (Or.inl unsent)

/-! ## What is left gets less -/

theorem work_clientNext {event : ClientEvent} (due : link.ClientDue event)
    (step : link.clientNext order event = some next) : next.work < link.work := by
  cases clientStep_of_next step with
  | frame | noFrame | sendAgain | selectFails | recvAgain => exact due.elim
  | send count rest later sending positive fits =>
      simp only [work, sending, ClientTask.rank, ClientTask.unsent, List.length_append,
        List.length_drop, List.length_take]
      omega
  | nextPart part later sending =>
      simp only [work, sending, ClientTask.rank, ClientTask.unsent, List.flatten_cons,
        List.length_append, List.length_cons, List.length_nil]
      omega
  | lastPart sending =>
      simp only [work, sending, ClientTask.rank, ClientTask.unsent]
      simp
  | sendFails rest later sending =>
      simp only [work, sending, ClientTask.rank, ClientTask.unsent, List.length_append,
        List.length_nil]
      omega
  | select selecting =>
      simp only [work, selecting, ClientTask.rank, ClientTask.unsent]
      omega
  | recv count got receiving positive inside arrived =>
      simp only [work, receiving, ClientTask.rank, ClientTask.unsent, List.length_drop]
      omega
  | confirmed got receiving | refused got receiving | recvFails got receiving =>
      simp only [work, receiving, ClientTask.rank, ClientTask.unsent]
      omega

theorem work_serverNext {event : ServerEvent} {before : ServerTask}
    {following : Option ServerTask} (follows : Follows order link (some before))
    (due : link.ServerDue event)
    (step : link.serverNext order before event = some (next, following)) :
    next.work + serverWork following < link.work + before.work := by
  have isOpen := follows.open_of_served (Option.some_ne_none before)
  have bound := (follows.serverNext step).processed_le
  cases serverStep_of_next step with
  | recv part got count positive inside arrived =>
      have same : serverWork (some (.receiving part (got ++ link.toServer.take count))) =
          ServerTask.work (.receiving part got) := by
        cases part <;> rfl
      rw [same]
      simp only [work, List.length_drop]
      omega
  | recvAgain | mallocFails | sendAgain => exact due.elim
  | recvDone part got complete =>
      cases part <;> simp [serverWork, Part.next, ServerTask.work]
  | recvFails part got =>
      have reading : 0 < ServerTask.work (.receiving part got) := by
        cases part <;> exact Nat.succ_pos _
      simp only [work, cleanup, serverWork, isOpen, Option.elim_none, if_true, if_false,
        Bool.false_eq_true]
      omega
  | process message played =>
      simp only [List.length_append, List.length_singleton] at bound
      simp only [work, serverWork, Option.elim_some, ServerTask.work, order.length_wordBytes,
        List.length_append, List.length_singleton]
      omega
  | send rest count positive fits =>
      simp only [work, serverWork, Option.elim_some, ServerTask.work, List.length_append,
        List.length_drop, List.length_take]
      omega
  | sendDone => simp [serverWork, ServerTask.work]
  | sendFails rest =>
      simp only [work, cleanup, serverWork, isOpen, Option.elim_none, if_true, if_false,
        Bool.false_eq_true, ServerTask.work]
      omega

/-! ## Something is always left to do -/

theorem exists_clientDue_of_sending {rest : Bytes} {later : List Bytes}
    (sending : link.client = .sending rest later) :
    ∃ event next, link.ClientDue event ∧ link.clientNext order event = some next := by
  cases rest with
  | cons byte rest =>
      have taken : link.clientNext order (.send 1) = some { link with
          client := .sending rest later
          toServer := link.toServer ++ [byte] } := by
        simp [clientNext, sending]
      exact ⟨.send 1, _, trivial, taken⟩
  | nil =>
      cases later with
      | nil =>
          have done : link.clientNext order .sendDone = some { link with
              client := .selecting } := by
            simp [clientNext, sending]
          exact ⟨.sendDone, _, trivial, done⟩
      | cons part later =>
          have done : link.clientNext order .sendDone = some { link with
              client := .sending part later } := by
            simp [clientNext, sending]
          exact ⟨.sendDone, _, trivial, done⟩

theorem taken_ne_bytes {part : Part} {got : Bytes} (less : got.length < part.length)
    (message : Message) : part.before order ++ got ≠ message.bytes order := by
  intro equal
  have lengths := congrArg List.length equal
  cases part with
  | dataType =>
      simp only [Part.length, Part.before, Message.bytes, List.nil_append, List.length_append,
        List.length_cons] at less lengths
      omega
  | totalsize kind =>
      simp only [Part.length, Part.before, Message.bytes, List.length_append, List.length_cons,
        List.length_nil, order.length_wordBytes] at less lengths
      omega
  | buffer kind size =>
      simp only [Part.before, Message.bytes, List.cons_append, List.cons.injEq] at equal
      rcases List.append_inj equal.2 (by simp) with ⟨sameWord, sameBytes⟩
      obtain rfl := order.wordBytes_injective sameWord
      rw [sameBytes, Part.length, message.size] at less
      exact Nat.lt_irrefl _ less

/-- A client whose frame the server is reading is sending the rest of it. -/
theorem InStep.exists_sending {part : Part} {got : Bytes}
    (inStep : InStep link (some (.receiving part got)))
    (follows : Follows order link (some (.receiving part got)))
    (running : ¬link.client.IsStopped) (less : got.length < part.length)
    (nothing : link.toServer = []) : ∃ rest later, link.client = .sending rest later := by
  by_contra notSending
  have isOpen := follows.open_of_served (Option.some_ne_none _)
  have unsent : link.client.unsent = [] := by
    cases client : link.client with
    | sending rest later => exact (notSending ⟨rest, later, client⟩).elim
    | ready | selecting | receiving _ | stopped => rfl
  have unanswered : link.client.unanswered ≤ 1 := by
    cases link.client <;> simp [ClientTask.unanswered]
  rcases follows.exists_unprocessed isOpen running with ⟨unprocessed, all, bytes⟩
  have lengths := congrArg List.length all
  rw [List.length_map, List.length_append, length_accepted] at lengths
  have counted := inStep.counted running
  have returned := follows.returned_le
  have processed := inStep.processed_lt follows running
  have one : unprocessed.length = 1 := by omega
  rcases List.length_eq_one_iff.mp one with ⟨message, rfl⟩
  rw [nothing, unsent, List.flatMap_singleton, List.append_nil, List.append_nil] at bytes
  exact taken_ne_bytes less message bytes.symm

theorem InStep.exists_due_of_served {before : ServerTask} (inStep : InStep link (some before))
    (follows : Follows order link (some before)) :
    (∃ event next following, link.ServerDue event ∧
      link.serverNext order before event = some (next, following)) ∨
      ∃ event next, link.ClientDue event ∧ link.clientNext order event = some next := by
  cases before with
  | processing message => exact Or.inl ⟨.process true, _, _, trivial, rfl⟩
  | answering rest =>
      cases rest with
      | nil => exact Or.inl ⟨.sendDone, _, _, trivial, rfl⟩
      | cons byte rest =>
          have taken : link.serverNext order (.answering (byte :: rest)) (.send 1) =
              some ({ link with toClient := link.toClient ++ [byte] },
                some (.answering rest)) := by
            simp [Link.serverNext]
          exact Or.inl ⟨.send 1, _, _, trivial, taken⟩
  | receiving part got =>
      rcases Nat.eq_or_lt_of_le (inStep.partFits part got rfl) with complete | less
      · have done : link.serverNext order (.receiving part got) .recvDone =
            some (link, some (part.next order got complete)) := by
          simp [Link.serverNext, complete]
        exact Or.inl ⟨.recvDone, _, _, trivial, done⟩
      · by_cases nothing : link.toServer = []
        · by_cases stopped : link.client.IsStopped
          · have fails : link.serverNext order (.receiving part got) .recvFails =
                some (link.cleanup, none) := by
              simp [Link.serverNext, less]
            exact Or.inl ⟨.recvFails, _, _, stopped, fails⟩
          · rcases inStep.exists_sending follows stopped less nothing with
              ⟨rest, later, sending⟩
            exact Or.inr (exists_clientDue_of_sending sending)
        · have taken : link.serverNext order (.receiving part got) (.recv 1) =
              some ({ link with toServer := link.toServer.drop 1 },
                some (.receiving part (got ++ link.toServer.take 1))) := by
            simp only [Link.serverNext]
            exact if_pos ⟨Nat.one_pos, less, List.length_pos_iff.mpr nothing⟩
          exact Or.inl ⟨.recv 1, _, _, trivial, taken⟩

theorem Follows.accepted_eq (follows : Follows order link none) (isOpen : link.closed = false)
    (running : ¬link.client.IsStopped) (nothing : link.toServer = [])
    (unsent : link.client.unsent = []) : link.accepted = link.sent.map Frame.message := by
  rcases follows.exists_unprocessed isOpen running with ⟨unprocessed, all, bytes⟩
  rw [nothing, unsent] at bytes
  cases unprocessed with
  | nil => rw [all, List.append_nil]
  | cons message unprocessed =>
      rw [List.flatMap_cons] at bytes
      cases bytes

/-- A client waits for an answer only while its frame is on the way or the answer is. -/
theorem InStep.toServer_ne_nil (inStep : InStep link none) (follows : Follows order link none)
    (isOpen : link.closed = false) (running : ¬link.client.IsStopped)
    (waits : link.client.unanswered = 1) (unsent : link.client.unsent = [])
    (less : link.client.got.length < 4) (nothing : link.toClient = []) :
    link.toServer ≠ [] := by
  intro empty
  have accepted := congrArg List.length (follows.accepted_eq isOpen running empty unsent)
  have counted := inStep.counted running
  have outgoing := follows.length_outgoing isOpen running
  rw [length_accepted, List.length_map] at accepted
  rw [nothing, Option.elim_none, List.length_nil] at outgoing
  omega

theorem InStep.open_of_ready (inStep : InStep link task) (ready : link.client = .ready) :
    link.closed = false := by
  rcases inStep with ⟨counted, _, _, _, cut⟩
  rw [ready] at counted cut
  cases closed : link.closed with
  | false => rfl
  | true =>
      have less := cut closed id
      have all := counted id
      simp only [ClientTask.got, ClientTask.unanswered, List.length_nil] at less all
      omega

theorem InStep.answered (inStep : InStep link none) (follows : Follows order link none)
    (ready : link.client = .ready) : link.Rests := by
  have isOpen := inStep.open_of_ready ready
  have running : ¬link.client.IsStopped := by
    rw [ready]
    exact id
  have counted := inStep.counted running
  have returned := follows.returned_le
  have processed := follows.processed_le
  have outgoing := follows.length_outgoing isOpen running
  rcases follows.exists_unprocessed isOpen running with ⟨unprocessed, all, bytes⟩
  have lengths := congrArg List.length all
  simp only [ready, ClientTask.unanswered, ClientTask.got, List.length_nil, List.length_map,
    List.length_append, length_accepted, Option.elim_none] at counted outgoing lengths
  have nothing : unprocessed = [] := List.length_eq_zero_iff.mp (by omega)
  have toClient : link.toClient = [] := List.length_eq_zero_iff.mp (by omega)
  rw [nothing, List.append_nil] at all
  rw [nothing, ready] at bytes
  have toServer := (List.append_eq_nil_iff.mp (List.append_eq_nil_iff.mp bytes.symm).2).1
  have acks : link.returned = link.acks := by
    apply follows.returned.eq_of_length
    rw [length_acks]
    omega
  exact .answered ready isOpen all.symm acks toServer toClient

/-- A connection that the server is not at rests, or its client goes on, or `select`
reports it. -/
theorem InStep.exists_due_of_idle (inStep : InStep link none) (follows : Follows order link none) :
    link.Rests ∨
      (∃ event next, link.ClientDue event ∧ link.clientNext order event = some next) ∨
      (link.closed = false ∧ System.Readable link) := by
  have running : ∀ task, link.client = task → ¬task.IsStopped → ¬link.client.IsStopped := by
    rintro task rfl isRunning
    exact isRunning
  cases client : link.client with
  | ready => exact Or.inl (inStep.answered follows client)
  | sending rest later => exact Or.inr (Or.inl (exists_clientDue_of_sending client))
  | stopped =>
      cases closed : link.closed with
      | true => exact Or.inl (.ended client closed)
      | false =>
          refine Or.inr (Or.inr ⟨rfl, Or.inr ?_⟩)
          rw [client]
          trivial
  | selecting =>
      have selects (goesOn : link.toClient ≠ [] ∨ link.closed = true) :
          link.clientNext order .select = some { link with client := .receiving [] } := by
        simp [Link.clientNext, client, goesOn]
      by_cases goesOn : link.toClient ≠ [] ∨ link.closed = true
      · exact Or.inr (Or.inl ⟨.select, _, trivial, selects goesOn⟩)
      · rcases not_or.mp goesOn with ⟨nothing, open_⟩
        have isOpen := Bool.eq_false_of_not_eq_true open_
        refine Or.inr (Or.inr ⟨isOpen, Or.inl ?_⟩)
        apply inStep.toServer_ne_nil follows isOpen (running _ client id)
        · rw [client, ClientTask.unanswered]
        · rw [client, ClientTask.unsent]
        · rw [client]
          exact Nat.succ_pos 3
        · exact not_not.mp nothing
  | receiving got =>
      have gotFits := inStep.gotFits
      rw [client, ClientTask.got] at gotFits
      rcases Nat.eq_or_lt_of_le gotFits with complete | less
      · have done : link.clientNext order .recvDone = some { link with
            client := if order.word got = 1 then .ready else .stopped
            returned := link.returned ++ [order.word got] } := by
          simp [Link.clientNext, client, complete]
        exact Or.inr (Or.inl ⟨.recvDone, _, trivial, done⟩)
      · by_cases nothing : link.toClient = []
        · cases closed : link.closed with
          | true =>
              have fails : link.clientNext order .recvFails = some { link with
                  client := .stopped } := by
                simp [Link.clientNext, client, less]
              exact Or.inr (Or.inl ⟨.recvFails, _, closed, fails⟩)
          | false =>
              refine Or.inr (Or.inr ⟨rfl, Or.inl ?_⟩)
              apply inStep.toServer_ne_nil follows closed (running _ client id)
              · rw [client, ClientTask.unanswered]
              · rw [client, ClientTask.unsent]
              · rw [client]
                exact less
              · exact nothing
        · have taken : link.clientNext order (.recv 1) = some { link with
              client := .receiving (got ++ link.toClient.take 1)
              toClient := link.toClient.drop 1 } := by
            simp only [Link.clientNext, client]
            exact if_pos ⟨Nat.one_pos, less, List.length_pos_iff.mpr nothing⟩
          exact Or.inr (Or.inl ⟨.recv 1, _, trivial, taken⟩)

structure Coupled (order : ByteOrder) (link : Link) (task : Option ServerTask) : Prop where
  follows : link.Follows order task
  inStep : link.InStep task

theorem Coupled.pick (coupled : Coupled order link none) (isOpen : link.closed = false)
    (readable : System.Readable link) :
    Coupled order link (some (.receiving .dataType [])) where
  follows := { coupled.follows with open_of_served := fun _ => isOpen }
  inStep := { coupled.inStep with
    partFits := by
      rintro part got same
      cases same
      exact Nat.zero_le _
    picked := fun _ => readable }

end Link

namespace System

variable {order : ByteOrder} {system following : System}

/-! ## All connections together -/

theorem coupled_next {event : SystemEvent}
    (coupled : ∀ connection, (system.link connection).Coupled order (system.task connection))
    (step : system.next order event = some following) (connection : Nat) :
    (following.link connection).Coupled order (following.task connection) := by
  rcases coupled connection with ⟨follows, inStep⟩
  cases event with
  | client acting event =>
      rcases next_client_eq_some.mp step with ⟨link, taken, rfl⟩
      by_cases same : connection = acting
      · subst same
        simp only [setLink, Function.update_self]
        exact ⟨follows.clientNext taken, inStep.clientNext taken⟩
      · simp only [setLink, Function.update_of_ne same]
        exact ⟨follows, inStep⟩
  | pick acting =>
      rcases next_pick_eq_some.mp step with ⟨⟨idle, isOpen, readable⟩, rfl⟩
      rw [task_of_idle idle connection] at follows inStep
      by_cases same : connection = acting
      · subst same
        rw [task_of_serving rfl]
        exact Link.Coupled.pick ⟨follows, inStep⟩ isOpen readable
      · rw [task_of_other rfl same]
        exact ⟨follows, inStep⟩
  | server event =>
      rcases next_server_eq_some.mp step with ⟨acting, task, link, left, serving, taken, rfl⟩
      by_cases same : connection = acting
      · subst same
        rw [task_of_serving serving] at follows inStep
        simp only [setLink, Function.update_self]
        have kept : link.Coupled order left :=
          ⟨follows.serverNext taken, inStep.serverNext follows taken⟩
        cases left with
        | none => exact kept
        | some left =>
            rw [task_of_serving rfl]
            exact kept
      · rw [task_of_other serving same] at follows inStep
        simp only [setLink, Function.update_of_ne same]
        cases left with
        | none => exact ⟨follows, inStep⟩
        | some left =>
            rw [task_of_other rfl same]
            exact ⟨follows, inStep⟩

def Due (system : System) : SystemEvent → Prop
  | .client connection event => (system.link connection).ClientDue event
  | .pick _ => True
  | .server event => ∀ connection task, system.serving = some (connection, task) →
      (system.link connection).ServerDue event

def work (bound : Nat) (system : System) : Nat :=
  (∑ connection ∈ Finset.range bound, (system.link connection).work) +
    serverWork (system.serving.map Prod.snd)

structure Settled (system : System) : Prop where
  idle : system.serving = none
  rests : ∀ connection, (system.link connection).Rests

structure Winding (order : ByteOrder) (bound : Nat) (system : System) : Prop where
  coupled : ∀ connection, (system.link connection).Coupled order (system.task connection)
  untouched : ∀ connection, bound ≤ connection → system.link connection = .connected
  served : ∀ connection task, system.serving = some (connection, task) → connection < bound

def boundAfter (bound : Nat) : SystemEvent → Nat
  | .client connection _ => max bound (connection + 1)
  | .pick _ | .server _ => bound

theorem winding_start (order : ByteOrder) : Winding order 0 start where
  coupled := fun _ => ⟨Link.follows_connected order, Link.inStep_connected⟩
  untouched := fun _ _ => rfl
  served := fun _ _ serving => nomatch serving

theorem not_readable_connected : ¬Readable .connected := by
  rintro (some_ | stopped)
  · exact some_ rfl
  · exact stopped

theorem Winding.next {bound : Nat} {event : SystemEvent} (winding : Winding order bound system)
    (step : system.next order event = some following) :
    Winding order (boundAfter bound event) following where
  coupled := coupled_next winding.coupled step
  untouched := by
    intro connection outside
    cases event with
    | client acting event =>
        rcases next_client_eq_some.mp step with ⟨link, _, rfl⟩
        have apart : connection ≠ acting := by
          rintro rfl
          exact Nat.not_succ_le_self _ ((Nat.le_max_right _ _).trans outside)
        simp only [setLink, Function.update_of_ne apart]
        exact winding.untouched connection ((Nat.le_max_left _ _).trans outside)
    | pick acting =>
        rcases next_pick_eq_some.mp step with ⟨_, rfl⟩
        exact winding.untouched connection outside
    | server event =>
        rcases next_server_eq_some.mp step with ⟨acting, task, link, left, serving, _, rfl⟩
        have apart : connection ≠ acting := by
          rintro rfl
          exact Nat.not_lt_of_le outside (winding.served connection task serving)
        simp only [setLink, Function.update_of_ne apart]
        exact winding.untouched connection outside
  served := by
    intro connection task serving
    cases event with
    | client acting event =>
        rcases next_client_eq_some.mp step with ⟨link, _, rfl⟩
        exact (winding.served connection task serving).trans_le (Nat.le_max_left _ _)
    | pick acting =>
        rcases next_pick_eq_some.mp step with ⟨⟨_, _, readable⟩, rfl⟩
        cases serving
        by_contra outside
        rw [winding.untouched connection (Nat.le_of_not_lt outside)] at readable
        exact not_readable_connected readable
    | server event =>
        rcases next_server_eq_some.mp step with ⟨acting, before, link, left, was, _, rfl⟩
        cases left with
        | none => cases serving
        | some left =>
            cases serving
            exact winding.served _ before was

theorem Winding.boundAfter_eq {bound : Nat} {event : SystemEvent}
    (winding : Winding order bound system) (due : system.Due event)
    (step : system.next order event = some following) : boundAfter bound event = bound := by
  cases event with
  | pick acting => rfl
  | server event => rfl
  | client acting event =>
      apply Nat.max_eq_left
      by_contra outside
      have untouched := winding.untouched acting (Nat.le_of_lt_succ (Nat.lt_of_not_le outside))
      rcases next_client_eq_some.mp step with ⟨link, taken, _⟩
      have isDue : (system.link acting).ClientDue event := due
      rw [untouched] at taken isDue
      exact Link.not_clientDue_connected taken isDue

theorem work_setLink (system : System) {bound connection : Nat} (inside : connection < bound)
    (link : Link) (serving : Option (Nat × ServerTask)) :
    work bound { system.setLink connection link with serving } +
        ((system.link connection).work + serverWork (system.serving.map Prod.snd)) =
      work bound system + (link.work + serverWork (serving.map Prod.snd)) := by
  have member := Finset.mem_range.mpr inside
  have others : ∑ other ∈ (Finset.range bound).erase connection,
      (Function.update system.link connection link other).work =
        ∑ other ∈ (Finset.range bound).erase connection, (system.link other).work := by
    apply Finset.sum_congr rfl
    intro other isOther
    rw [Function.update_of_ne (Finset.ne_of_mem_erase isOther)]
  have before := Finset.add_sum_erase (Finset.range bound) (fun other =>
    (system.link other).work) member
  have after := Finset.add_sum_erase (Finset.range bound) (fun other =>
    (Function.update system.link connection link other).work) member
  simp only [Function.update_self] at after
  rw [others] at after
  simp only [work, setLink]
  omega

theorem Winding.work_lt {bound : Nat} {event : SystemEvent}
    (winding : Winding order bound system) (due : system.Due event)
    (step : system.next order event = some following) :
    work bound following < work bound system := by
  have inside := winding.boundAfter_eq due step
  cases event with
  | client acting event =>
      rcases next_client_eq_some.mp step with ⟨link, taken, rfl⟩
      have here : acting < bound := max_eq_left_iff.mp inside
      have less := Link.work_clientNext due taken
      have moved := work_setLink system here link system.serving
      change work bound (system.setLink acting link) + _ = _ at moved
      omega
  | pick acting =>
      rcases next_pick_eq_some.mp step with ⟨⟨idle, _, _⟩, rfl⟩
      rw [work, work, idle]
      exact Nat.lt_succ_self _
  | server event =>
      rcases next_server_eq_some.mp step with ⟨acting, task, link, left, serving, taken, rfl⟩
      have follows := (winding.coupled acting).follows
      rw [task_of_serving serving] at follows
      have less := Link.work_serverNext follows (due acting task serving) taken
      have here := winding.served acting task serving
      have moved := work_setLink system here link (left.map (acting, ·))
      rw [serving, Option.map_map] at moved
      change _ + ((system.link acting).work + task.work) =
        _ + (link.work + serverWork (left.map id)) at moved
      rw [Option.map_id, id] at moved
      omega

theorem Winding.moves {bound : Nat} (winding : Winding order bound system)
    (unsettled : ¬system.Settled) :
    ∃ event following, system.Due event ∧ system.next order event = some following := by
  cases serving : system.serving with
  | some served =>
      rcases served with ⟨connection, task⟩
      rcases winding.coupled connection with ⟨follows, inStep⟩
      rw [task_of_serving serving] at follows inStep
      rcases inStep.exists_due_of_served follows with
        ⟨event, link, left, due, taken⟩ | ⟨event, link, due, taken⟩
      · have isDue : system.Due (.server event) := by
          intro other before same
          cases serving.symm.trans same
          exact due
        have step : system.next order (.server event) = some
            { system.setLink connection link with serving := left.map (connection, ·) } :=
          next_server_eq_some.mpr ⟨connection, task, link, left, serving, taken, rfl⟩
        exact ⟨.server event, _, isDue, step⟩
      · exact ⟨.client connection event, _, due, next_client_eq_some.mpr ⟨_, taken, rfl⟩⟩
  | none =>
      have restless : ∃ connection, ¬(system.link connection).Rests := by
        by_contra rests
        exact unsettled ⟨serving, not_exists_not.mp rests⟩
      rcases restless with ⟨connection, restless⟩
      rcases winding.coupled connection with ⟨follows, inStep⟩
      rw [task_of_idle serving] at follows inStep
      rcases inStep.exists_due_of_idle follows with
        rests | ⟨event, link, due, taken⟩ | ⟨isOpen, readable⟩
      · exact absurd rests restless
      · exact ⟨.client connection event, _, due, next_client_eq_some.mpr ⟨_, taken, rfl⟩⟩
      · exact ⟨.pick connection, _, trivial,
          next_pick_eq_some.mpr ⟨⟨serving, isOpen, readable⟩, rfl⟩⟩

theorem windsDown (order : ByteOrder) (bound : Nat) :
    (machine order).WindsDown (Winding order bound) Due (work bound) Settled where
  preserved := by
    intro system event following winding due step
    have next := winding.next step
    rwa [winding.boundAfter_eq due step] at next
  decreases := fun _ _ _ winding due step => winding.work_lt due step
  moves := fun _ winding unsettled => winding.moves unsettled

theorem exists_winding {events : List SystemEvent}
    (reached : (machine order).run start events = some system) :
    ∃ bound, Winding order bound system := by
  apply Machine.run_invariant ?_ ⟨0, winding_start order⟩ reached
  rintro system event following ⟨bound, winding⟩ step
  exact ⟨_, winding.next step⟩

/-- Whatever has happened so far: steps that wait for nothing but their turn come to an
end in every order, and the end is that every frame begun by a client that is still
connected is processed and answered, and every client that has left is closed. -/
theorem settles_run {events : List SystemEvent}
    (reached : (machine order).run start events = some system) :
    ∃ bound,
      (∀ more final, (machine order).StepsSatisfy Due system more →
        (machine order).run system more = some final → more.length ≤ bound ∧
          ((∀ event, final.Due event → final.next order event = none) → final.Settled)) ∧
      ∃ more final, (machine order).StepsSatisfy Due system more ∧
        (machine order).run system more = some final ∧ final.Settled := by
  rcases exists_winding reached with ⟨bound, winding⟩
  refine ⟨work bound system, ?_, (windsDown order bound).exists_settled winding⟩
  intro more final steps run
  rcases (windsDown order bound).length_add_work_le winding steps run with ⟨ends, less⟩
  exact ⟨by omega, (windsDown order bound).settled_of_stuck ends⟩

theorem settles_run_halfway :
    ∃ system more final, (machine .little).run start
        [.client 0 (.frame tick), .client 0 (.send 1), .client 1 (.frame tick),
          .client 1 (.send 1), .client 1 .sendDone, .client 1 .sendFails, .pick 1] =
          some system ∧
      (machine .little).run system more = some final ∧ final.Settled := by
  have reached : (machine .little).run start
      [.client 0 (.frame tick), .client 0 (.send 1), .client 1 (.frame tick),
        .client 1 (.send 1), .client 1 .sendDone, .client 1 .sendFails, .pick 1] =
        some _ := rfl
  rcases settles_run reached with ⟨bound, _, more, final, _, run, settled⟩
  exact ⟨_, more, final, reached, run, settled⟩

end System

end RaspberryPi.Streaming
