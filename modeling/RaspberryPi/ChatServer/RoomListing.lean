import RaspberryPi.Foundation.Pieces
import RaspberryPi.Foundation.Pipe
import RaspberryPi.ChatServer.FaultFree

/-! # The answer to `/list`

The parent writes the name of each room and nothing between them. Neither the pipe nor
the child nor the socket keeps the names apart, so that the client learns where
they end only if it can know that without being told. -/

namespace RaspberryPi.ChatServer

open CString

/-! ## From the parent to the client -/

structure Relay where
  /-- What the parent has still to write. -/
  pending : List Bytes
  pipe : Pipe UInt8
  socket : Pipe UInt8

inductive RelayEvent
  | write
  | forward (count : Nat)

namespace Relay

def start (texts : List Bytes) : Relay := ⟨texts, .empty, .empty⟩

def write (relay : Relay) : Option Relay :=
  match relay.pending with
  | [] => none
  | text :: pending => some { relay with pending, pipe := relay.pipe.write text }

/-- The child reads the pipe once, and writes what it has read to the socket. -/
def forward (relay : Relay) (count : Nat) : Option Relay :=
  if 0 < count ∧ count < bufsiz ∧ count ≤ relay.pipe.unread.length then
    some { relay with
      pipe := relay.pipe.read count
      socket := relay.socket.write (relay.pipe.chunk count) }
  else none

def machine : Machine Relay RelayEvent where
  next relay
    | .write => relay.write
    | .forward count => relay.forward count

def Finished (relay : Relay) : Prop := relay.pending = [] ∧ relay.pipe.unread = []

def delivered (relay : Relay) : Bytes := relay.socket.unread

def Conserves (texts : List Bytes) (relay : Relay) : Prop :=
  relay.delivered ++ relay.pipe.unread ++ relay.pending.flatten = texts.flatten

theorem conserves_start (texts : List Bytes) : Conserves texts (start texts) := rfl

theorem Conserves.next {texts : List Bytes} {relay following : Relay} {event : RelayEvent}
    (conserves : Conserves texts relay) (step : machine.next relay event = some following) :
    Conserves texts following := by
  cases event with
  | write =>
      change relay.write = some following at step
      rw [write] at step
      cases pending : relay.pending with
      | nil =>
          rw [pending] at step
          cases step
      | cons text others =>
          rw [pending] at step
          cases step
          rw [Conserves, pending] at conserves
          rw [Conserves, Pipe.unread_write, ← conserves, List.flatten_cons]
          simp only [delivered, List.append_assoc]
  | forward count =>
      change relay.forward count = some following at step
      rw [forward] at step
      split_ifs at step with readable
      cases step
      rw [Conserves, delivered, Pipe.unread_write, List.append_assoc relay.socket.unread,
        Pipe.chunk_append_unread]
      exact conserves

/-- However the bytes are passed on, the client gets the texts joined. -/
theorem delivered_of_finished {texts : List Bytes} {events : List RelayEvent} {relay : Relay}
    (reached : machine.run (start texts) events = some relay) (finished : relay.Finished) :
    relay.delivered = texts.flatten := by
  have conserves : Conserves texts relay := by
    apply Machine.run_invariant ?_ (conserves_start texts) reached
    exact fun _ _ _ conserves step => conserves.next step
  rw [Conserves, finished.1, finished.2, List.append_nil, List.flatten_nil,
    List.append_nil] at conserves
  exact conserves

theorem exists_run_written (texts : List Bytes) (pipe socket : Pipe UInt8) :
    ∃ events written, machine.run ⟨texts, pipe, socket⟩ events = some ⟨[], written, socket⟩ ∧
      written.unread = pipe.unread ++ texts.flatten := by
  induction texts generalizing pipe with
  | nil => exact ⟨[], pipe, rfl, by rw [List.flatten_nil, List.append_nil]⟩
  | cons text texts induction =>
      rcases induction (pipe.write text) with ⟨events, written, reached, unread⟩
      refine ⟨.write :: events, written, reached, ?_⟩
      rw [unread, Pipe.unread_write, List.append_assoc, List.flatten_cons]

theorem exists_finished {texts : List Bytes} (short : texts.flatten.length < bufsiz) :
    ∃ events relay, machine.run (start texts) events = some relay ∧ relay.Finished := by
  rcases exists_run_written texts .empty .empty with ⟨events, written, reached, unread⟩
  have all : written.unread = texts.flatten := unread
  by_cases nothing : texts.flatten = []
  · exact ⟨events, _, reached, rfl, all.trans nothing⟩
  · have available : 0 < texts.flatten.length := List.length_pos_iff.mpr nothing
    have step : machine.next ⟨[], written, .empty⟩ (.forward texts.flatten.length) =
        some ⟨[], written.read texts.flatten.length,
          Pipe.empty.write (written.chunk texts.flatten.length)⟩ := by
      change forward _ _ = _
      rw [forward, if_pos ⟨available, short, all ▸ Nat.le_refl _⟩]
    refine ⟨events ++ [.forward texts.flatten.length], _,
      Machine.run_snoc_eq_some.mpr ⟨_, reached, step⟩, rfl, ?_⟩
    rw [Pipe.unread_read, all]
    exact List.drop_length

end Relay

/-! ## Requests -/

def listRequest (pid : Pid) : Bytes := formatRecord pid (slash :: Word.list ++ [newline])

/-- A request for a room. The name may have newlines, as the command itself ends at the
first of them. -/
def addRequest (pid : Pid) (name : Bytes) : Bytes :=
  formatRecord pid (slash :: Word.add ++ newline :: name)

namespace Parent

variable {parent : Parent} {index : Nat} {child : PipeInfo} {behind : Bytes}

theorem dispatch_list {fromWho : Int} :
    parent.dispatch index child fromWho (slash :: Word.list ++ 0 :: behind) =
      do return (parent, ← parent.listRooms fromWho) := by
  have command : commandWord (slash :: Word.list) = some Word.list := rfl
  rw [dispatch_slash (by decide) rfl, command_eq (by decide), command, if_neg (by decide),
    if_neg (by decide), if_neg (by decide), if_pos rfl]

theorem dispatch_bareAdd {fromWho : Int} (ends : 0 ∈ behind) :
    parent.dispatch index child fromWho (slash :: Word.add ++ 0 :: behind) =
      .ok (parent.addNamed (text behind), []) := by
  have command : commandWord (slash :: Word.add) = some Word.add := rfl
  rcases exists_eq_text_append ends with ⟨after, split⟩
  have found : (slash :: Word.add ++ 0 :: behind).drop (2 + Word.add.length) =
      text behind ++ 0 :: after := split
  rw [dispatch_slash (by decide) rfl, command_eq (by decide), if_pos command,
    addRoom_eq (zero_notMem_text behind) found]
  rfl

theorem handleMessage_record {content : Bytes} (here : parent.clients[index]? = some child)
    (inRange : (child.pid : Int) ≤ intMax) (nonempty : content ≠ []) (noNul : 0 ∉ content)
    (fits : (formatRecord child.pid content).length < bufsiz) (short : content.length < bufsiz) :
    ∃ behind buffer,
      parent.handleMessage index (formatRecord child.pid content) =
        { parent with mesgBuffer := buffer }.dispatch index child child.pid
          (lineOf content ++ 0 :: behind) ∧
      0 ∈ behind ∧ text behind = afterLine content := by
  have record : formatRecord child.pid content =
      decimal child.pid ++ colon :: content ++ [0] := by
    rw [formatRecord_eq inRange short, text_eq_self noNul]
  have recordNoNul := zero_notMem_record child.pid noNul
  have string : text (formatRecord child.pid content) = decimal child.pid ++ colon :: content := by
    rw [record, text_append_nul [] recordNoNul]
  have found : contentText (text (formatRecord child.pid content)) = content := by
    rw [string, contentText_record]
  have sender : atoi (pidText (text (formatRecord child.pid content))) = child.pid := by
    rw [string, pidText_record, atoi_decimal inRange]
  rcases handleMessage_eq fits here (found.symm ▸ nonempty) with
    ⟨behind, buffer, _, handled, whole⟩
  have rest := whole _ record recordNoNul
  rw [contentText_record] at rest
  rw [found, sender] at handled
  exact ⟨behind, buffer, handled, rest⟩

end Parent

/-! ## What the answer tells -/

namespace Server

variable {before : Finset Fd} {server next : Server} {index : Nat} {client requester : PipeInfo}
  {name : Bytes}

theorem length_formatRecord_lt {pid : Pid} {content : Bytes} (inRange : (pid : Int) ≤ intMax)
    (short : content.length + 12 < bufsiz) : (formatRecord pid content).length < bufsiz := by
  have digits := length_decimal_le inRange
  have shorter : (text content).length ≤ content.length := (List.takeWhile_sublist _).length_le
  rw [formatRecord_eq inRange (by omega)]
  simp only [List.length_append, List.length_cons, List.length_nil]
  omega

theorem scanRead_record (holds : RegistryHolds before server) {content : Bytes}
    (here : server.parent.clients[index]? = some client) (nonempty : content ≠ [])
    (noNul : 0 ∉ content) (short : content.length + 12 < bufsiz) :
    ∃ behind buffer, 0 ∈ behind ∧ text behind = afterLine content ∧
      ∀ parent deliveries,
        Parent.dispatch { server.parent with mesgBuffer := buffer } index client client.pid
            (lineOf content ++ 0 :: behind) = .ok (parent, deliveries) →
          server.scanRead index (formatRecord client.pid content) =
            some ({ server with parent }, deliveries) := by
  have member := List.mem_of_getElem? here
  have inRange := holds.pidInRange member
  have fits := length_formatRecord_lt inRange short
  have received : formatRecord client.pid content ≠ [] := by simp [formatRecord]
  rcases Parent.handleMessage_record here inRange nonempty noNul fits (by omega) with
    ⟨behind, buffer, handled, ends, rest⟩
  refine ⟨behind, buffer, ends, rest, fun parent deliveries dispatched => ?_⟩
  rw [scanRead, here]
  dsimp only
  rw [if_pos ⟨holds.isActive member, received, fits⟩, handled, dispatched]

theorem scanRead_list (holds : RegistryHolds before server)
    (here : server.parent.clients[index]? = some requester) :
    ∃ next, server.scanRead index (listRequest requester.pid) =
      some (next, server.parent.rooms.map fun room =>
        ⟨requester.parentToChildWriteFd, room.name.text, requester.pid⟩) := by
  have nonempty : slash :: Word.list ++ [newline] ≠ [] := by decide
  rcases scanRead_record holds here nonempty (by decide) (by decide) with
    ⟨behind, buffer, _, _, dispatched⟩
  have known : Parent.clientOf { server.parent with mesgBuffer := buffer } requester.pid =
      some requester := holds.clientOf_pid (List.mem_of_getElem? here)
  refine ⟨{ server with parent := { server.parent with mesgBuffer := buffer } },
    dispatched _ _ ?_⟩
  change Parent.dispatch _ _ _ _ (slash :: Word.list ++ 0 :: behind) = _
  rw [Parent.dispatch_list, Parent.listRooms_eq known]
  rfl

theorem next_add (holds : RegistryHolds before server)
    (here : server.parent.clients[index]? = some client)
    (room : server.parent.chat.rooms.length < chatRoom) (noNul : 0 ∉ name)
    (short : name.length ≤ nameSize - 1) :
    ∃ next, machine.next server (.read index (addRequest client.pid name)) = some next ∧
      next.parent.clients = server.parent.clients ∧
      next.parent.chat.rooms = server.parent.chat.rooms ++ [name] := by
  have nonempty : slash :: Word.add ++ newline :: name ≠ [] := List.cons_ne_nil _ _
  have contentNoNul : 0 ∉ slash :: Word.add ++ newline :: name :=
    zero_notMem_joined (by decide) (by decide) noNul
  have length : (slash :: Word.add ++ newline :: name).length + 12 < bufsiz := by
    have command : Word.add.length = 3 := rfl
    have size : nameSize = 32 := rfl
    have buffer : bufsiz = 8192 := rfl
    rw [List.length_append, List.length_cons, List.length_cons]
    omega
  rcases scanRead_record holds here nonempty contentNoNul length with
    ⟨behind, buffer, ends, rest, dispatched⟩
  have isName : text behind = name := rest
  have free : (Parent.rooms { server.parent with mesgBuffer := buffer }).length < chatRoom := by
    rw [Parent.chat, List.length_map] at room
    exact room
  have added : Parent.dispatch { server.parent with mesgBuffer := buffer } index client
      client.pid (slash :: Word.add ++ 0 :: behind) =
        .ok (Parent.addNamed { server.parent with mesgBuffer := buffer } name, []) := by
    rw [Parent.dispatch_bareAdd ends, isName]
  refine ⟨{ server with
    parent := Parent.addNamed { server.parent with mesgBuffer := buffer } name }, ?_, ?_, ?_⟩
  · change (server.scanRead index (formatRecord client.pid _)).map Prod.fst = _
    rw [dispatched _ _ added]
    rfl
  · exact Parent.clients_addNamed _ _
  · change List.map _ (Parent.rooms (Parent.addNamed _ _)) = _
    rw [Parent.rooms_addNamed free, List.map_append, List.map_singleton]
    have kept : (NameField.ofCopy name).text = name := by
      rw [NameField.text_ofCopy noNul]
      exact List.take_of_length_le short
    rw [kept]
    rfl

def textsTo (requester : PipeInfo) (deliveries : List Delivery) : List Bytes :=
  (deliveries.filter fun delivery =>
    decide (delivery.fd = requester.parentToChildWriteFd)).map Delivery.bytes

def ListReply (server : Server) (requester : PipeInfo) (reply : Bytes) : Prop :=
  ∃ index next deliveries events relay,
    server.parent.clients[index]? = some requester ∧
    server.scanRead index (listRequest requester.pid) = some (next, deliveries) ∧
    Relay.machine.run (.start (textsTo requester deliveries)) events = some relay ∧
    relay.Finished ∧ relay.delivered = reply

/-- In no reachable state with another list of rooms does anybody get the same bytes. -/
def ListDecodable (server : Server) (requester : PipeInfo) : Prop :=
  ∀ (buffer : MesgBuffer) (before : Finset Fd) (others : Finset Pid) (events : List Event)
    (other : Server) (asker : PipeInfo),
    machine.run (boot buffer before others) events = some other →
      asker ∈ other.parent.clients → other.parent.chat.rooms ≠ server.parent.chat.rooms →
      ∀ reply answer, server.ListReply requester reply → other.ListReply asker answer →
        answer ≠ reply

theorem textsTo_rooms (server : Server) (requester : PipeInfo) :
    textsTo requester (server.parent.rooms.map fun room =>
      ⟨requester.parentToChildWriteFd, room.name.text, requester.pid⟩) =
        server.parent.chat.rooms := by
  rw [textsTo, List.filter_eq_self.mpr, List.map_map]
  · rfl
  intro delivery member
  rcases List.mem_map.mp member with ⟨room, _, rfl⟩
  exact decide_eq_true rfl

theorem rooms_fit (server : Server) :
    Fits chatRoom (nameSize - 1) server.parent.chat.rooms where
  few := by
    rw [Parent.chat, List.length_map, Parent.rooms, Table.length_entries]
    exact server.parent.roomInfo.countLe
  short := by
    intro name member
    rcases List.mem_map.mp member with ⟨room, _, rfl⟩
    exact Nat.le_sub_one_of_lt room.name.length_text_lt

theorem listReply_iff (holds : RegistryHolds before server)
    (isClient : requester ∈ server.parent.clients) (reply : Bytes) :
    server.ListReply requester reply ↔ reply = server.parent.chat.rooms.flatten := by
  constructor
  · rintro ⟨index, _, deliveries, events, relay, here, read, reached, finished, rfl⟩
    rcases scanRead_list holds here with ⟨_, answered⟩
    rw [answered] at read
    cases read
    rw [textsTo_rooms] at reached
    exact Relay.delivered_of_finished reached finished
  · rintro rfl
    rcases List.getElem?_of_mem isClient with ⟨index, here⟩
    rcases scanRead_list holds here with ⟨next, answered⟩
    have short : server.parent.chat.rooms.flatten.length < bufsiz :=
      Nat.lt_of_le_of_lt server.rooms_fit.length_flatten_le (by decide)
    rcases Relay.exists_finished short with ⟨events, relay, reached, finished⟩
    refine ⟨index, next, _, events, relay, here, answered, ?_, finished, ?_⟩
    · rw [textsTo_rooms]
      exact reached
    · exact Relay.delivered_of_finished reached finished

/-- Every list of rooms that fits can be asked for, by a single client. -/
theorem exists_run_rooms {names : List Bytes} (fits : Fits chatRoom (nameSize - 1) names)
    (noNul : ∀ name ∈ names, 0 ∉ name) :
    ∃ events server client, machine.run (boot .zeroed {0, 1, 2, 3} ∅) events = some server ∧
      server.parent.clients[0]? = some client ∧ server.parent.chat.rooms = names := by
  induction names using List.reverseRecOn with
  | nil =>
      have reached : machine.run (boot .zeroed {0, 1, 2, 3} ∅)
        [.accept ⟨4, [], some (5, 6), some (7, 8), true, some 100⟩] = some _ := rfl
      exact ⟨_, _, _, reached, rfl, rfl⟩
  | append_singleton names name induction =>
      have few := fits.few
      rw [List.length_append, List.length_singleton] at few
      have earlier : Fits chatRoom (nameSize - 1) names :=
        ⟨Nat.le_of_succ_le few, fun other member =>
          fits.short other (List.mem_append_left _ member)⟩
      rcases induction earlier (fun other member => noNul other (List.mem_append_left _ member))
        with ⟨events, server, client, reached, here, rooms⟩
      have last : name ∈ names ++ [name] := List.mem_append_right _ List.mem_cons_self
      rcases next_add (registryHolds_run reached) here (rooms ▸ few) (noNul name last)
        (fits.short name last) with ⟨next, step, clients, added⟩
      refine ⟨events ++ [.read 0 (addRequest client.pid name)], next, client,
        Machine.run_snoc_eq_some.mpr ⟨server, reached, step⟩, ?_, ?_⟩
      · rw [clients, here]
      · rw [added, rooms]

theorem listDecodable_iff_full (holds : RegistryHolds before server)
    (isClient : requester ∈ server.parent.clients) :
    server.ListDecodable requester ↔
      server.parent.chat.rooms.length = chatRoom ∧
        ∀ name ∈ server.parent.chat.rooms, name.length = nameSize - 1 := by
  constructor
  · intro decodable
    by_contra notFull
    rcases server.rooms_fit.exists_recut (by decide) notFull with ⟨names, fits, same, different⟩
    have noNul : ∀ name ∈ names, 0 ∉ name := by
      intro name member isNul
      have inReply : 0 ∈ server.parent.chat.rooms.flatten :=
        same ▸ List.mem_flatten_of_mem member isNul
      rcases List.mem_flatten.mp inReply with ⟨text, isName, inText⟩
      rcases List.mem_map.mp isName with ⟨room, _, rfl⟩
      exact zero_notMem_text _ inText
    rcases exists_run_rooms fits noNul with ⟨events, other, asker, reached, here, rooms⟩
    have isAsker := List.mem_of_getElem? here
    have joined : server.parent.chat.rooms.flatten = other.parent.chat.rooms.flatten := by
      rw [rooms, same]
    exact decodable _ _ _ _ other asker reached isAsker (rooms ▸ different) _ _
      ((listReply_iff holds isClient _).mpr rfl)
      ((listReply_iff (registryHolds_run reached) isAsker _).mpr joined) rfl
  · rintro ⟨count, full⟩ buffer elsewhere others events other asker reached isAsker different
      reply answer replied answered equal
    rw [listReply_iff holds isClient] at replied
    rw [listReply_iff (registryHolds_run reached) isAsker] at answered
    apply different
    apply Fits.eq_of_full (by decide) (count ▸ other.rooms_fit) full
    rw [← answered, ← replied, equal]

/-- The answer tells the list of rooms exactly if there are four, each with a name of 31
bytes, so that nothing has room anywhere else. -/
theorem listDecodable_iff {buffer : MesgBuffer} {others : Finset Pid} {events : List Event}
    (reached : machine.run (boot buffer before others) events = some server)
    (isClient : requester ∈ server.parent.clients) :
    server.ListDecodable requester ↔
      server.parent.chat.rooms.length = chatRoom ∧
        ∀ name ∈ server.parent.chat.rooms, name.length = nameSize - 1 :=
  listDecodable_iff_full (registryHolds_run reached) isClient

def roomAb : List Event :=
  [.accept ⟨4, [], some (5, 6), some (7, 8), true, some 100⟩,
    .read 0 (ascii ['1', '0', '0', ':', '/', 'a', 'd', 'd', ' ', 'a', 'b', '\n'] ++ [0])]

def roomsAAndB : List Event :=
  [.accept ⟨4, [], some (5, 6), some (7, 8), true, some 100⟩,
    .read 0 (ascii ['1', '0', '0', ':', '/', 'a', 'd', 'd', ' ', 'a', '\n'] ++ [0]),
    .read 0 (ascii ['1', '0', '0', ':', '/', 'a', 'd', 'd', ' ', 'b', '\n'] ++ [0])]

theorem listDecodable_iff_roomAb :
    ∃ server requester, machine.run (boot .zeroed {0, 1, 2, 3} ∅) roomAb = some server ∧
      (server.ListDecodable requester ↔
        server.parent.chat.rooms.length = chatRoom ∧
          ∀ name ∈ server.parent.chat.rooms, name.length = nameSize - 1) := by
  have reached : machine.run (boot .zeroed {0, 1, 2, 3} ∅) roomAb = some _ := rfl
  exact ⟨_, _, reached, listDecodable_iff reached List.mem_cons_self⟩

theorem not_listDecodable_roomAb :
    ∃ server requester, machine.run (boot .zeroed {0, 1, 2, 3} ∅) roomAb = some server ∧
      requester ∈ server.parent.clients ∧ ¬server.ListDecodable requester := by
  have reached : machine.run (boot .zeroed {0, 1, 2, 3} ∅) roomAb = some _ := rfl
  have otherReached : machine.run (boot .zeroed {0, 1, 2, 3} ∅) roomsAAndB = some _ := rfl
  refine ⟨_, _, reached, List.mem_cons_self, fun decodable => ?_⟩
  have replied := listReply_iff (registryHolds_run reached) List.mem_cons_self
    (ascii ['a', 'b'])
  have answered := listReply_iff (registryHolds_run otherReached) List.mem_cons_self
    (ascii ['a', 'b'])
  exact decodable _ _ _ _ _ _ otherReached List.mem_cons_self (by decide) _ _
    (replied.mpr (by decide)) (answered.mpr (by decide)) rfl

end Server

end RaspberryPi.ChatServer
