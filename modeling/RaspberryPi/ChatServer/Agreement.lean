import RaspberryPi.Foundation.Unwinding
import RaspberryPi.ChatServer.Addressing

/-! # The members of a room agree

A client that stays in a room is written exactly the chat lines of that room, each
once and in the order in which the parent comes to them. So any two such clients
are written the same. -/

namespace RaspberryPi.ChatServer

open CString

theorem Parent.dispatch_speaks {parent after : Parent} {index : Nat} {sender : PipeInfo}
    {fromWho : Int} {line behind : Bytes} {deliveries : List Delivery} (noNul : 0 ∉ line)
    (fits : line.length < bufsiz) (active : ∀ client ∈ parent.clients, client.isActive = true)
    (speaks : Speaks sender line)
    (done : parent.dispatch index sender fromWho (line ++ 0 :: behind) =
      .ok (after, deliveries)) :
    deliveries = parent.roomWrites sender line := by
  rw [dispatch_eq noNul, if_neg speaks.noSlash, if_neg speaks.named, if_neg speaks.noBang]
    at done
  cases done
  have written : parent.broadcast sender (line ++ 0 :: behind) =
      .ok (parent.broadcastLine sender line) := broadcast_eq noNul
  exact Except.ok.inj (written.symm.trans (broadcast_chatLine behind noNul fits active))

def textsFor (pid : Pid) (deliveries : List Delivery) : List Bytes :=
  (deliveries.filter fun delivery => decide (delivery.pid = pid)).map Delivery.bytes

namespace Server

def chatTo (pid : Pid) (server : Server) : Event → List Bytes
  | .read index received =>
      match server.parent.clients[index]?, server.scanRead index received with
      | some sender, some (_, deliveries) =>
          if Speaks sender (lineRead received) then textsFor pid (server.written deliveries)
          else []
      | _, _ => []
  | .accept _ | .exit _ | .clean _ => []

def saidIn (room : Bytes) (server : Server) : Event → List Bytes
  | .read index received =>
      match server.parent.clients[index]? with
      | none => []
      | some sender =>
          if Speaks sender (lineRead received) ∧ sender.roomName.text = room then
            [chatLine sender.name.text (lineRead received)]
          else []
  | .accept _ | .exit _ | .clean _ => []

def InRoom (pid : Pid) (room : Bytes) (server : Server) : Prop :=
  ∃ client ∈ server.parent.clients, client.pid = pid ∧ client.roomName.text = room

theorem length_lineRead_lt {received : Bytes} (fits : received.length < bufsiz) :
    (lineRead received).length < bufsiz := by
  have shorter : (lineRead received).length ≤ received.length :=
    ((List.takeWhile_sublist _).trans ((List.tail_sublist _).trans
      ((List.dropWhile_sublist _).trans ((List.dropWhile_sublist _).trans
        (List.takeWhile_sublist _))))).length_le
  omega

variable {before : Finset Fd} {server next : Server} {pid : Pid} {room : Bytes}

theorem textsFor_roomWrites {client : PipeInfo} (sender : PipeInfo) (line : Bytes)
    (holds : RegistryHolds before server) (isClient : client ∈ server.parent.clients)
    (named : client.roomName.text ≠ []) :
    textsFor client.pid (server.parent.roomWrites sender line) =
      if sender.roomName.text = client.roomName.text then [chatLine sender.name.text line]
      else [] := by
  have alone := filter_key_eq_singleton holds.distinct isClient
  rw [textsFor, Parent.roomWrites]
  by_cases nowhere : sender.roomName.text = []
  · rw [if_pos nowhere, if_neg fun same => named (same.symm.trans nowhere)]
    rfl
  · have mine : ∀ clients : List PipeInfo, (clients.filter ((fun delivery : Delivery =>
        decide (delivery.pid = client.pid)) ∘ fun other : PipeInfo =>
          (⟨other.parentToChildWriteFd, chatLine sender.name.text line, other.pid⟩ : Delivery))) =
        clients.filter fun other => decide (other.pid = client.pid) := fun _ => rfl
    rw [if_neg nowhere, List.filter_map, mine, List.filter_comm, alone, List.filter_cons]
    by_cases sameRoom : client.roomName.text = sender.roomName.text
    · rw [if_pos (by simpa using sameRoom), if_pos sameRoom.symm]
      rfl
    · rw [if_neg (by simpa using sameRoom), if_neg (Ne.symm sameRoom)]
      rfl

theorem textsFor_of_speaks {index : Nat} {received : Bytes} {deliveries : List Delivery}
    {sender : PipeInfo} (holds : RegistryHolds before server)
    (done : server.scanRead index received = some (next, deliveries))
    (here : server.parent.clients[index]? = some sender)
    (speaks : Speaks sender (lineRead received)) (named : room ≠ [])
    (inRoom : InRoom pid room server) :
    textsFor pid deliveries =
      if sender.roomName.text = room then [chatLine sender.name.text (lineRead received)]
      else [] := by
  rcases inRoom with ⟨client, isClient, rfl, rfl⟩
  rcases scanRead_ok done with ⟨_, fits, handled, _⟩
  rcases Parent.handleMessage_ok fits handled with
    ⟨child, behind, buffer, sameHere, _, _, dispatched, _⟩
  rw [here, Option.some.injEq] at sameHere
  subst sameHere
  have active : ∀ other ∈ { server.parent with mesgBuffer := buffer }.clients,
    other.isActive = true := fun _ => holds.isActive
  have sameWrites : { server.parent with mesgBuffer := buffer }.roomWrites sender
    (lineRead received) = server.parent.roomWrites sender (lineRead received) := rfl
  rw [Parent.dispatch_speaks (zero_notMem_lineRead received) (length_lineRead_lt fits) active
    speaks dispatched, sameWrites]
  exact textsFor_roomWrites sender (lineRead received) holds isClient named

theorem chatTo_eq_saidIn {event : Event} (holds : RegistryHolds before server)
    (named : room ≠ []) (stays : InRoom pid room server) (lives : server.LivesThrough event)
    (step : server.next event = some next) :
    server.chatTo pid event = server.saidIn room event := by
  cases event with
  | accept attempt => rfl
  | exit child => rfl
  | clean reaped => rfl
  | read index received =>
      rcases Option.map_eq_some_iff.mp step with ⟨⟨_, deliveries⟩, done, _⟩
      rcases scanRead_ok done with ⟨_, fits, handled, _⟩
      rcases Parent.handleMessage_ok fits handled with ⟨sender, _, _, here, _⟩
      have survives : server.Survives deliveries := lives _ done
      rw [chatTo, saidIn, here, done]
      dsimp only
      by_cases speaks : Speaks sender (lineRead received)
      · rw [if_pos speaks, written_eq survives,
          textsFor_of_speaks holds done here speaks named stays]
        simp only [speaks, true_and]
      · rw [if_neg speaks, if_neg fun both => speaks both.1]

/-- As long as a client stays in a room and no write ends the parent, the client is written
what is said there, line by line; and whoever else stays there is written the same. -/
theorem hears_run {buffer : MesgBuffer} {before : Finset Fd} {others : Finset Pid}
    {earlier events : List Event} {server : Server}
    (reached : machine.run (boot buffer before others) earlier = some server)
    (named : room ≠ [])
    (stays : machine.StepsSatisfy
      (fun server event => InRoom pid room server ∧ server.LivesThrough event) server events) :
    machine.shown (chatTo pid) server events = machine.shown (saidIn room) server events := by
  have preserved : ∀ server event next, RegistryHolds before server →
    machine.next server event = some next → RegistryHolds before next :=
    fun _ _ _ holds step => next_holds holds step
  refine Machine.shown_congr preserved ?_ (registryHolds_run reached) stays
  intro server event next holds stays step
  exact chatTo_eq_saidIn holds named stays.1 stays.2 step

instance (pid : Pid) (room : Bytes) (server : Server) : Decidable (InRoom pid room server) :=
  List.decidableBEx _ _

theorem hears_run_oneRoomForTwo :
    ∃ server, machine.run (boot .zeroed {0, 1, 2, 3} ∅) oneRoomForTwo = some server ∧
      machine.shown (chatTo 100) server
        [.read 1 (ascii ['1', '0', '1', ':', 'b', 'o', 'b'] ++ [0]),
          .read 0 (ascii ['1', '0', '0', ':', 'h', 'i'] ++ [0])] =
        machine.shown (saidIn (ascii ['x'])) server
          [.read 1 (ascii ['1', '0', '1', ':', 'b', 'o', 'b'] ++ [0]),
            .read 0 (ascii ['1', '0', '0', ':', 'h', 'i'] ++ [0])] := by
  have reached : machine.run (boot .zeroed {0, 1, 2, 3} ∅) oneRoomForTwo = some _ := rfl
  refine ⟨_, reached, hears_run reached (by decide) ?_⟩
  decide +kernel

end Server

end RaspberryPi.ChatServer
