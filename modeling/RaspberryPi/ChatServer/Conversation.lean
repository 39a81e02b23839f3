import RaspberryPi.ChatServer.Agreement
import RaspberryPi.ChatServer.Exchange

/-! # The conversation in a room

What is said in a room, followed to the sockets of its members: through the
dispatch, the pipes and the loops of the children, in every interleaving. A record
is taken to be from the client it names, whichever pipe it was read from. -/

namespace RaspberryPi.ChatServer

open CString

namespace Exchange

def received (exchange : Exchange) (child : PipeInfo) (count : Nat) : Bytes :=
  (exchange.system.pipes child.pid).chunk count

def saidIn (room : Bytes) (exchange : Exchange) : ExchangeEvent → List Bytes
  | .read index count _ =>
      match exchange.system.server.parent.clients[index]? with
      | none => []
      | some sender =>
          exchange.system.server.saidIn room (.read index (exchange.received sender count))
  | .accept _ | .exit _ | .clean _ | .send _ _ | .child _ _ => []

def addressedTo (pid : Pid) (exchange : Exchange) : ExchangeEvent → List Bytes
  | .read index count _ => textsFor pid (deliveries exchange.system index count)
  | .accept _ | .exit _ | .clean _ | .send _ _ | .child _ _ => []

def privateTo (pid : Pid) (exchange : Exchange) : ExchangeEvent → List Bytes
  | .read index count outcomes =>
      match exchange.system.server.parent.clients[index]? with
      | none => []
      | some sender =>
          if Speaks sender (Server.lineRead (exchange.received sender count)) then []
          else exchange.addressedTo pid (.read index count outcomes)
  | .accept _ | .exit _ | .clean _ | .send _ _ | .child _ _ => []

/-- The text is a whisper to the client, or the answer to a command of a record that names
the client as its sender. -/
def IsPrivate (pid : Pid) (exchange : Exchange) (bytes : Bytes) : ExchangeEvent → Prop
  | .read index count _ => ∃ sender client,
      exchange.system.server.parent.clients[index]? = some sender ∧
      client ∈ exchange.system.server.parent.clients ∧ client.pid = pid ∧
      (exchange.system.server.IsWhisper sender client (exchange.received sender count) bytes ∨
        Server.IsAnswer client (exchange.received sender count))
  | .accept _ | .exit _ | .clean _ | .send _ _ | .child _ _ => False

def hears (pid : Pid) (room : Bytes) (exchange : Exchange) (event : ExchangeEvent) : List Bytes :=
  exchange.saidIn room event ++ exchange.privateTo pid event

variable {buffer : MesgBuffer} {before : Finset Fd} {others : Finset Pid}
  {exchange following final : Exchange} {event : ExchangeEvent} {pid : Pid} {room : Bytes}

/-! ## What is addressed -/

theorem addressed_deliver (exchange : Exchange) (delivery : Delivery) (outcome : WriteOutcome) :
    (exchange.deliver delivery outcome).addressed =
      Function.update exchange.addressed delivery.pid
        (exchange.addressed delivery.pid ++ [delivery.bytes]) := by
  cases outcome with
  | wrote count =>
      simp only [deliver, writeTo]
      split_ifs
      · cases pipeOf _ delivery.fd <;> rfl
      · rfl
  | refused | failed => rfl

theorem addressed_deliverAll (exchange : Exchange) (writes : List (Delivery × WriteOutcome))
    (pid : Pid) : (exchange.deliverAll writes).addressed pid =
      exchange.addressed pid ++ textsFor pid (writes.map Prod.fst) := by
  induction writes generalizing exchange with
  | nil => exact (List.append_nil _).symm
  | cons write rest induction =>
      rw [deliverAll, induction, addressed_deliver, textsFor, textsFor, List.map_cons,
        List.filter_cons]
      by_cases same : write.1.pid = pid
      · subst same
        simp
      · simp [same, Function.update_of_ne (Ne.symm same)]

theorem addressed_forked {attempt : AcceptAttempt} {system : System}
    (registry : exchange.system.server.RegistryHolds before)
    (listed : pid ∈ exchange.system.server.parent.clients.map PipeInfo.pid)
    (step : exchange.system.next (.accept attempt) = some system) :
    (exchange.forked attempt system).addressed pid = exchange.addressed pid := by
  rw [forked]
  cases fork : attempt.fork with
  | none => rfl
  | some other =>
      dsimp only
      split_ifs with refuses
      · rfl
      · have apart : pid ≠ other := by
          rcases Option.map_eq_some_iff.mp step with ⟨server, done, _⟩
          rcases Server.acceptClient_ok done with refused | ⟨_, child, _, fresh, _, same, _⟩
          · exact absurd refused.1 refuses
          · rintro rfl
            obtain rfl : pid = child.pid := Option.some.inj (fork.symm.trans same)
            exact fresh.2.2.1 (registry.pids ▸ listed)
        exact Function.update_of_ne apart _ _

theorem addressed_next (registry : exchange.system.server.RegistryHolds before)
    (listed : pid ∈ exchange.system.server.parent.clients.map PipeInfo.pid)
    (step : exchange.next event = some following) :
    following.addressed pid = exchange.addressed pid ++ exchange.addressedTo pid event := by
  cases event with
  | accept attempt =>
      rcases Option.map_eq_some_iff.mp step with ⟨system, taken, rfl⟩
      rw [addressed_forked registry listed taken]
      exact (List.append_nil _).symm
  | exit other | clean reaped | send other received =>
      rcases Option.map_eq_some_iff.mp step with ⟨system, _, rfl⟩
      exact (List.append_nil _).symm
  | read index count outcomes =>
      simp only [Exchange.next] at step
      split_ifs at step with mayCome
      rcases Option.map_eq_some_iff.mp step with ⟨system, _, rfl⟩
      rw [addressed_deliverAll, addressedTo, List.map_fst_zip mayCome.length_eq.le]
  | child other event =>
      simp only [Exchange.next] at step
      split_ifs at step
      cases step
      exact (List.append_nil _).symm

theorem addressedTo_eq_hears (registry : exchange.system.server.RegistryHolds before)
    (named : room ≠ []) (stays : Server.InRoom pid room exchange.system.server)
    (step : exchange.next event = some following) :
    exchange.addressedTo pid event = exchange.hears pid room event := by
  cases event with
  | accept | exit | clean | send | child => rfl
  | read index count outcomes =>
      simp only [Exchange.next] at step
      split_ifs at step with mayCome
      rcases Option.map_eq_some_iff.mp step with ⟨system, taken, _⟩
      simp only [System.next, System.read] at taken
      cases here : exchange.system.server.parent.clients[index]? with
      | none => simp [here] at taken
      | some sender =>
          simp only [here] at taken
          rcases Option.map_eq_some_iff.mp taken with ⟨⟨server, written⟩, done, _⟩
          have addressed : deliveries exchange.system index count = written := by
            simp only [deliveries, here, done]
          rw [hears, saidIn, privateTo, here]
          dsimp only
          rw [Server.saidIn, here, addressedTo, addressed]
          dsimp only
          by_cases speaks : Speaks sender (Server.lineRead (exchange.received sender count))
          · rw [if_pos speaks, List.append_nil,
              Server.textsFor_of_speaks registry done here speaks named stays]
            simp only [speaks, true_and]
            rfl
          · rw [if_neg speaks, if_neg fun both => speaks both.1]
            rfl

theorem isPrivate_of_mem (registry : exchange.system.server.RegistryHolds before) {bytes : Bytes}
    (member : bytes ∈ exchange.privateTo pid event) : exchange.IsPrivate pid bytes event := by
  cases event with
  | accept | exit | clean | send | child => cases member
  | read index count outcomes =>
      cases here : exchange.system.server.parent.clients[index]? with
      | none => simp [privateTo, here] at member
      | some sender =>
          simp only [privateTo, here, addressedTo] at member
          split_ifs at member with speaks
          · cases member
          rcases List.mem_map.mp member with ⟨delivery, kept, rfl⟩
          rcases List.mem_filter.mp kept with ⟨isDelivery, toPid⟩
          rw [deliveries, here] at isDelivery
          dsimp only at isDelivery
          cases done : exchange.system.server.scanRead index
              ((exchange.system.pipes sender.pid).chunk count) with
          | none => simp [done] at isDelivery
          | some result =>
              rw [done] at isDelivery
              rcases Server.addressed_of_scanRead registry done with
                ⟨child, sameHere, addressed⟩
              obtain rfl : sender = child := Option.some.inj (here.symm.trans sameHere)
              rcases addressed delivery isDelivery with ⟨client, meant⟩
              have isPid : client.pid = pid :=
                meant.reaches.pid.symm.trans (of_decide_eq_true toPid)
              refine ⟨sender, client, here, meant.reaches.listed, isPid, ?_⟩
              rcases meant.meant with chat | other
              · exact absurd ⟨chat.named, chat.plain.1, chat.plain.2⟩ speaks
              · exact other

/-! ## Whole runs -/

theorem next_system (step : exchange.next event = some following) :
    following.system = exchange.system ∨
      ∃ systemEvent, exchange.system.next systemEvent = some following.system := by
  cases event with
  | accept attempt =>
      rcases Option.map_eq_some_iff.mp step with ⟨system, taken, rfl⟩
      have same : (exchange.forked attempt system).system = system := by
        rw [forked]
        cases attempt.fork with
        | none => rfl
        | some pid =>
            dsimp only
            split_ifs <;> rfl
      exact .inr ⟨_, same ▸ taken⟩
  | exit other | clean reaped | send other received =>
      rcases Option.map_eq_some_iff.mp step with ⟨system, taken, rfl⟩
      exact .inr ⟨_, taken⟩
  | read index count outcomes =>
      simp only [Exchange.next] at step
      split_ifs at step
      rcases Option.map_eq_some_iff.mp step with ⟨system, taken, rfl⟩
      refine .inr ⟨.read index count, ?_⟩
      rw [system_deliverAll]
      exact taken
  | child other event =>
      simp only [Exchange.next] at step
      split_ifs at step
      cases step
      exact .inl rfl

theorem next_sound (exchange : Exchange) (event : ExchangeEvent) (following : Exchange)
    (sound : System.Sound before exchange.system) (step : machine.next exchange event =
      some following) : System.Sound before following.system := by
  rcases next_system step with same | ⟨systemEvent, taken⟩
  · rw [same]
    exact sound
  · exact System.next_sound sound taken

theorem addressed_of_stays {events : List ExchangeEvent}
    (sound : System.Sound before exchange.system) (named : room ≠ [])
    (stays : machine.StepsSatisfy
      (fun exchange _ => Server.InRoom pid room exchange.system.server) exchange events)
    (reached : machine.run exchange events = some final) :
    final.addressed pid =
      exchange.addressed pid ++ machine.shown (hears pid room) exchange events := by
  have appends : ∀ (exchange : Exchange) event following,
      System.Sound before exchange.system →
      Server.InRoom pid room exchange.system.server →
      machine.next exchange event = some following →
        following.addressed pid = exchange.addressed pid ++ exchange.hears pid room event := by
    intro exchange event following sound inRoom step
    have registry := sound.registry
    have heard := addressedTo_eq_hears registry named inRoom step
    rcases inRoom with ⟨client, isClient, rfl, _⟩
    rw [addressed_next registry (List.mem_map_of_mem isClient) step, heard]
  exact Machine.shown_logged next_sound appends sound stays reached

/-- In every interleaving: as long as a client stays in a room and every write takes all that
it is given, its socket gets the chat lines of the room, each once and in the order in which
the parent comes to them. What it gets in between are whispers to it and answers to commands
of records that name it. -/
theorem conversation_run {earlier events : List ExchangeEvent}
    (reached : machine.run (boot buffer before others) earlier = some exchange)
    (ran : machine.run exchange events = some final)
    (whole : machine.StepsSatisfy (Allows WritesWhole SocketDelivery.TakesAll)
      (boot buffer before others) (earlier ++ events))
    (named : room ≠ [])
    (stays : machine.StepsSatisfy
      (fun exchange _ => Server.InRoom pid room exchange.system.server) exchange events) :
    (final.outbound pid).socket <+:
        (exchange.addressed pid ++ machine.shown (hears pid room) exchange events).flatten ∧
      ((final.outbound pid).position ≠ .ended →
        stream (final.outbound pid) =
          (exchange.addressed pid ++ machine.shown (hears pid room) exchange events).flatten) ∧
      machine.StepsSatisfy (fun exchange event =>
        ∀ bytes ∈ exchange.privateTo pid event, exchange.IsPrivate pid bytes event)
        exchange events := by
  have sound : System.Sound before exchange.system :=
    Machine.run_invariant next_sound (System.sound_boot buffer before others) reached
  have both := Machine.run_append_eq_some.mpr ⟨exchange, reached, ran⟩
  have complete := kept_complete.run whole both pid
  have isPrivate : machine.StepsSatisfy (fun exchange event =>
      ∀ bytes ∈ exchange.privateTo pid event, exchange.IsPrivate pid bytes event)
      exchange events := by
    have preserved : ∀ (exchange : Exchange) event following,
        System.Sound before exchange.system →
        Server.InRoom pid room exchange.system.server →
        machine.next exchange event = some following → System.Sound before following.system :=
      fun exchange event following sound _ step => next_sound exchange event following sound step
    refine Machine.StepsSatisfy.imp preserved ?_ sound stays
    exact fun _ _ _ sound _ _ _ member => isPrivate_of_mem sound.registry member
  rw [← addressed_of_stays sound named stays ran]
  exact ⟨complete.socket, complete.stream, isPrivate⟩

def bothJoin : List ExchangeEvent :=
  [.accept ⟨4, [], some (5, 6), some (7, 8), true, some 100⟩,
    .accept ⟨4, [], some (6, 7), some (9, 10), true, some 101⟩,
    .send 100 (ascii ['a', 'n', 'n']), .read 0 8191 [],
    .send 101 (ascii ['b', 'o', 'b']), .read 1 8191 [],
    .send 100 (ascii ['/', 'j', 'o', 'i', 'n', ' ', 'x']), .read 0 8191 [],
    .send 101 (ascii ['/', 'j', 'o', 'i', 'n', ' ', 'x']), .read 1 8191 []]

def bobSpeaks : List ExchangeEvent :=
  [.send 101 (ascii ['h', 'i']), .read 1 8191 [.wrote 8, .wrote 8], .child 100 .testSigusr,
    .child 100 .clearSigusr, .child 100 (.read 8), .child 100 (.forward (.wrote 8))]

theorem isSome_bothJoin : (machine.run (boot .zeroed {0, 1, 2, 3} ∅) bothJoin).isSome := by
  decide +kernel

def inOneRoom : Exchange := (machine.run (boot .zeroed {0, 1, 2, 3} ∅) bothJoin).get isSome_bothJoin

theorem isSome_bobSpeaks : (machine.run inOneRoom bobSpeaks).isSome := by
  decide +kernel

theorem conversation_run_bobSpeaks :
    machine.shown (hears 100 (ascii ['x'])) inOneRoom bobSpeaks =
        [chatLine (ascii ['b', 'o', 'b']) (ascii ['h', 'i'])] ∧
      ∃ final, machine.run inOneRoom bobSpeaks = some final ∧
        stream (final.outbound 100) = (inOneRoom.addressed 100 ++
          machine.shown (hears 100 (ascii ['x'])) inOneRoom bobSpeaks).flatten := by
  have reached : machine.run (boot .zeroed {0, 1, 2, 3} ∅) bothJoin = some inOneRoom :=
    (Option.some_get isSome_bothJoin).symm
  have ran := (Option.some_get isSome_bobSpeaks).symm
  have whole : machine.StepsSatisfy (Allows WritesWhole SocketDelivery.TakesAll)
      (boot .zeroed {0, 1, 2, 3} ∅) (bothJoin ++ bobSpeaks) := by
    decide +kernel
  have stays : machine.StepsSatisfy
      (fun exchange _ => Server.InRoom 100 (ascii ['x']) exchange.system.server) inOneRoom
      bobSpeaks := by
    decide +kernel
  have heard := (conversation_run reached ran whole (by decide) stays).2.1 (by decide +kernel)
  exact ⟨by decide +kernel, _, ran, heard⟩

end Exchange

end RaspberryPi.ChatServer
