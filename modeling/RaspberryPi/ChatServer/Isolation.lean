import RaspberryPi.Foundation.Unwinding
import RaspberryPi.ChatServer.Addressing
import RaspberryPi.ChatServer.Records

/-! # Rooms keep to themselves

Chat lines in other rooms, whispers to others and the listings others ask for
are hidden from a client: a run without them brings it the same bytes, as long as
none of them makes the dispatch fault or writes to a child that has exited. -/

namespace RaspberryPi.ChatServer

open CString

def changesTables (line : Bytes) : Bool :=
  commandWord line = some Word.add || commandWord line = some Word.join ||
    commandWord line = some Word.rm || commandWord line = some Word.leave

def whisperTarget (line after : Bytes) : Option Bytes :=
  firstWord (argumentFrom Word.whisper line after)

namespace Parent

/-- A line of `sender` that writes no table and is neither for the room of
`listener` nor a whisper to it. -/
def Unheard (parent : Parent) (listener : Pid) (sender : PipeInfo) (line after : Bytes) :
    Prop :=
  if line.headD 0 = slash then changesTables line = false
  else sender.name.text ≠ [] ∧ ∀ client ∈ parent.clients, client.pid = listener →
    if line.headD 0 = bang then
      commandWord line = some Word.whisper → whisperTarget line after ≠ some client.name.text
    else sender.roomName.text = [] ∨ client.roomName.text ≠ sender.roomName.text

instance (parent : Parent) (listener : Pid) (sender : PipeInfo) (line after : Bytes) :
    Decidable (parent.Unheard listener sender line after) := by
  unfold Unheard
  infer_instance

variable {parent next : Parent} {listener speaker : Pid} {sender : PipeInfo}
  {line after : Bytes} {deliveries : List Delivery} {index : Nat}

theorem ok_of_map {deliveries : List Delivery} {first : Except Fault (List Delivery)}
    (done : first.map (fun written => (parent, written)) = .ok (next, deliveries)) :
    first = .ok deliveries ∧ next = parent := by
  cases first with
  | error fault => cases done
  | ok written =>
      cases done
      exact ⟨rfl, rfl⟩

theorem dispatchLine_unheard (unheard : parent.Unheard listener sender line after)
    (different : speaker ≠ listener)
    (done : parent.dispatchLine index sender speaker line after = .ok (next, deliveries)) :
    next = parent ∧ ∀ delivery ∈ deliveries, delivery.pid ≠ listener := by
  have notAsker : ∀ delivery : Delivery, (delivery.pid : Int) = speaker →
      delivery.pid ≠ listener := by
    intro delivery asker same
    exact different ((Int.ofNat_inj.mp asker).symm.trans same)
  rw [dispatchLine] at done
  rw [Unheard] at unheard
  by_cases isSlash : line.headD 0 = slash
  · rw [if_pos isSlash] at done unheard
    simp only [changesTables, Bool.or_eq_false_iff, decide_eq_false_iff_not] at unheard
    rcases unheard with ⟨⟨⟨notAdd, notJoin⟩, notRm⟩, notLeave⟩
    rw [commandLine, if_neg notAdd, if_neg notJoin, if_neg notRm] at done
    by_cases isList : commandWord line = some Word.list
    · rw [if_pos isList] at done
      rcases ok_of_map done with ⟨listed, same⟩
      refine ⟨same, fun delivery member => ?_⟩
      rcases reaches_of_listRooms listed delivery member with ⟨client, reaches, asked⟩
      exact notAsker _ (reaches.pid ▸ asked)
    rw [if_neg isList, if_neg notLeave] at done
    by_cases isUsers : commandWord line = some Word.users
    · rw [if_pos isUsers] at done
      cases done
      refine ⟨rfl, fun delivery member => ?_⟩
      rcases reaches_of_listUsers delivery member with ⟨client, reaches, asked⟩
      exact notAsker _ (reaches.pid ▸ asked)
    · rw [if_neg isUsers] at done
      cases done
      simp
  rw [if_neg isSlash] at done unheard
  rcases unheard with ⟨named, unreached⟩
  rw [if_neg named] at done
  by_cases isBang : line.headD 0 = bang
  · simp only [if_pos isBang] at done unreached
    by_cases isWhisper : commandWord line = some Word.whisper
    · rw [if_pos isWhisper] at done
      rcases ok_of_map done with ⟨whispered, same⟩
      refine ⟨same, fun delivery member toListener => ?_⟩
      rcases reaches_of_whisperNamed whispered delivery member with
        ⟨target, reaches, word, _⟩
      exact unreached target reaches.listed (reaches.pid.symm.trans toListener) isWhisper word
    · rw [if_neg isWhisper] at done
      cases done
      simp
  · simp only [if_neg isBang] at done unreached
    cases done
    refine ⟨rfl, fun delivery member toListener => ?_⟩
    rcases reaches_of_broadcastLine delivery member with
      ⟨target, reaches, inRoom, sameRoom, _⟩
    rcases unreached target reaches.listed (reaches.pid.symm.trans toListener) with
      nowhere | otherRoom
    · exact inRoom nowhere
    · exact otherRoom sameRoom

end Parent

namespace Server

def Elsewhere (listener : Pid) (server : Server) : HistoryEvent → Prop
  | .said pid content => pid ≠ listener ∧ ∀ sender ∈ server.parent.clients, sender.pid = pid →
      server.parent.Unheard listener sender (lineOf content) (afterLine content)
  | .joined _ | .exited _ | .left _ => False

instance (listener : Pid) (server : Server) (event : HistoryEvent) :
    Decidable (server.Elsewhere listener event) :=
  match event with
  | .said pid content => inferInstanceAs (Decidable (pid ≠ listener ∧
      ∀ sender ∈ server.parent.clients, sender.pid = pid →
        server.parent.Unheard listener sender (lineOf content) (afterLine content)))
  | .joined _ | .exited _ | .left _ => .isFalse id

def heard (listener : Pid) (server : Server) : HistoryEvent → List Bytes
  | .said pid content =>
      match server.hear pid content with
      | none => []
      | some result => (result.2.filter fun delivery => decide (delivery.pid = listener)).map
          Delivery.bytes
  | .joined _ | .exited _ | .left _ => []

def Alike (server twin : Server) : Prop := ∃ buffer, twin = server.withBuffer buffer

theorem alike_withBuffer {server twin : Server} (buffer : MesgBuffer) (alike : Alike server twin) :
    Alike (server.withBuffer buffer) twin := by
  rcases alike with ⟨other, rfl⟩
  exact ⟨other, rfl⟩

theorem RegistryHolds.withBuffer {before : Finset Fd} {server : Server}
    (holds : RegistryHolds before server) (buffer : MesgBuffer) :
    RegistryHolds before (server.withBuffer buffer) :=
  holds.congr rfl rfl rfl rfl

theorem hear_some {before : Finset Fd} {server next : Server} (holds : RegistryHolds before server)
    {pid : Pid} {content : Bytes} {deliveries : List Delivery}
    (done : server.hear pid content = some (next, deliveries)) :
    IsRecord pid content ∧ ∃ index child parent buffer,
      (server.parent.clients.findIdx? fun client => decide (client.pid = pid)) = some index ∧
      server.parent.clients[index]? = some child ∧ child.pid = pid ∧
      server.parent.dispatchLine index child pid (lineOf content) (afterLine content) =
        .ok (parent, deliveries) ∧
      next = { server with parent := parent.withBuffer buffer } := by
  have isRecord : IsRecord pid content := by
    by_contra other
    rw [hear, if_neg other] at done
    cases done
  cases position : server.parent.clients.findIdx? fun client => decide (client.pid = pid) with
  | none =>
      rw [hear, if_pos isRecord, position] at done
      cases done
  | some index =>
      rcases List.findIdx?_eq_some_iff_getElem.mp position with ⟨inRange, isPid, _⟩
      have here := List.getElem?_eq_getElem inRange
      rcases hear_eq holds isRecord position here with ⟨buffer, heard⟩
      rw [heard] at done
      rcases Option.map_eq_some_iff.mp done with ⟨⟨parent, written⟩, dispatched, equal⟩
      rw [Prod.mk.injEq] at equal
      rcases equal with ⟨rfl, rfl⟩
      refine ⟨isRecord, index, _, parent, buffer, rfl, here, by simpa using isPid, ?_, rfl⟩
      cases outcome : server.parent.dispatchLine index server.parent.clients[index] pid
        (lineOf content) (afterLine content) with
      | error fault =>
          rw [outcome] at dispatched
          cases dispatched
      | ok result =>
          rw [outcome] at dispatched
          cases dispatched
          rfl

theorem hear_withBuffer {before : Finset Fd} {server next : Server}
    (holds : RegistryHolds before server) (buffer : MesgBuffer) {pid : Pid} {content : Bytes}
    {deliveries : List Delivery} (done : server.hear pid content = some (next, deliveries)) :
    ∃ other, (server.withBuffer buffer).hear pid content = some (other, deliveries) ∧
      Alike next other := by
  rcases hear_some holds done with
    ⟨isRecord, index, child, parent, left, position, here, _, dispatched, rfl⟩
  rcases hear_eq (holds.withBuffer buffer) isRecord position here with ⟨later, heard⟩
  have sameDispatch : (server.withBuffer buffer).parent.dispatchLine index child pid
      (lineOf content) (afterLine content) = Parent.outcomeWithBuffer buffer _ :=
    Parent.dispatchLine_withBuffer buffer index child (afterLine content)
  rw [heard, sameDispatch, dispatched]
  exact ⟨_, rfl, later, rfl⟩

theorem hear_elsewhere {before : Finset Fd} {server following : Server} {listener pid : Pid}
    {content : Bytes} {deliveries : List Delivery} (holds : RegistryHolds before server)
    (hidden : server.Elsewhere listener (.said pid content))
    (done : server.hear pid content = some (following, deliveries)) :
    (∀ delivery ∈ deliveries, delivery.pid ≠ listener) ∧
      ∃ buffer, following = server.withBuffer buffer := by
  rcases hear_some holds done with
    ⟨_, index, child, parent, buffer, _, here, samePid, dispatched, equal⟩
  have unheard := hidden.2 child (List.mem_of_getElem? here) samePid
  rcases Parent.dispatchLine_unheard unheard hidden.1 dispatched with ⟨rfl, unaddressed⟩
  exact ⟨unaddressed, buffer, equal⟩

/-- The listener sees neither the buffer nor what goes on elsewhere. -/
theorem unwinds_elsewhere (before : Finset Fd) (listener : Pid) :
    historyMachine.Unwinds (RegistryHolds before) (Elsewhere listener) (heard listener)
      Alike where
  preserved := fun _ _ _ holds step => nextHistory_holds holds step
  hiddenStep := by
    intro server twin event following holds alike hidden step
    cases event with
    | said pid content =>
        rcases said_ok.mp step with ⟨deliveries, done, _⟩
        rcases hear_elsewhere holds hidden done with ⟨unaddressed, buffer, rfl⟩
        constructor
        · simp only [heard, done]
          rw [List.filter_eq_nil_iff.mpr]
          · rfl
          · intro delivery member
            simpa using unaddressed delivery member
        · exact alike_withBuffer buffer alike
    | joined attempt => exact hidden.elim
    | exited pid => exact hidden.elim
    | left reaped => exact hidden.elim
  openStep := by
    intro server twin event following holds alike _ step
    rcases alike with ⟨buffer, rfl⟩
    cases event with
    | said pid content =>
        rcases said_ok.mp step with ⟨deliveries, done, survives⟩
        rcases hear_withBuffer holds buffer done with ⟨other, alsoDone, stays⟩
        refine ⟨other, said_ok.mpr ⟨deliveries, alsoDone, survives⟩, ?_, stays⟩
        simp only [heard, done, alsoDone]
    | joined attempt =>
        have step : (if server.Refuses attempt then none else server.acceptClient attempt) =
          some following := step
        split_ifs at step with refuses
        have alsoRefuses : ¬(server.withBuffer buffer).Refuses attempt := refuses
        have taken : (server.withBuffer buffer).nextHistory (.joined attempt) = _ :=
          (if_neg alsoRefuses).trans (acceptClient_withBuffer buffer server attempt)
        rw [step] at taken
        exact ⟨_, taken, rfl, _, rfl⟩
    | exited pid =>
        have taken := exitChild_withBuffer buffer server pid
        rw [show server.exitChild pid = some following from step] at taken
        exact ⟨_, taken, rfl, _, rfl⟩
    | left reaped =>
        have taken := cleanActiveProcess_withBuffer buffer reaped server
        rw [show server.cleanActiveProcess reaped = some following from step] at taken
        exact ⟨_, taken, rfl, _, rfl⟩

/-- Two runs of complete records, in which no dispatch faults and no write ends the parent,
that agree but for what goes on elsewhere bring the listener the same bytes and leave the
same tables behind, whatever `mesg_buffer` held. -/
theorem isolated_run {firstBuffer secondBuffer : MesgBuffer} {before : Finset Fd}
    {others : Finset Pid} {first second : List HistoryEvent} {firstFinal secondFinal : Server}
    (listener : Pid)
    (firstReached : historyMachine.run (boot firstBuffer before others) first = some firstFinal)
    (secondReached : historyMachine.run (boot secondBuffer before others) second =
      some secondFinal)
    (agree : historyMachine.purge (Elsewhere listener) (boot firstBuffer before others) first =
      historyMachine.purge (Elsewhere listener) (boot secondBuffer before others) second) :
    historyMachine.shown (heard listener) (boot firstBuffer before others) first =
        historyMachine.shown (heard listener) (boot secondBuffer before others) second ∧
      firstFinal.parent.roomInfo = secondFinal.parent.roomInfo ∧
      firstFinal.parent.activeChildren = secondFinal.parent.activeChildren := by
  have bothAlike : Alike (boot secondBuffer before others) (boot firstBuffer before others) :=
    ⟨firstBuffer, rfl⟩
  rcases (unwinds_elsewhere before listener).shown_eq
    (registryHolds_boot firstBuffer before others) (registryHolds_boot secondBuffer before others)
    ⟨firstBuffer, rfl⟩ bothAlike firstReached secondReached agree with
    ⟨same, _, ⟨_, rfl⟩, ⟨_, alsoEnds⟩⟩
  have rooms := congrArg (fun server : Server => server.parent.roomInfo) alsoEnds
  have clients := congrArg (fun server : Server => server.parent.activeChildren) alsoEnds
  exact ⟨same, rooms, clients⟩

deriving instance DecidableEq for AcceptAttempt, HistoryEvent

def twoRooms : List HistoryEvent :=
  [.joined ⟨4, [], some (5, 6), some (7, 8), true, some 100⟩,
    .joined ⟨4, [], some (6, 7), some (9, 10), true, some 101⟩,
    .said 100 (ascii ['a', 'n', 'n']), .said 101 (ascii ['b', 'o', 'b']),
    .said 100 (ascii ['/', 'j', 'o', 'i', 'n', ' ', 'x']),
    .said 101 (ascii ['/', 'j', 'o', 'i', 'n', ' ', 'y'])]

theorem isolated_run_twoRooms :
    historyMachine.shown (heard 100) (boot .zeroed {0, 1, 2, 3} ∅)
        (twoRooms ++ [.said 101 (ascii ['h', 'i']), .said 100 (ascii ['o', 'k'])]) =
      historyMachine.shown (heard 100) (boot .zeroed {0, 1, 2, 3} ∅)
        (twoRooms ++ [.said 100 (ascii ['o', 'k'])]) := by
  have firstReached : historyMachine.run (boot .zeroed {0, 1, 2, 3} ∅)
    (twoRooms ++ [.said 101 (ascii ['h', 'i']), .said 100 (ascii ['o', 'k'])]) = some _ := rfl
  have secondReached : historyMachine.run (boot .zeroed {0, 1, 2, 3} ∅)
    (twoRooms ++ [.said 100 (ascii ['o', 'k'])]) = some _ := rfl
  exact (isolated_run 100 firstReached secondReached (by decide +kernel)).1

end Server

end RaspberryPi.ChatServer
