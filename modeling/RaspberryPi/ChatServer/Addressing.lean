import RaspberryPi.ChatServer.Malformed
import RaspberryPi.ChatServer.Whisper

/-! # Who is written to

Every write of the parent goes to the open pipe of a child that it has not waited
for, and so does the signal behind it. That child is in the room of a chat line, is
named by a whisper or has asked. This is said of dispatches that do not fault, and a
line with the argument its branch looks for is dispatched without a fault. -/

namespace RaspberryPi.ChatServer

open CString

def firstWord (argument : Bytes) : Option Bytes :=
  (strtok (argument ++ [0]) [space]).1.map text

namespace Parent

variable {parent next : Parent} {sender : PipeInfo} {line : Bytes} {fromWho : Int}
  {deliveries : List Delivery}

structure Reaches (parent : Parent) (delivery : Delivery) (client : PipeInfo) : Prop where
  listed : client ∈ parent.clients
  pid : delivery.pid = client.pid
  fd : delivery.fd = client.parentToChildWriteFd

theorem clientOf_ok {client : PipeInfo} (known : parent.clientOf fromWho = some client) :
    client ∈ parent.clients ∧ (client.pid : Int) = fromWho := by
  rw [clientOf] at known
  have isAsker := List.find?_some known
  exact ⟨List.mem_of_find?_eq_some known, beq_iff_eq.mp isAsker⟩

theorem reaches_of_listRooms (listed : parent.listRooms fromWho = .ok deliveries) :
    ∀ delivery ∈ deliveries, ∃ client, parent.Reaches delivery client ∧
      (client.pid : Int) = fromWho := by
  rw [listRooms] at listed
  by_cases none : parent.rooms = []
  · rw [if_pos none] at listed
    cases listed
    simp
  rw [if_neg none] at listed
  cases known : parent.clientOf fromWho with
  | none =>
      rw [known] at listed
      cases listed
  | some client =>
      rw [known] at listed
      cases listed
      rcases clientOf_ok known with ⟨isClient, isAsker⟩
      intro delivery member
      rcases List.mem_map.mp member with ⟨room, _, rfl⟩
      exact ⟨client, ⟨isClient, rfl, rfl⟩, isAsker⟩

theorem reaches_of_listUsers : ∀ delivery ∈ parent.listUsers fromWho,
    ∃ client, parent.Reaches delivery client ∧ (client.pid : Int) = fromWho := by
  intro delivery member
  rw [listUsers] at member
  cases known : parent.clientOf fromWho with
  | none =>
      rw [known] at member
      cases member
  | some client =>
      rw [known] at member
      rcases clientOf_ok known with ⟨isClient, isAsker⟩
      rcases List.mem_map.mp member with ⟨other, _, rfl⟩
      exact ⟨client, ⟨isClient, rfl, rfl⟩, isAsker⟩

theorem reaches_of_whisperNamed {origin : Bytes}
    (whispered : parent.whisperNamed fromWho origin = .ok deliveries) :
    ∀ delivery ∈ deliveries, ∃ target, parent.Reaches delivery target ∧
      firstWord origin = some target.name.text ∧
      ∃ author ∈ parent.clients, (author.pid : Int) = fromWho ∧
        ∃ mesg, delivery.bytes = whisperMessage author mesg := by
  intro delivery member
  rw [whisperNamed] at whispered
  cases token : (strtok (origin ++ [0]) [space]).1 with
  | none =>
      simp only [token] at whispered
      cases whispered
  | some userName =>
      simp only [token] at whispered
      cases known : parent.clientOf fromWho with
      | none =>
          simp only [known] at whispered
          cases whispered
          cases member
      | some author =>
          simp only [known] at whispered
          cases found : parent.clients.find? fun client => client.name.Matches userName with
          | none =>
              simp only [found] at whispered
              cases whispered
              cases member
          | some target =>
              simp only [found] at whispered
              cases whispered
              have accepted := List.find?_some found
              have isMatch : strcmp target.name.bytes userName = some true :=
                of_decide_eq_true accepted
              have same := eq_of_strcmp target.name.terminated isMatch
              have sameText : target.name.text = text userName := of_decide_eq_true same.symm
              have word : firstWord origin = some target.name.text := by
                rw [firstWord, token, sameText]
                rfl
              rcases clientOf_ok known with ⟨isAuthor, isAsker⟩
              rw [List.mem_singleton.mp member]
              exact ⟨target, ⟨List.mem_of_find?_eq_some found, rfl, rfl⟩, word, author,
                isAuthor, isAsker, _, rfl⟩

theorem reaches_of_broadcastLine : ∀ delivery ∈ parent.broadcastLine sender line,
    ∃ target, parent.Reaches delivery target ∧ sender.roomName.text ≠ [] ∧
      target.roomName.text = sender.roomName.text ∧
      delivery.bytes = snprintf (bufsiz + nameSize + 10)
        (sender.name.text ++ ascii [':', ' '] ++ line) ++ [0] := by
  intro delivery member
  rw [broadcastLine] at member
  by_cases nowhere : sender.roomName.bytes.headD 0 = 0
  · rw [if_pos nowhere] at member
    cases member
  rw [if_neg nowhere] at member
  rcases List.mem_map.mp member with ⟨target, kept, rfl⟩
  rcases List.mem_filter.mp kept with ⟨isClient, inRoom⟩
  rw [Bool.and_eq_true, decide_eq_true_eq] at inRoom
  have sameRoom := (NameField.matches_iff_text sender.roomName.terminated).mp inRoom.2
  have isNamed := mt sender.roomName.headD_eq_zero_iff.mpr nowhere
  exact ⟨target, ⟨isClient, rfl, rfl⟩, isNamed, sameRoom, rfl⟩

end Parent

namespace Server

def lineRead (received : Bytes) : Bytes := lineOf (contentText (text received))

def claimed (received : Bytes) : Int := atoi (pidText (text received))

structure IsChat (sender client : PipeInfo) (line bytes : Bytes) : Prop where
  named : sender.name.text ≠ []
  plain : line.headD 0 ≠ slash ∧ line.headD 0 ≠ bang
  inRoom : sender.roomName.text ≠ []
  sameRoom : client.roomName.text = sender.roomName.text
  bytes : bytes = chatLine sender.name.text line

structure IsWhisper (server : Server) (sender client : PipeInfo) (received bytes : Bytes) :
    Prop where
  named : sender.name.text ≠ []
  marked : (lineRead received).headD 0 = bang
  command : commandWord (lineRead received) = some Word.whisper
  target : lineRead received ≠ bang :: Word.whisper →
    firstWord (argument Word.whisper (lineRead received)) = some client.name.text
  bytes : ∃ author ∈ server.parent.clients, (author.pid : Int) = claimed received ∧
    ∃ mesg : Bytes, bytes = whisperText author.name.text (mesg.take whisperLimit)

structure IsAnswer (client : PipeInfo) (received : Bytes) : Prop where
  asked : (client.pid : Int) = claimed received
  command : IsCommand Word.list (lineRead received) ∨ IsCommand Word.users (lineRead received)

/-- The write goes to a listed client, through an open descriptor that is the pipe of
a child not waited for, which also gets the signal; and the client is meant. -/
structure Addressed (server : Server) (sender : PipeInfo) (received : Bytes)
    (delivery : Delivery) (client : PipeInfo) : Prop where
  reaches : server.parent.Reaches delivery client
  isOpen : delivery.fd ∈ server.openFds
  unreaped : ∃ child ∈ server.forked, child.pid = delivery.pid ∧
    child.parentToChildWriteFd = delivery.fd
  meant : IsChat sender client (lineRead received) delivery.bytes ∨
    server.IsWhisper sender client received delivery.bytes ∨ IsAnswer client received

section Addressed

variable {before : Finset Fd} {server next : Server} {sender : PipeInfo} {received : Bytes}
  {delivery : Delivery} {client : PipeInfo}

theorem addressed_of_reaches (holds : RegistryHolds before server)
    (reaches : server.parent.Reaches delivery client)
    (meant : IsChat sender client (lineRead received) delivery.bytes ∨
      server.IsWhisper sender client received delivery.bytes ∨ IsAnswer client received) :
    server.Addressed sender received delivery client := by
  rcases holds.exists_child reaches.listed with ⟨child, isForked, same⟩
  have samePid : child.pid = client.pid := congrArg (fun connection => connection.1) same
  have sameFd : child.parentToChildWriteFd = client.parentToChildWriteFd :=
    congrArg (fun connection => connection.2.1) same
  have isChildFd : delivery.fd ∈ server.childFds := by
    rw [childFds, List.mem_flatMap]
    exact ⟨client, reaches.listed, by simp [PipeInfo.fds, reaches.fd]⟩
  constructor
  · exact reaches
  · rw [holds.openFds, Finset.mem_union, List.mem_toFinset]
    exact Or.inr isChildFd
  · exact ⟨child, isForked, samePid.trans reaches.pid.symm, sameFd.trans reaches.fd.symm⟩
  · exact meant

theorem snprintf_chatLine (fits : received.length < bufsiz) :
    snprintf (bufsiz + nameSize + 10)
        (sender.name.text ++ ascii [':', ' '] ++ lineRead received) ++ [0] =
      chatLine sender.name.text (lineRead received) := by
  have nameLength := sender.name.length_text_lt
  have lineLength : (lineRead received).length ≤ received.length :=
    ((List.takeWhile_sublist _).trans ((List.tail_sublist _).trans
      ((List.dropWhile_sublist _).trans ((List.dropWhile_sublist _).trans
        (List.takeWhile_sublist _))))).length_le
  rw [snprintf, List.take_of_length_le, chatLine]
  simp only [List.length_append, ascii, List.length_map, List.length_cons, List.length_nil]
  omega

theorem eq_of_bareWhisper {line : Bytes} (isBang : line.headD 0 = bang)
    (isWhisper : commandWord line = some Word.whisper)
    (bare : line.length = Word.whisper.length + 1) : line = bang :: Word.whisper := by
  rcases eq_of_commandWord isWhisper with ⟨mark, _, equal | ⟨separator, _, equal⟩⟩
  · rw [equal] at isBang ⊢
    exact congrArg (· :: Word.whisper) isBang
  · have longer := congrArg List.length equal
    simp only [List.length_cons, List.length_append] at longer
    omega

theorem zero_notMem_lineRead (received : Bytes) : 0 ∉ lineRead received :=
  zero_notMem_lineOf (zero_notMem_contentText (zero_notMem_text received))

section Line

variable {parent after : Parent} {behind : Bytes} {deliveries : List Delivery}

theorem answers_of_command (isSlash : (lineRead received).headD 0 = slash)
    (done : parent.command (claimed received) (lineRead received ++ 0 :: behind) =
      .ok (after, deliveries)) :
    ∀ delivery ∈ deliveries, ∃ client,
      parent.Reaches delivery client ∧ IsAnswer client received := by
  rw [Parent.command_eq (zero_notMem_lineRead received)] at done
  by_cases isAdd : commandWord (lineRead received) = some Word.add
  · rw [if_pos isAdd] at done
    rcases ok_of_bind done with ⟨_, _, stored⟩
    cases stored
    simp
  by_cases isJoin : commandWord (lineRead received) = some Word.join
  · rw [if_neg isAdd, if_pos isJoin] at done
    rcases ok_of_bind done with ⟨_, _, stored⟩
    cases stored
    simp
  by_cases isRm : commandWord (lineRead received) = some Word.rm
  · rw [if_neg isAdd, if_neg isJoin, if_pos isRm] at done
    rcases ok_of_bind done with ⟨_, _, stored⟩
    cases stored
    simp
  rw [if_neg isAdd, if_neg isJoin, if_neg isRm] at done
  by_cases isList : commandWord (lineRead received) = some Word.list
  · rw [if_pos isList] at done
    rcases ok_of_bind done with ⟨written, listed, stored⟩
    cases stored
    intro delivery member
    rcases Parent.reaches_of_listRooms listed delivery member with ⟨client, reaches, asked⟩
    exact ⟨client, reaches, asked, Or.inl ⟨isSlash, isList⟩⟩
  by_cases isLeave : commandWord (lineRead received) = some Word.leave
  · rw [if_neg isList, if_pos isLeave] at done
    cases done
    simp
  rw [if_neg isList, if_neg isLeave] at done
  by_cases isUsers : commandWord (lineRead received) = some Word.users
  · rw [if_pos isUsers] at done
    cases done
    intro delivery member
    rcases Parent.reaches_of_listUsers delivery member with ⟨client, reaches, asked⟩
    exact ⟨client, reaches, asked, Or.inr ⟨isSlash, isUsers⟩⟩
  · rw [if_neg isUsers] at done
    cases done
    simp

theorem whispers_of_whisper (sameClients : parent.clients = server.parent.clients)
    (named : sender.name.text ≠ []) (isBang : (lineRead received).headD 0 = bang)
    (isWhisper : commandWord (lineRead received) = some Word.whisper)
    (done : parent.whisper (claimed received) (lineRead received ++ 0 :: behind) =
      .ok deliveries) :
    ∀ delivery ∈ deliveries, ∃ client, parent.Reaches delivery client ∧
      server.IsWhisper sender client received delivery.bytes := by
  rcases ok_of_bind done with ⟨origin, read, whispered⟩
  intro delivery member
  rcases Parent.reaches_of_whisperNamed whispered delivery member with
    ⟨client, reaches, word, author, isAuthor, asked, mesg, bytes⟩
  refine ⟨client, reaches, named, isBang, isWhisper, ?_, ?_⟩
  · intro full
    have offset := drop_offset behind isWhisper
    have notBare : (lineRead received).length ≠ Word.whisper.length + 1 :=
      fun bare => full (eq_of_bareWhisper isBang isWhisper bare)
    rw [if_neg notBare] at offset
    rw [offset, readString_append _ (zero_notMem_argument _ (zero_notMem_lineRead received))]
      at read
    cases read
    exact word
  · rw [Parent.whisperMessage_eq] at bytes
    exact ⟨author, sameClients ▸ isAuthor, asked, mesg, bytes⟩

theorem meant_of_dispatch {index : Nat} (fits : received.length < bufsiz)
    (sameClients : parent.clients = server.parent.clients)
    (done : parent.dispatch index sender (claimed received) (lineRead received ++ 0 :: behind) =
      .ok (after, deliveries)) :
    ∀ delivery ∈ deliveries, ∃ client, parent.Reaches delivery client ∧
      (IsChat sender client (lineRead received) delivery.bytes ∨
        server.IsWhisper sender client received delivery.bytes ∨ IsAnswer client received) := by
  rw [Parent.dispatch_eq (zero_notMem_lineRead received)] at done
  by_cases isSlash : (lineRead received).headD 0 = slash
  · rw [if_pos isSlash] at done
    intro delivery member
    rcases answers_of_command isSlash done delivery member with ⟨client, reaches, answer⟩
    exact ⟨client, reaches, Or.inr (Or.inr answer)⟩
  rw [if_neg isSlash] at done
  by_cases unnamed : sender.name.text = []
  · rw [if_pos unnamed] at done
    cases done
    simp
  rw [if_neg unnamed] at done
  by_cases isBang : (lineRead received).headD 0 = bang
  · rw [if_pos isBang] at done
    by_cases isWhisper : commandWord (lineRead received) = some Word.whisper
    · rw [if_pos isWhisper] at done
      rcases ok_of_bind done with ⟨written, whispered, stored⟩
      cases stored
      intro delivery member
      rcases whispers_of_whisper sameClients unnamed isBang isWhisper whispered delivery
        member with ⟨client, reaches, whisper⟩
      exact ⟨client, reaches, Or.inr (Or.inl whisper)⟩
    · rw [if_neg isWhisper] at done
      cases done
      simp
  · rw [if_neg isBang] at done
    cases done
    intro delivery member
    rcases Parent.reaches_of_broadcastLine delivery member with
      ⟨client, reaches, inRoom, sameRoom, bytes⟩
    rw [snprintf_chatLine fits] at bytes
    exact ⟨client, reaches, Or.inl ⟨unnamed, ⟨isSlash, isBang⟩, inRoom, sameRoom, bytes⟩⟩

end Line

end Addressed

theorem addressed_of_scanRead {before : Finset Fd} {server next : Server} {index : Nat}
    {received : Bytes} {deliveries : List Delivery} (holds : RegistryHolds before server)
    (done : server.scanRead index received = some (next, deliveries)) :
    ∃ sender, server.parent.clients[index]? = some sender ∧ ∀ delivery ∈ deliveries,
      ∃ client, server.Addressed sender received delivery client := by
  rcases scanRead_ok done with ⟨_, fits, handled, _⟩
  rcases Parent.handleMessage_ok fits handled with
    ⟨sender, behind, buffer, here, _, _, dispatched, _⟩
  refine ⟨sender, here, fun delivery member => ?_⟩
  have sameClients : { server.parent with mesgBuffer := buffer }.clients =
    server.parent.clients := rfl
  rcases meant_of_dispatch fits sameClients dispatched delivery member with
    ⟨client, reaches, meant⟩
  have sameReaches : server.parent.Reaches delivery client :=
    ⟨reaches.listed, reaches.pid, reaches.fd⟩
  exact ⟨client, addressed_of_reaches holds sameReaches meant⟩

theorem scanRead_of_wellFormed {before : Finset Fd} {server : Server} {index : Nat}
    {received : Bytes} {sender : PipeInfo} (holds : RegistryHolds before server)
    (here : server.parent.clients[index]? = some sender) (fits : received.length < bufsiz)
    (content : HasContent received)
    (wellFormed : server.parent.WellFormed sender (claimed received) (lineRead received)) :
    ∃ result, server.scanRead index received = some result := by
  have nonempty : contentText (text received) ≠ [] := (contentText_ne_nil_iff _).mpr content
  have read : received ≠ [] := by
    rintro rfl
    exact nonempty rfl
  rcases Parent.handleMessage_eq fits here nonempty with ⟨behind, buffer, _, handled, _⟩
  have sameWords : (server.parent.withBuffer buffer).WellFormed sender (claimed received)
      (lineRead received) :=
    ⟨wellFormed.add, wellFormed.join, wellFormed.rm, wellFormed.list, wellFormed.whisper⟩
  have free : (server.parent.withBuffer buffer).FaultFree index sender (claimed received)
      (lineRead received) :=
    Parent.faultFree_of_wellFormed (zero_notMem_lineRead received) sameWords
  rcases free with ⟨outcome, dispatched⟩
  have served : server.parent.handleMessage index received = .ok outcome :=
    handled.trans (dispatched behind)
  have readable : sender.isActive = true ∧ received ≠ [] ∧ received.length < bufsiz :=
    ⟨holds.isActive (List.mem_of_getElem? here), read, fits⟩
  refine ⟨({ server with parent := outcome.1 }, outcome.2), ?_⟩
  rw [scanRead, here]
  dsimp only
  rw [if_pos readable, served]

/-- In every run, every write of a dispatch that does not fault is addressed to a child the
parent has not waited for and that is meant; and no dispatch faults whose line has the
argument that its branch looks for and, for `/list`, names somebody to answer. -/
theorem addressed_run {buffer : MesgBuffer} {before : Finset Fd} {others : Finset Pid}
    {events : List Event} {server : Server}
    (reached : machine.run (boot buffer before others) events = some server) (index : Nat)
    (received : Bytes) :
    (∀ next deliveries, server.scanRead index received = some (next, deliveries) →
      ∃ sender, server.parent.clients[index]? = some sender ∧ ∀ delivery ∈ deliveries,
        ∃ client, server.Addressed sender received delivery client) ∧
    ∀ sender, server.parent.clients[index]? = some sender → received.length < bufsiz →
      HasContent received →
      server.parent.WellFormed sender (claimed received) (lineRead received) →
        ∃ result, server.scanRead index received = some result := by
  have holds := registryHolds_run reached
  constructor
  · exact fun next deliveries done => addressed_of_scanRead holds done
  · exact fun sender here fits content wellFormed =>
      scanRead_of_wellFormed holds here fits content wellFormed

def oneRoomForTwo : List Event :=
  [.accept ⟨4, [], some (5, 6), some (7, 8), true, some 100⟩,
    .read 0 (ascii ['1', '0', '0', ':', 'a', 'n', 'n'] ++ [0]),
    .read 0 (ascii ['1', '0', '0', ':', '/', 'j', 'o', 'i', 'n', ' ', 'x'] ++ [0]),
    .accept ⟨4, [], some (6, 7), some (9, 10), true, some 101⟩,
    .read 1 (ascii ['1', '0', '1', ':', '/', 'j', 'o', 'i', 'n', ' ', 'x'] ++ [0])]

theorem addressed_run_oneRoomForTwo :
    ∃ server result sender, machine.run (boot .zeroed {0, 1, 2, 3} ∅) oneRoomForTwo =
        some server ∧
      server.scanRead 0 (ascii ['1', '0', '0', ':', 'h', 'i'] ++ [0]) = some result ∧
      result.2.map Delivery.pid = [100, 101] ∧ server.parent.clients[0]? = some sender ∧
      ∀ delivery ∈ result.2, ∃ client, server.Addressed sender
        (ascii ['1', '0', '0', ':', 'h', 'i'] ++ [0]) delivery client := by
  have runs : (machine.run (boot .zeroed {0, 1, 2, 3} ∅) oneRoomForTwo).isSome := rfl
  have reached := (Option.some_get runs).symm
  have done : Server.scanRead (Option.get _ runs) 0
    (ascii ['1', '0', '0', ':', 'h', 'i'] ++ [0]) = some _ := rfl
  rcases (addressed_run reached 0 _).1 _ _ done with ⟨sender, here, addressed⟩
  exact ⟨_, _, sender, reached, done, rfl, here, addressed⟩

end Server

end RaspberryPi.ChatServer
