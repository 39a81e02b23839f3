import RaspberryPi.ChatServer.Dispatch

/-! # The chat behind the tables

What the parent's tables stand for: a list of room names and, for each client,
its nickname and its room. `serve` says what a request does to them, and the
tables of the parent follow it through every message. -/

namespace RaspberryPi.ChatServer

open CString

structure Member where
  pid : Pid
  nickname : Bytes
  room : Bytes
deriving DecidableEq

def Member.setNickname (member : Member) (nickname : Bytes) : Member :=
  { member with nickname }

def Member.setRoom (member : Member) (room : Bytes) : Member := { member with room }

structure Chat where
  rooms : List Bytes
  members : List Member
deriving DecidableEq

/-- What a message asks for, as far as rooms and members are concerned. -/
inductive Request
  | addRoom (name : Bytes)
  | joinRoom (name : Bytes)
  | removeRoom (name : Bytes)
  | leaveRoom
  | setName (name : Bytes)
  | other
deriving DecidableEq

namespace Chat

def stored (name : Bytes) : Bytes := name.take (nameSize - 1)

/-- Update the first member that has the pid a message claims. -/
def updateMember (chat : Chat) (fromWho : Int) (update : Member → Member) : Chat :=
  { chat with
    members := updateFirst (fun member => (member.pid : Int) == fromWho) update chat.members }

def addClient (chat : Chat) (pid : Pid) : Chat :=
  { chat with members := chat.members ++ [⟨pid, [], []⟩] }

def remove (chat : Chat) (reaped : List Pid) : Chat :=
  { chat with members := chat.members.filter fun member => decide (member.pid ∉ reaped) }

/-- Serve a request that was read from the pipe of the member at `index`. -/
def serve (chat : Chat) (index : Nat) (fromWho : Int) : Request → Chat
  | .addRoom name =>
      if chat.rooms.length < chatRoom then
        { chat with rooms := chat.rooms ++ [stored name] }
      else chat
  | .joinRoom name =>
      chat.updateMember fromWho fun member => member.setRoom (stored name)
  | .removeRoom name =>
      { rooms := chat.rooms.erase name
        members := chat.members.map fun member =>
          if member.room = name then member.setRoom [] else member }
  | .leaveRoom => chat.updateMember fromWho fun member => member.setRoom []
  | .setName name =>
      { chat with
        members := chat.members.modify index fun member =>
          member.setNickname (stored name) }
  | .other => chat

end Chat

/-- The request in a content, with its argument at the fixed offset. -/
def requestOf (unnamed : Bool) (content : Bytes) : Request :=
  let word := commandWord (text content)
  if content.headD 0 = slash then
    if word = some Word.add then .addRoom (argumentAt Word.add content)
    else if word = some Word.join then .joinRoom (argumentAt Word.join content)
    else if word = some Word.rm then .removeRoom (argumentAt Word.rm content)
    else if word = some Word.leave then .leaveRoom
    else .other
  else if unnamed then .setName (text content)
  else .other

theorem requestOf_false {unnamed : Bool} {content : Bytes} {request : Request}
    (read : requestOf unnamed content = request) (noName : ∀ name, request ≠ .setName name) :
    requestOf false content = request := by
  by_cases isSlash : content.headD 0 = slash
  · simpa only [requestOf, isSlash, if_true] using read
  · simp only [requestOf, isSlash, if_false] at read
    by_cases isUnnamed : unnamed = true
    · rw [if_pos isUnnamed] at read
      exact (noName _ read.symm).elim
    · rw [if_neg isUnnamed] at read
      rw [requestOf, if_neg isSlash]
      exact read

def Request.effect (sender : Pid) (request : Request) (member : Member) : Member :=
  match request with
  | .joinRoom name => if member.pid = sender then member.setRoom (Chat.stored name) else member
  | .removeRoom name => if member.room = name then member.setRoom [] else member
  | .leaveRoom => if member.pid = sender then member.setRoom [] else member
  | .setName name =>
      if member.pid = sender then member.setNickname (Chat.stored name) else member
  | .addRoom _ | .other => member

@[simp] theorem Request.pid_effect (sender : Pid) (request : Request) (member : Member) :
    (request.effect sender member).pid = member.pid := by
  cases request <;> simp only [effect] <;> split_ifs <;> rfl

theorem Request.nickname_effect {request : Request} (noName : ∀ name, request ≠ .setName name)
    (sender : Pid) (member : Member) :
    (request.effect sender member).nickname = member.nickname := by
  cases request with
  | setName name => exact (noName name rfl).elim
  | joinRoom name | removeRoom name | leaveRoom =>
      simp only [effect]
      split_ifs <;> rfl
  | addRoom name | other => rfl

theorem Chat.updateMember_eq_map {chat : Chat}
    (distinct : (chat.members.map Member.pid).Nodup) (pid : Pid) (update : Member → Member) :
    (chat.updateMember pid update).members =
      chat.members.map fun member => if member.pid = pid then update member else member := by
  have test : (fun member : Member => (member.pid : Int) == (pid : Int)) =
      fun member => decide (member.pid = pid) := by
    funext member
    simp [Bool.beq_eq_decide_eq]
  rw [updateMember, test]
  exact updateFirst_eq_map distinct pid update

/-- With distinct pids, a request that carries the pid of the member it was read
from acts on each member by itself. -/
theorem Chat.serve_members {chat : Chat} (distinct : (chat.members.map Member.pid).Nodup)
    {index : Nat} {sender : Member} (here : chat.members[index]? = some sender)
    (request : Request) :
    (chat.serve index sender.pid request).members =
      chat.members.map (request.effect sender.pid) := by
  have unchanged : chat.members.map (fun member => member) = chat.members := List.map_id' _
  cases request with
  | addRoom name =>
      rw [serve]
      split_ifs <;> exact unchanged.symm
  | joinRoom name => exact updateMember_eq_map distinct _ _
  | removeRoom name => rfl
  | leaveRoom => exact updateMember_eq_map distinct _ _
  | setName name => exact modify_eq_map distinct here _
  | other => exact unchanged.symm

def Request.FoundIn (content : Bytes) : Request → Prop
  | .addRoom name => name = argumentAt Word.add content
  | .joinRoom name => name = argumentAt Word.join content
  | .removeRoom name => name = argumentAt Word.rm content
  | .setName name => name = text content
  | .leaveRoom | .other => True

theorem requestOf_foundIn (unnamed : Bool) (content : Bytes) :
    (requestOf unnamed content).FoundIn content := by
  simp only [requestOf]
  split_ifs <;> first | rfl | trivial

/-! ## The tables follow the chat -/

def PipeInfo.member (client : PipeInfo) : Member :=
  ⟨client.pid, client.name.text, client.roomName.text⟩

def PipeInfo.connection (client : PipeInfo) : Pid × Fd × Fd × Bool :=
  (client.pid, client.parentToChildWriteFd, client.childToParentReadFd, client.isActive)

def Parent.chat (parent : Parent) : Chat where
  rooms := parent.rooms.map fun room => room.name.text
  members := parent.clients.map PipeInfo.member

theorem zero_notMem_argumentAt (word content : Bytes) : 0 ∉ argumentAt word content :=
  zero_notMem_text _

theorem stored_text_ofCopy {name : Bytes} (noNul : 0 ∉ name) :
    (NameField.ofCopy name).text = Chat.stored name :=
  NameField.text_ofCopy noNul

theorem PipeInfo.member_setName (client : PipeInfo) {name : Bytes} (noNul : 0 ∉ name) :
    (client.setName name).member = client.member.setNickname (Chat.stored name) := by
  rw [setName, member, stored_text_ofCopy noNul]
  rfl

theorem PipeInfo.member_setRoomName (client : PipeInfo) {name : Bytes}
    (noNul : 0 ∉ name) :
    (client.setRoomName name).member = client.member.setRoom (Chat.stored name) := by
  rw [setRoomName, member, stored_text_ofCopy noNul]
  rfl

@[simp] theorem PipeInfo.member_clearRoomName (client : PipeInfo) :
    client.clearRoomName.member = client.member.setRoom [] := rfl

namespace Parent

variable {parent next : Parent} {fromWho : Int} {content : Bytes}

theorem addRoom_chat (index : Nat) (done : parent.addRoom content = .ok next) :
    next.chat = parent.chat.serve index fromWho
      (.addRoom (argumentAt Word.add content)) := by
  rcases addRoom_ok done with ⟨sameClients, rooms⟩
  have count : parent.chat.rooms.length = parent.rooms.length := List.length_map _
  have storedName := stored_text_ofCopy (zero_notMem_argumentAt Word.add content)
  rw [Chat.serve, count]
  by_cases free : parent.rooms.length < chatRoom
  · simp [chat, sameClients, rooms, free, storedName]
  · simp [chat, sameClients, rooms, free]

theorem joinRoom_chat (index : Nat) (done : parent.joinRoom fromWho content = .ok next) :
    next.chat = parent.chat.serve index fromWho
      (.joinRoom (argumentAt Word.join content)) := by
  rcases joinRoom_ok done with ⟨sameRooms, clients⟩
  have updated : next.clients.map PipeInfo.member = (parent.chat.serve index fromWho
      (.joinRoom (argumentAt Word.join content))).members := by
    rw [clients]
    exact map_updateFirst PipeInfo.member
      (fun client => client.setRoomName (argumentAt Word.join content))
      (fun member => member.setRoom (Chat.stored (argumentAt Word.join content)))
      (fun member => (member.pid : Int) == fromWho)
      (fun client => client.member_setRoomName (zero_notMem_argumentAt Word.join content))
      (fun client => rfl) parent.clients
  simp only [chat, sameRooms, updated]
  rfl

theorem removeRoom_chat (index : Nat) (done : parent.removeRoom content = .ok next) :
    next.chat = parent.chat.serve index fromWho
      (.removeRoom (argumentAt Word.rm content)) := by
  rcases removeRoom_ok done with ⟨clients, rooms⟩
  have erased : (parent.rooms.map fun room => room.name.text).erase
      (argumentAt Word.rm content) = next.rooms.map fun room => room.name.text := by
    rw [rooms, List.erase_eq_eraseP, List.eraseP_map]
    congr 2
    funext room
    simp [eq_comm, Bool.beq_eq_decide_eq]
  have cleared : (parent.clients.map PipeInfo.member).map (fun member =>
      if member.room = argumentAt Word.rm content then member.setRoom []
      else member) = next.clients.map PipeInfo.member := by
    rw [clients, List.map_map, List.map_map]
    apply List.map_congr_left
    intro client _
    by_cases equal : client.roomName.text = argumentAt Word.rm content
    · simp [PipeInfo.member, Member.setRoom, PipeInfo.clearRoomName, equal]
    · simp [PipeInfo.member, equal]
  simp only [chat, Chat.serve, erased, cleared]

theorem leaveRoom_chat (index : Nat) :
    (parent.leaveRoom fromWho).chat = parent.chat.serve index fromWho .leaveRoom := by
  have updated : (parent.leaveRoom fromWho).clients.map PipeInfo.member =
      (parent.chat.serve index fromWho .leaveRoom).members := by
    rw [leaveRoom_clients]
    exact map_updateFirst PipeInfo.member PipeInfo.clearRoomName
      (fun member => member.setRoom []) (fun member => (member.pid : Int) == fromWho)
      PipeInfo.member_clearRoomName (fun client => rfl) parent.clients
  simp only [chat, leaveRoom_rooms, updated]
  rfl

theorem setName_chat {index : Nat} (done : parent.setName index content = .ok next) :
    next.chat = parent.chat.serve index fromWho (.setName (text content)) := by
  rcases setName_ok done with ⟨sameRooms, clients⟩
  have updated : next.clients.map PipeInfo.member = (parent.chat.serve index fromWho
      (.setName (text content))).members := by
    rw [clients]
    exact map_modify PipeInfo.member (fun client => client.setName (text content))
      (fun member => member.setNickname (Chat.stored (text content)))
      (fun client => client.member_setName (zero_notMem_text content)) parent.clients index
  simp only [chat, sameRooms, updated]
  rfl

/-! ## Dispatch -/

/-- The handler of a request; requests that change no table have none. -/
def perform (parent : Parent) (index : Nat) (fromWho : Int) (content : Bytes) :
    Request → Except Fault Parent
  | .addRoom _ => parent.addRoom content
  | .joinRoom _ => parent.joinRoom fromWho content
  | .removeRoom _ => parent.removeRoom content
  | .leaveRoom => .ok (parent.leaveRoom fromWho)
  | .setName _ => parent.setName index content
  | .other => .ok parent

theorem perform_requestOf_of_slash {content : Bytes} (index : Nat) (unnamed : Bool)
    (isSlash : content.headD 0 = slash) :
    parent.perform index fromWho content (requestOf unnamed content) =
      if commandWord (text content) = some Word.add then parent.addRoom content
      else if commandWord (text content) = some Word.join then
        parent.joinRoom fromWho content
      else if commandWord (text content) = some Word.rm then parent.removeRoom content
      else if commandWord (text content) = some Word.leave then
        .ok (parent.leaveRoom fromWho)
      else .ok parent := by
  simp only [requestOf, isSlash, if_true]
  split_ifs <;> rfl

private theorem ok_of_withDeliveries {first : Except Fault Parent}
    {deliveries : List Delivery}
    (done : (do return (← first, [])) = (Except.ok (next, deliveries) : Outcome)) :
    first = .ok next := by
  rcases ok_of_bind done with ⟨value, computed, stored⟩
  cases stored
  exact computed

theorem command_eq_of_terminated (terminated : 0 ∈ content) :
    parent.command fromWho content =
      if commandWord (text content) = some Word.add then
        do return (← parent.addRoom content, [])
      else if commandWord (text content) = some Word.join then
        do return (← parent.joinRoom fromWho content, [])
      else if commandWord (text content) = some Word.rm then
        do return (← parent.removeRoom content, [])
      else if commandWord (text content) = some Word.list then
        do return (parent, ← parent.listRooms fromWho)
      else if commandWord (text content) = some Word.leave then
        .ok (parent.leaveRoom fromWho, [])
      else if commandWord (text content) = some Word.users then
        .ok (parent, parent.listUsers fromWho)
      else .ok (parent, []) := by
  rcases exists_eq_text_append terminated with ⟨tail, equal⟩
  have checks : ∀ word, IsWord word → inArray (checkCommand content word) =
      .ok (decide (commandWord (text content) = some word)) := by
    intro word isWord
    have checked := checkCommand_eq tail (zero_notMem_text content) isWord
    rw [← equal] at checked
    rw [checked]
    rfl
  simp only [command, checks Word.add (by decide), checks Word.join (by decide),
    checks Word.rm (by decide), checks Word.list (by decide), checks Word.users (by decide),
    checks Word.leave (by decide), bind, Except.bind, decide_eq_true_eq]
  rfl

theorem command_ok {deliveries : List Delivery} (index : Nat) (unnamed : Bool)
    (terminated : 0 ∈ content) (isSlash : content.headD 0 = slash)
    (done : parent.command fromWho content = .ok (next, deliveries)) :
    parent.perform index fromWho content (requestOf unnamed content) = .ok next := by
  rw [command_eq_of_terminated terminated] at done
  rw [perform_requestOf_of_slash index unnamed isSlash]
  by_cases isAdd : commandWord (text content) = some Word.add
  · rw [if_pos isAdd] at done ⊢
    exact ok_of_withDeliveries done
  rw [if_neg isAdd] at done ⊢
  by_cases isJoin : commandWord (text content) = some Word.join
  · rw [if_pos isJoin] at done ⊢
    exact ok_of_withDeliveries done
  rw [if_neg isJoin] at done ⊢
  by_cases isRm : commandWord (text content) = some Word.rm
  · rw [if_pos isRm] at done ⊢
    exact ok_of_withDeliveries done
  rw [if_neg isRm] at done ⊢
  by_cases isList : commandWord (text content) = some Word.list
  · rw [if_pos isList] at done
    rcases ok_of_bind done with ⟨written, _, stored⟩
    cases stored
    rw [isList, if_neg (by decide)]
  rw [if_neg isList] at done
  by_cases isLeave : commandWord (text content) = some Word.leave
  · rw [if_pos isLeave] at done ⊢
    cases done
    rfl
  rw [if_neg isLeave] at done ⊢
  by_cases isUsers : commandWord (text content) = some Word.users
  · rw [if_pos isUsers] at done
    cases done
    rfl
  · rw [if_neg isUsers] at done
    cases done
    rfl

theorem dispatch_ok {deliveries : List Delivery} {index : Nat} {child : PipeInfo}
    (terminated : 0 ∈ content)
    (done : parent.dispatch index child fromWho content = .ok (next, deliveries)) :
    parent.perform index fromWho content
      (requestOf (decide (child.name.text = [])) content) = .ok next := by
  by_cases isSlash : content.headD 0 = slash
  · rw [dispatch, if_pos isSlash] at done
    exact command_ok index _ terminated isSlash done
  rw [dispatch, if_neg isSlash] at done
  by_cases unnamed : child.name.text = []
  · rw [if_pos (child.name.headD_eq_zero_iff.mpr unnamed)] at done
    simp only [requestOf, isSlash, unnamed, if_false, decide_true, if_true]
    exact ok_of_withDeliveries done
  rw [if_neg (mt child.name.headD_eq_zero_iff.mp unnamed)] at done
  have request : requestOf (decide (child.name.text = [])) content = .other := by
    simp only [requestOf, isSlash, unnamed, decide_false, if_false, Bool.false_eq_true]
  rw [request]
  by_cases isBang : content.headD 0 = bang
  · rw [if_pos isBang] at done
    rcases ok_of_bind done with ⟨whisper, _, rest⟩
    cases whisper with
    | false =>
        cases rest
        rfl
    | true =>
        rcases ok_of_bind rest with ⟨written, _, stored⟩
        cases stored
        rfl
  · rw [if_neg isBang] at done
    rcases ok_of_bind done with ⟨written, _, stored⟩
    cases stored
    rfl

theorem perform_chat {index : Nat} {request : Request} (found : request.FoundIn content)
    (done : parent.perform index fromWho content request = .ok next) :
    next.chat = parent.chat.serve index fromWho request := by
  cases request with
  | addRoom name =>
      cases found
      exact addRoom_chat index done
  | joinRoom name =>
      cases found
      exact joinRoom_chat index done
  | removeRoom name =>
      cases found
      exact removeRoom_chat index done
  | leaveRoom =>
      cases done
      exact leaveRoom_chat index
  | setName name =>
      cases found
      exact setName_chat done
  | other =>
      cases done
      rfl

theorem perform_connections {index : Nat} {request : Request}
    (done : parent.perform index fromWho content request = .ok next) :
    next.clients.map PipeInfo.connection = parent.clients.map PipeInfo.connection := by
  cases request with
  | addRoom name => rw [(addRoom_ok done).1]
  | joinRoom name =>
      rw [(joinRoom_ok done).2]
      apply map_updateFirst_of_unchanged
      exact fun client => rfl
  | removeRoom name =>
      rw [(removeRoom_ok done).1, List.map_map]
      apply List.map_congr_left
      intro client _
      by_cases equal : client.roomName.text = argumentAt Word.rm content
      · simp [equal, PipeInfo.connection, PipeInfo.clearRoomName]
      · simp [equal]
  | leaveRoom =>
      cases done
      rw [leaveRoom_clients]
      apply map_updateFirst_of_unchanged
      exact fun client => rfl
  | setName name =>
      rw [(setName_ok done).2]
      apply map_modify_of_unchanged
      exact fun client => rfl
  | other =>
      cases done
      rfl

/-! ## One read of one pipe -/

def withBuffer (parent : Parent) (buffer : MesgBuffer) : Parent :=
  { parent with mesgBuffer := buffer }

theorem chat_mesgBuffer (parent : Parent) (buffer : MesgBuffer) :
    { parent with mesgBuffer := buffer }.chat = parent.chat := rfl

theorem clients_mesgBuffer (parent : Parent) (buffer : MesgBuffer) :
    { parent with mesgBuffer := buffer }.clients = parent.clients := rfl

/-- The memory from `content` on once a read of the pipe was parsed. -/
def contentOf (parent : Parent) (received : Bytes) : Option Bytes :=
  match parseMessage (parent.mesgBuffer.store (received ++ [0])).bytes with
  | .ok (_, content) => some content
  | .error _ => none

/-- A read with content is parsed into a pid and a line, which is dispatched. The
memory behind the line matters to a bare command; behind a complete record it
is what the record has after its first newline. -/
theorem handleMessage_eq {index : Nat} {received : Bytes} {child : PipeInfo}
    (fits : received.length < bufsiz) (here : parent.clients[index]? = some child)
    (nonempty : contentText (text received) ≠ []) :
    ∃ behind buffer,
      parent.contentOf received =
        some (lineOf (contentText (text received)) ++ 0 :: behind) ∧
      parent.handleMessage index received =
        { parent with mesgBuffer := buffer }.dispatch index child
          (atoi (pidText (text received)))
          (lineOf (contentText (text received)) ++ 0 :: behind) ∧
      ∀ record, received = record ++ [0] → 0 ∉ record →
        0 ∈ behind ∧ text behind = afterLine (contentText record) := by
  rcases parseMessage_store parent.mesgBuffer fits with ⟨tail, parsed, whole⟩
  have noNul := zero_notMem_text received
  rcases cutAt_content tail (zero_notMem_contentText noNul) with
    ⟨behind, cut, behindWhole, behindEnds⟩
  rw [if_neg nonempty, cut] at parsed
  refine ⟨behind, parsedBuffer (parent.mesgBuffer.store (received ++ [0]))
    (lineOf (contentText (text received)) ++ 0 :: behind), ?_, ?_, ?_⟩
  · rw [contentOf, parsed]
  · rw [handleMessage, here]
    dsimp only
    rw [parsed]
    change Parent.dispatch _ index child (atoi (text _)) _ = _
    rw [text_pidText_append _ noNul]
  · rintro record rfl recordNoNul
    have sameText : text (record ++ [0]) = record := text_append_nul [] recordNoNul
    rcases whole record rfl recordNoNul with ⟨others, rfl⟩
    rw [sameText] at behindWhole
    exact ⟨behindEnds List.mem_cons_self, behindWhole (text_zero_cons others)⟩

theorem handleMessage_ok {index : Nat} {received : Bytes} {deliveries : List Delivery}
    (fits : received.length < bufsiz)
    (done : parent.handleMessage index received = .ok (next, deliveries)) :
    ∃ child behind buffer, parent.clients[index]? = some child ∧
      parent.contentOf received =
        some (lineOf (contentText (text received)) ++ 0 :: behind) ∧
      contentText (text received) ≠ [] ∧
      { parent with mesgBuffer := buffer }.dispatch index child
        (atoi (pidText (text received)))
        (lineOf (contentText (text received)) ++ 0 :: behind) = .ok (next, deliveries) ∧
      ∀ record, received = record ++ [0] → 0 ∉ record →
        text behind = afterLine (contentText record) := by
  cases here : parent.clients[index]? with
  | none =>
      rw [handleMessage, here] at done
      cases done
  | some child =>
      by_cases empty : contentText (text received) = []
      · rcases parseMessage_store parent.mesgBuffer fits with ⟨tail, parsed, _⟩
        rw [handleMessage, here] at done
        dsimp only at done
        rw [parsed, if_pos empty] at done
        cases done
      · rcases handleMessage_eq fits here empty with ⟨behind, buffer, content, handled, whole⟩
        exact ⟨child, behind, buffer, rfl, content, empty, handled ▸ done,
          fun record equal noNul => (whole record equal noNul).2⟩

theorem handleMessage_chat {index : Nat} {received : Bytes} {deliveries : List Delivery}
    (fits : received.length < bufsiz)
    (done : parent.handleMessage index received = .ok (next, deliveries)) :
    ∃ child behind, parent.clients[index]? = some child ∧
      parent.contentOf received =
        some (lineOf (contentText (text received)) ++ 0 :: behind) ∧
      contentText (text received) ≠ [] ∧
      next.chat = parent.chat.serve index (atoi (pidText (text received)))
        (requestOf (decide (child.name.text = []))
          (lineOf (contentText (text received)) ++ 0 :: behind)) ∧
      ∀ record, received = record ++ [0] → 0 ∉ record →
        text behind = afterLine (contentText record) := by
  rcases handleMessage_ok fits done with
    ⟨child, behind, buffer, read, content, nonempty, dispatched, whole⟩
  have served := perform_chat (requestOf_foundIn _ _) (dispatch_ok (by simp) dispatched)
  rw [chat_mesgBuffer] at served
  exact ⟨child, behind, read, content, nonempty, served, whole⟩

theorem handleMessage_connections {index : Nat} {received : Bytes}
    {deliveries : List Delivery} (fits : received.length < bufsiz)
    (done : parent.handleMessage index received = .ok (next, deliveries)) :
    next.clients.map PipeInfo.connection = parent.clients.map PipeInfo.connection := by
  rcases handleMessage_ok fits done with ⟨child, behind, buffer, _, _, _, dispatched, _⟩
  have kept := perform_connections (dispatch_ok (by simp) dispatched)
  rwa [clients_mesgBuffer] at kept

end Parent

end RaspberryPi.ChatServer
