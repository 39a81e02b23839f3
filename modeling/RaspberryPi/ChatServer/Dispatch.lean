import RaspberryPi.Foundation.KeyedList
import RaspberryPi.ChatServer.Message

/-! # Command dispatch

The body of the message loop of `main`, one definition a branch. `content` is
the memory from the pointer of that name on, so the fixed offsets at which the
branches look for an argument may lead past its terminator. -/

namespace RaspberryPi.ChatServer

open CString

abbrev Outcome := Except Fault (Parent × List Delivery)

/-- Reading past the end of an array is a fault. -/
def inArray {α : Type} : Option α → Except Fault α
  | some value => .ok value
  | none => .error .pastEndOfArray

theorem inArray_eq_ok {α : Type} {read : Option α} {value : α} :
    inArray read = .ok value ↔ read = some value := by
  cases read <;> simp [inArray]

theorem ok_of_bind {α β : Type} {first : Except Fault α} {next : α → Except Fault β}
    {result : β} (done : first >>= next = .ok result) :
    ∃ value, first = .ok value ∧ next value = .ok result := by
  cases first with
  | error fault => cases done
  | ok value => exact ⟨value, rfl, done⟩

def chatLine (nickname line : Bytes) : Bytes := nickname ++ ascii [':', ' '] ++ line ++ [0]

namespace Parent

/-- `client_idx` of the search for `from_who`; -1 is `none`. -/
def clientIdx (parent : Parent) (fromWho : Int) : Option Nat :=
  parent.clients.findIdx? fun client => (client.pid : Int) == fromWho

def clientOf (parent : Parent) (fromWho : Int) : Option PipeInfo :=
  parent.clients.find? fun client => (client.pid : Int) == fromWho

/-! ## Commands -/

def addRoom (parent : Parent) (content : Bytes) : Except Fault Parent :=
  let roomName := content.drop (2 + Word.add.length)
  if free : parent.roomInfo.count < chatRoom then do
    let copied ← inArray (strncpy roomName (nameSize - 1))
    return { parent with roomInfo := parent.roomInfo.push ⟨.ofCopy copied⟩ free }
  else do
    -- the warning prints the refused name
    let _ ← inArray (readString roomName)
    return parent

def joinRoom (parent : Parent) (fromWho : Int) (content : Bytes) : Except Fault Parent :=
  let joinRoomName := content.drop (2 + Word.join.length)
  match parent.clientIdx fromWho with
  | some index => do
      let copied ← inArray (strncpy joinRoomName (nameSize - 1))
      return { parent with
        activeChildren := parent.activeChildren.modify index fun client =>
          client.setRoomName copied }
  | none => return parent

def findRoom (name : Bytes) : List RoomInfo → Except Fault (Option Nat)
  | [] => return none
  | room :: rest => do
      if ← inArray (strcmp room.name.bytes name) then return some 0
      return (← findRoom name rest).map (· + 1)

def removeRoom (parent : Parent) (content : Bytes) : Except Fault Parent := do
  let rmRoomName := content.drop (2 + Word.rm.length)
  parent.clients.forM fun client => do
    let _ ← inArray (strcmp client.roomName.bytes rmRoomName)
  let activeChildren := parent.activeChildren.updateAll fun client =>
    if client.roomName.Matches rmRoomName then client.clearRoomName else client
  match ← findRoom rmRoomName parent.rooms with
  | some index =>
      return { parent with activeChildren, roomInfo := parent.roomInfo.removeAt index }
  | none => return { parent with activeChildren }

/-- One write for each room, to a client that is looked up but not checked. -/
def listRooms (parent : Parent) (fromWho : Int) : Except Fault (List Delivery) :=
  if parent.rooms = [] then return []
  else match parent.clientOf fromWho with
    | none => .error .indexOutOfRange
    | some client => return parent.rooms.map fun room =>
        ⟨client.parentToChildWriteFd, room.name.text, client.pid⟩

def leaveRoom (parent : Parent) (fromWho : Int) : Parent :=
  match parent.clientIdx fromWho with
  | some index => { parent with
      activeChildren := parent.activeChildren.modify index PipeInfo.clearRoomName }
  | none => parent

def listUsers (parent : Parent) (fromWho : Int) : List Delivery :=
  match parent.clientOf fromWho with
  | none => []
  | some client =>
      (parent.clients.filter fun other =>
        other.roomName.Matches client.roomName.bytes).map fun other =>
          ⟨client.parentToChildWriteFd, other.name.text ++ [newline], client.pid⟩

def command (parent : Parent) (fromWho : Int) (content : Bytes) : Outcome := do
  let isAdd ← inArray (checkCommand content Word.add)
  let isJoin ← inArray (checkCommand content Word.join)
  let isRm ← inArray (checkCommand content Word.rm)
  let isList ← inArray (checkCommand content Word.list)
  let isUsers ← inArray (checkCommand content Word.users)
  let isLeave ← inArray (checkCommand content Word.leave)
  if isAdd then return (← parent.addRoom content, [])
  else if isJoin then return (← parent.joinRoom fromWho content, [])
  else if isRm then return (← parent.removeRoom content, [])
  else if isList then return (parent, ← parent.listRooms fromWho)
  else if isLeave then return (parent.leaveRoom fromWho, [])
  else if isUsers then return (parent, parent.listUsers fromWho)
  else return (parent, [])

/-! ## Nickname, whisper and chat -/

def setName (parent : Parent) (index : Nat) (content : Bytes) : Except Fault Parent := do
  let copied ← inArray (strncpy content (nameSize - 1))
  return { parent with
    activeChildren := parent.activeChildren.modify index fun client =>
      client.setName copied }

/-- The text a whisper delivers, with the three limits on its length. -/
def whisperMessage (sender : PipeInfo) (mesg : Bytes) : Bytes :=
  let nameLen := sender.name.text.length
  let mesgLen := min mesg.length 1024
  let maxLen := bufsiz - nameLen - 10
  snprintf bufsiz (ascii ['f', 'r', 'o', 'm', ' '] ++ sender.name.text ++
    ascii [' ', ':', ' '] ++ mesg.take (min mesgLen maxLen))

def whisper (parent : Parent) (fromWho : Int) (content : Bytes) :
    Except Fault (List Delivery) := do
  let origin ← inArray (readString (content.drop (2 + Word.whisper.length)))
  let first := strtok (origin ++ [0]) [space]
  match first.1 with
  | none => .error .uninitialisedRead
  | some userName =>
      let mesg := match (strtok first.2 []).1 with
        | some rest => text rest
        | none => []
      match parent.clientOf fromWho with
      | none => return []
      | some sender =>
          match parent.clients.find? fun client => client.name.Matches userName with
          | none => return []
          | some target => return [⟨target.parentToChildWriteFd,
              whisperMessage sender mesg, target.pid⟩]

def broadcast (parent : Parent) (sender : PipeInfo) (content : Bytes) :
    Except Fault (List Delivery) := do
  let line ← inArray (readString content)
  let broadcastMesg := snprintf (bufsiz + nameSize + 10)
    (sender.name.text ++ ascii [':', ' '] ++ line)
  if sender.roomName.bytes.headD 0 = 0 then return []
  return (parent.clients.filter fun client =>
    client.isActive && client.roomName.Matches sender.roomName.bytes).map fun client =>
      ⟨client.parentToChildWriteFd, broadcastMesg ++ [0], client.pid⟩

/-- The dispatch of one message that was read from the pipe of `child`, the
entry at `index`, and that says it comes from `fromWho`. -/
def dispatch (parent : Parent) (index : Nat) (child : PipeInfo) (fromWho : Int)
    (content : Bytes) : Outcome := do
  if content.headD 0 = slash then parent.command fromWho content
  else if child.name.bytes.headD 0 = 0 then
    return (← parent.setName index content, [])
  else if content.headD 0 = bang then
    if ← inArray (checkCommand content Word.whisper) then
      return (parent, ← parent.whisper fromWho content)
    else return (parent, [])
  else return (parent, ← parent.broadcast child content)

/-- What the scan does with the bytes one read of the pipe at `index` returned. -/
def handleMessage (parent : Parent) (index : Nat) (received : Bytes) : Outcome :=
  match parent.clients[index]? with
  | none => .error .indexOutOfRange
  | some child => do
      let buffer := parent.mesgBuffer.store (received ++ [0])
      let (pidStr, content) ← parseMessage buffer.bytes
      let parsed := { parent with mesgBuffer := parsedBuffer buffer content }
      match pidStr with
      | some pidStr => parsed.dispatch index child (atoi (text pidStr)) content
      -- the malformed branch only logs
      | none => return (parsed, [])

/-! ## What each branch leaves behind -/

theorem addRoom_ok {parent next : Parent} {content : Bytes}
    (done : parent.addRoom content = .ok next) :
    next.clients = parent.clients ∧ next.rooms =
      if parent.rooms.length < chatRoom then
        parent.rooms ++ [⟨.ofCopy (argumentAt Word.add content)⟩]
      else parent.rooms := by
  have length : parent.rooms.length = parent.roomInfo.count :=
    Table.length_entries _
  rw [length]
  by_cases free : parent.roomInfo.count < chatRoom
  · simp only [addRoom, free, dif_pos] at done
    rcases ok_of_bind done with ⟨copied, read, stored⟩
    cases stored
    have copiedEq := eq_of_strncpy (inArray_eq_ok.mp read)
    refine ⟨rfl, ?_⟩
    rw [if_pos free, rooms, Table.entries_push, copiedEq, NameField.ofCopy_take]
    rfl
  · simp only [addRoom, free, dif_neg, not_false_eq_true] at done
    rcases ok_of_bind done with ⟨printed, _, stored⟩
    cases stored
    exact ⟨rfl, by rw [if_neg free]⟩

theorem joinRoom_ok {parent next : Parent} {fromWho : Int} {content : Bytes}
    (done : parent.joinRoom fromWho content = .ok next) :
    next.rooms = parent.rooms ∧ next.clients =
      updateFirst (fun client => (client.pid : Int) == fromWho)
        (fun client => client.setRoomName (argumentAt Word.join content))
        parent.clients := by
  rw [joinRoom] at done
  rw [updateFirst]
  cases position : parent.clientIdx fromWho with
  | none =>
      simp only [position] at done
      cases done
      rw [clientIdx] at position
      simp [position]
  | some index =>
      simp only [position] at done
      rcases ok_of_bind done with ⟨copied, read, stored⟩
      cases stored
      have copiedEq := eq_of_strncpy (inArray_eq_ok.mp read)
      rw [clientIdx] at position
      refine ⟨rfl, ?_⟩
      rw [position, clients, Table.entries_modify, copiedEq]
      simp only [PipeInfo.setRoomName, NameField.ofCopy_take]
      rfl

theorem leaveRoom_rooms (parent : Parent) (fromWho : Int) :
    (parent.leaveRoom fromWho).rooms = parent.rooms := by
  rw [leaveRoom]
  cases parent.clientIdx fromWho <;> rfl

theorem leaveRoom_clients (parent : Parent) (fromWho : Int) :
    (parent.leaveRoom fromWho).clients =
      updateFirst (fun client => (client.pid : Int) == fromWho)
        PipeInfo.clearRoomName parent.clients := by
  rw [leaveRoom, updateFirst]
  cases position : parent.clientIdx fromWho with
  | none =>
      rw [clientIdx] at position
      simp [position]
  | some index =>
      rw [clientIdx] at position
      simp only [position]
      exact Table.entries_modify ..

theorem setName_ok {parent next : Parent} {index : Nat} {content : Bytes}
    (done : parent.setName index content = .ok next) :
    next.rooms = parent.rooms ∧ next.clients =
      parent.clients.modify index fun client => client.setName (text content) := by
  rcases ok_of_bind done with ⟨copied, read, stored⟩
  cases stored
  have copiedEq := eq_of_strncpy (inArray_eq_ok.mp read)
  refine ⟨rfl, ?_⟩
  rw [clients, Table.entries_modify, copiedEq]
  simp only [PipeInfo.setName, NameField.ofCopy_take]
  rfl

private theorem compared_of_forM {name : Bytes} {clients : List PipeInfo}
    (done : (clients.forM fun client => do
      let _ ← inArray (strcmp client.roomName.bytes name)) = .ok ()) :
    ∀ client ∈ clients,
      client.roomName.Matches name ↔ client.roomName.text = text name := by
  induction clients with
  | nil => simp
  | cons head tail induction =>
      rcases ok_of_bind done with ⟨_, first, rest⟩
      rcases ok_of_bind first with ⟨answer, read, _⟩
      intro client member
      rcases List.mem_cons.mp member with rfl | member
      · exact NameField.matches_of_strcmp (inArray_eq_ok.mp read)
      · exact induction rest client member

theorem findRoom_ok {name : Bytes} {rooms : List RoomInfo} {position : Option Nat}
    (done : findRoom name rooms = .ok position) :
    position = rooms.findIdx? fun room => decide (room.name.text = text name) := by
  induction rooms generalizing position with
  | nil =>
      cases done
      rfl
  | cons head tail induction =>
      rcases ok_of_bind done with ⟨answer, read, rest⟩
      have sound := eq_of_strcmp head.name.terminated (inArray_eq_ok.mp read)
      change answer = decide (head.name.text = text name) at sound
      rw [List.findIdx?_cons, ← sound]
      cases answer with
      | true =>
          cases rest
          rfl
      | false =>
          rcases ok_of_bind rest with ⟨later, found, stored⟩
          cases stored
          rw [induction found]
          rfl

theorem removeRoom_ok {parent next : Parent} {content : Bytes}
    (done : parent.removeRoom content = .ok next) :
    (next.clients = parent.clients.map fun client =>
      if client.roomName.text = argumentAt Word.rm content then client.clearRoomName
      else client) ∧
    next.rooms = parent.rooms.eraseP fun room =>
      decide (room.name.text = argumentAt Word.rm content) := by
  rcases ok_of_bind done with ⟨_, scanned, rest⟩
  rcases ok_of_bind rest with ⟨position, found, stored⟩
  have compared := compared_of_forM scanned
  have located := findRoom_ok found
  have cleared : (parent.activeChildren.updateAll fun client =>
      if client.roomName.Matches (content.drop (2 + Word.rm.length)) then
        client.clearRoomName
      else client).entries = parent.clients.map fun client =>
        if client.roomName.text = argumentAt Word.rm content then client.clearRoomName
        else client := by
    rw [Table.entries_updateAll]
    apply List.map_congr_left
    intro client member
    simp only [compared client member]
    rfl
  rw [List.eraseP_eq_eraseIdx]
  change position = parent.rooms.findIdx? fun room =>
    decide (room.name.text = argumentAt Word.rm content) at located
  rw [← located]
  cases position with
  | none =>
      cases stored
      exact ⟨cleared, rfl⟩
  | some index =>
      cases stored
      have inRange := (List.findIdx?_eq_some_iff_getElem.mp located.symm).1
      rw [rooms, Table.length_entries] at inRange
      exact ⟨cleared, Table.entries_removeAt _ _ inRange⟩

def roomWrites (parent : Parent) (sender : PipeInfo) (line : Bytes) : List Delivery :=
  if sender.roomName.text = [] then []
  else (parent.clients.filter fun client =>
    decide (client.roomName.text = sender.roomName.text)).map fun client =>
      ⟨client.parentToChildWriteFd, chatLine sender.name.text line, client.pid⟩

theorem broadcast_chatLine {parent : Parent} {sender : PipeInfo} {line : Bytes}
    (behind : Bytes) (noNul : 0 ∉ line) (fits : line.length < bufsiz)
    (active : ∀ client ∈ parent.clients, client.isActive = true) :
    parent.broadcast sender (line ++ 0 :: behind) = .ok (parent.roomWrites sender line) := by
  have read : readString (line ++ 0 :: behind) = some line := readString_append behind noNul
  have whole : chatLine sender.name.text line = snprintf (bufsiz + nameSize + 10)
      (sender.name.text ++ ascii [':', ' '] ++ line) ++ [0] := by
    have nameLength := sender.name.length_text_lt
    rw [snprintf, List.take_of_length_le, chatLine]
    simp only [List.length_append, ascii, List.length_map, List.length_cons, List.length_nil]
    omega
  have roomTest := sender.roomName.headD_eq_zero_iff
  simp only [broadcast, read, inArray, roomTest, roomWrites]
  by_cases nowhere : sender.roomName.text = []
  · simp only [nowhere, if_true]
    rfl
  · have sameRoom : (parent.clients.filter fun client =>
        client.isActive && decide (client.roomName.Matches sender.roomName.bytes)) =
        parent.clients.filter fun client =>
          decide (client.roomName.text = sender.roomName.text) := by
      apply List.filter_congr
      intro client member
      rw [active client member, Bool.true_and]
      simp only [NameField.matches_iff_text sender.roomName.terminated]
      rfl
    simp only [nowhere, if_false]
    rw [← sameRoom, whole]
    rfl

end Parent

end RaspberryPi.ChatServer
