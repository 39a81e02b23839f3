import RaspberryPi.ChatServer.RoomTable

/-! # Dispatch without faults

What each branch does with an argument that is part of the message, and when a
branch reads anything else. -/

namespace RaspberryPi.ChatServer

open CString

namespace Parent

/-! ## The handlers, given their argument as a string -/

def addNamed (parent : Parent) (name : Bytes) : Parent :=
  if free : parent.roomInfo.count < chatRoom then
    { parent with roomInfo := parent.roomInfo.push ⟨.ofCopy name⟩ free }
  else parent

def joinNamed (parent : Parent) (fromWho : Int) (name : Bytes) : Parent :=
  match parent.clientIdx fromWho with
  | some index =>
      { parent with
        activeChildren := parent.activeChildren.modify index fun client =>
          client.setRoomName name }
  | none => parent

def removeNamed (parent : Parent) (name : Bytes) : Parent :=
  let activeChildren := parent.activeChildren.updateAll fun client =>
    if client.roomName.text = name then client.clearRoomName else client
  match parent.rooms.findIdx? fun room => decide (room.name.text = name) with
  | some index =>
      { parent with activeChildren, roomInfo := parent.roomInfo.removeAt index }
  | none => { parent with activeChildren }

def setNamed (parent : Parent) (index : Nat) (name : Bytes) : Parent :=
  { parent with
    activeChildren := parent.activeChildren.modify index fun client => client.setName name }

def broadcastLine (parent : Parent) (sender : PipeInfo) (line : Bytes) : List Delivery :=
  if sender.roomName.bytes.headD 0 = 0 then []
  else (parent.clients.filter fun client =>
    client.isActive && client.roomName.Matches sender.roomName.bytes).map fun client =>
      ⟨client.parentToChildWriteFd, snprintf (bufsiz + nameSize + 10)
        (sender.name.text ++ ascii [':', ' '] ++ line) ++ [0], client.pid⟩

def whisperNamed (parent : Parent) (fromWho : Int) (origin : Bytes) :
    Except Fault (List Delivery) :=
  let first := strtok (origin ++ [0]) [space]
  match first.1 with
  | none => .error .uninitialisedRead
  | some userName =>
      let mesg := match (strtok first.2 []).1 with
        | some rest => text rest
        | none => []
      match parent.clientOf fromWho with
      | none => return []
      | some sender =>
          match parent.clients.find? fun client => client.name.Matches userName with
          | none => return []
          | some target => return [⟨target.parentToChildWriteFd,
              whisperMessage sender mesg, target.pid⟩]

variable {parent : Parent} {fromWho : Int} {content name behind : Bytes}

theorem addRoom_eq (noNul : 0 ∉ name)
    (found : content.drop (2 + Word.add.length) = name ++ 0 :: behind) :
    parent.addRoom content = .ok (parent.addNamed name) := by
  rw [addRoom, addNamed, found]
  by_cases free : parent.roomInfo.count < chatRoom
  · rw [dif_pos free, dif_pos free, strncpy_append _ _ noNul, ← NameField.ofCopy_take name]
    rfl
  · rw [dif_neg free, dif_neg free, readString_append _ noNul]
    rfl

theorem rooms_addNamed (room : parent.rooms.length < chatRoom) :
    (parent.addNamed name).rooms = parent.rooms ++ [⟨.ofCopy name⟩] := by
  have free : parent.roomInfo.count < chatRoom := by
    rw [← Table.length_entries]
    exact room
  rw [addNamed, dif_pos free]
  exact Table.entries_push _ _ free

theorem clients_addNamed (parent : Parent) (name : Bytes) :
    (parent.addNamed name).clients = parent.clients := by
  rw [addNamed]
  split_ifs
  · rfl
  · rfl

theorem joinRoom_eq (noNul : 0 ∉ name)
    (found : content.drop (2 + Word.join.length) = name ++ 0 :: behind) :
    parent.joinRoom fromWho content = .ok (parent.joinNamed fromWho name) := by
  rw [joinRoom, joinNamed, found]
  cases parent.clientIdx fromWho with
  | none => rfl
  | some index =>
      simp only [strncpy_append _ _ noNul, PipeInfo.setRoomName]
      rw [← NameField.ofCopy_take name]
      rfl

theorem matches_append (noNul : 0 ∉ name) (field : NameField) :
    field.Matches (name ++ 0 :: behind) ↔ field.text = name := by
  rw [NameField.matches_iff_text (by simp), text_append_nul behind noNul]

theorem strcmp_append_eq (noNul : 0 ∉ name) (field : NameField) :
    strcmp field.bytes (name ++ 0 :: behind) = some (decide (field.text = name)) := by
  rw [strcmp_eq field.terminated (by simp), text_append_nul behind noNul]
  rfl

theorem findRoom_eq (noNul : 0 ∉ name) (rooms : List RoomInfo) :
    findRoom (name ++ 0 :: behind) rooms =
      .ok (rooms.findIdx? fun room => decide (room.name.text = name)) := by
  induction rooms with
  | nil => rfl
  | cons room rest induction =>
      rw [findRoom, strcmp_append_eq noNul, induction, List.findIdx?_cons]
      by_cases same : room.name.text = name
      · simp only [same, decide_true]
        rfl
      · simp only [same, decide_false]
        rfl

theorem compare_all (noNul : 0 ∉ name) (clients : List PipeInfo) :
    (clients.forM fun client => do
      let _ ← inArray (strcmp client.roomName.bytes (name ++ 0 :: behind))) = .ok () := by
  induction clients with
  | nil => rfl
  | cons client rest induction =>
      rw [List.forM, strcmp_append_eq noNul]
      exact induction

theorem removeRoom_eq (noNul : 0 ∉ name)
    (found : content.drop (2 + Word.rm.length) = name ++ 0 :: behind) :
    parent.removeRoom content = .ok (parent.removeNamed name) := by
  rw [removeRoom, found]
  simp only [compare_all noNul, findRoom_eq noNul, matches_append noNul]
  rw [removeNamed]
  cases parent.rooms.findIdx? fun room => decide (room.name.text = name) with
  | none => rfl
  | some index => rfl

theorem listRooms_eq {client : PipeInfo} (known : parent.clientOf fromWho = some client) :
    parent.listRooms fromWho = .ok (parent.rooms.map fun room =>
      ⟨client.parentToChildWriteFd, room.name.text, client.pid⟩) := by
  rw [listRooms]
  by_cases none : parent.rooms = []
  · rw [if_pos none, none]
    rfl
  · rw [if_neg none, known]
    rfl

theorem whisper_eq (noNul : 0 ∉ name)
    (found : content.drop (2 + Word.whisper.length) = name ++ 0 :: behind) :
    parent.whisper fromWho content = parent.whisperNamed fromWho name := by
  rw [whisper, found, readString_append _ noNul]
  rfl

theorem broadcast_eq {sender : PipeInfo} (noNul : 0 ∉ name) :
    parent.broadcast sender (name ++ 0 :: behind) = .ok (parent.broadcastLine sender name) := by
  rw [broadcast, readString_append _ noNul, broadcastLine]
  by_cases nowhere : sender.roomName.bytes.headD 0 = 0
  · simp only [nowhere]
    rfl
  · simp only [nowhere]
    rfl

theorem setName_eq (index : Nat) (noNul : 0 ∉ name) :
    parent.setName index (name ++ 0 :: behind) = .ok (parent.setNamed index name) := by
  rw [setName, strncpy_append _ _ noNul, setNamed]
  simp only [PipeInfo.setName]
  rw [← NameField.ofCopy_take name]
  rfl

/-! ## Dispatch, branch by branch -/

theorem command_eq {line : Bytes} (noNul : 0 ∉ line) :
    parent.command fromWho (line ++ 0 :: behind) =
      if commandWord line = some Word.add then
        do return (← parent.addRoom (line ++ 0 :: behind), [])
      else if commandWord line = some Word.join then
        do return (← parent.joinRoom fromWho (line ++ 0 :: behind), [])
      else if commandWord line = some Word.rm then
        do return (← parent.removeRoom (line ++ 0 :: behind), [])
      else if commandWord line = some Word.list then
        do return (parent, ← parent.listRooms fromWho)
      else if commandWord line = some Word.leave then
        .ok (parent.leaveRoom fromWho, [])
      else if commandWord line = some Word.users then
        .ok (parent, parent.listUsers fromWho)
      else .ok (parent, []) := by
  have ends : 0 ∈ line ++ 0 :: behind := List.mem_append_right _ List.mem_cons_self
  rw [command_eq_of_terminated ends, text_append_nul behind noNul]

theorem dispatch_eq {line : Bytes} {index : Nat} {child : PipeInfo} (noNul : 0 ∉ line) :
    parent.dispatch index child fromWho (line ++ 0 :: behind) =
      if line.headD 0 = slash then parent.command fromWho (line ++ 0 :: behind)
      else if child.name.text = [] then .ok (parent.setNamed index line, [])
      else if line.headD 0 = bang then
        if commandWord line = some Word.whisper then
          do return (parent, ← parent.whisper fromWho (line ++ 0 :: behind))
        else .ok (parent, [])
      else .ok (parent, parent.broadcastLine child line) := by
  rw [dispatch, headD_append_nul]
  by_cases isSlash : line.headD 0 = slash
  · rw [if_pos isSlash, if_pos isSlash]
  rw [if_neg isSlash, if_neg isSlash]
  by_cases unnamed : child.name.text = []
  · rw [if_pos (child.name.headD_eq_zero_iff.mpr unnamed), if_pos unnamed,
      setName_eq index noNul]
    rfl
  rw [if_neg (mt child.name.headD_eq_zero_iff.mp unnamed), if_neg unnamed]
  by_cases isBang : line.headD 0 = bang
  · rw [if_pos isBang, if_pos isBang, checkCommand_eq behind noNul (by decide)]
    by_cases isWhisper : commandWord line = some Word.whisper
    · simp only [isWhisper]
      rfl
    · simp only [isWhisper]
      rfl
  · rw [if_neg isBang, if_neg isBang, broadcast_eq noNul]
    rfl

theorem dispatch_slash {line : Bytes} {index : Nat} {child : PipeInfo} (noNul : 0 ∉ line)
    (isSlash : line.headD 0 = slash) :
    parent.dispatch index child fromWho (line ++ 0 :: behind) =
      parent.command fromWho (line ++ 0 :: behind) := by
  rw [dispatch_eq noNul, if_pos isSlash]

/-! ## When a dispatch is free of faults -/

/-- The line has the argument that its branch looks for, and `/list` knows whom to answer. -/
structure WellFormed (parent : Parent) (child : PipeInfo) (fromWho : Int) (line : Bytes) :
    Prop where
  add : line ≠ slash :: Word.add
  join : line = slash :: Word.join → parent.clientIdx fromWho = none
  rm : line ≠ slash :: Word.rm
  list : IsCommand Word.list line → parent.rooms = [] ∨ parent.clientOf fromWho ≠ none
  whisper : child.name.text ≠ [] → line.headD 0 = bang →
    commandWord line = some Word.whisper → ∃ byte ∈ argument Word.whisper line, byte ≠ space

/-- Whatever stands behind the line in memory, or if its terminator is the last byte of
the array, the dispatch of the line does the same. -/
def FaultFree (parent : Parent) (index : Nat) (child : PipeInfo) (fromWho : Int)
    (line : Bytes) : Prop :=
  ∃ outcome, ∀ behind, parent.dispatch index child fromWho (line ++ 0 :: behind) = .ok outcome

variable {line : Bytes} {index : Nat} {child : PipeInfo}

theorem drop_argument {word : Bytes} (behind : Bytes) (command : IsCommand word line)
    (full : line ≠ slash :: word) :
    (line ++ 0 :: behind).drop (2 + word.length) = argument word line ++ 0 :: behind := by
  rw [drop_offset behind command.2, if_neg (mt (bare_iff command).mp full)]

theorem addRoom_bare : parent.addRoom (slash :: Word.add ++ [0]) = .error .pastEndOfArray := by
  rw [addRoom]
  by_cases free : parent.roomInfo.count < chatRoom
  · rw [dif_pos free]
    rfl
  · rw [dif_neg free]
    rfl

theorem joinRoom_bare {index : Nat} (known : parent.clientIdx fromWho = some index) :
    parent.joinRoom fromWho (slash :: Word.join ++ [0]) = .error .pastEndOfArray := by
  rw [joinRoom, known]
  rfl

theorem removeRoom_bare (here : parent.clients[index]? = some child) :
    parent.removeRoom (slash :: Word.rm ++ [0]) = .error .pastEndOfArray := by
  have nothing : (slash :: Word.rm ++ [0]).drop (2 + Word.rm.length) = [] := rfl
  have unread : ∀ field : NameField, strcmp field.bytes [] = none := by
    intro field
    cases field.bytes <;> rfl
  rw [removeRoom, nothing]
  cases clients : parent.clients with
  | nil =>
      rw [clients] at here
      cases here
  | cons client rest =>
      rw [List.forM, unread]
      rfl

theorem whisper_missing (noNul : 0 ∉ line) (found : commandWord line = some Word.whisper)
    (missing : ¬∃ byte ∈ argument Word.whisper line, byte ≠ space) :
    ∃ fault, parent.whisper fromWho (line ++ 0 :: []) = .error fault := by
  have offset := drop_offset [] found
  by_cases bare : line.length = Word.whisper.length + 1
  · rw [if_pos bare] at offset
    refine ⟨.pastEndOfArray, ?_⟩
    rw [whisper, offset]
    rfl
  · rw [if_neg bare] at offset
    have spaces : ∀ byte ∈ argument Word.whisper line, byte = space := by
      intro byte member
      by_contra other
      exact missing ⟨byte, member, other⟩
    have argumentNoNul := zero_notMem_argument Word.whisper noNul
    have noToken := (strtok_eq_none_iff [] argumentNoNul (by decide)).mpr spaces
    refine ⟨.uninitialisedRead, ?_⟩
    rw [whisper_eq argumentNoNul offset, whisperNamed]
    simp only [noToken]

theorem whisper_served (fromWho : Int) (noNul : 0 ∉ line)
    (present : ∃ byte ∈ argument Word.whisper line, byte ≠ space)
    (found : commandWord line = some Word.whisper) :
    ∃ deliveries, ∀ behind, parent.whisper fromWho (line ++ 0 :: behind) = .ok deliveries := by
  have full : line.length ≠ Word.whisper.length + 1 := by
    intro bare
    rcases present with ⟨byte, member, _⟩
    rw [argument, List.drop_eq_nil_iff.mpr (by omega)] at member
    exact List.not_mem_nil member
  have argumentNoNul := zero_notMem_argument Word.whisper noNul
  have token : (strtok (argument Word.whisper line ++ [0]) [space]).1 ≠ none := by
    rw [ne_eq, strtok_eq_none_iff [] argumentNoNul (by decide)]
    intro spaces
    rcases present with ⟨byte, member, other⟩
    exact other (spaces byte member)
  have evaluated : ∃ deliveries,
      parent.whisperNamed fromWho (argument Word.whisper line) = .ok deliveries := by
    rw [whisperNamed]
    dsimp only
    split
    · rename_i none
      exact absurd none token
    · split
      · exact ⟨_, rfl⟩
      · split
        · exact ⟨_, rfl⟩
        · exact ⟨_, rfl⟩
  rcases evaluated with ⟨deliveries, served⟩
  refine ⟨deliveries, fun behind => ?_⟩
  have offset := drop_offset behind found
  rw [if_neg full] at offset
  rw [whisper_eq argumentNoNul offset, served]

/-- A dispatch that never faults does not fault when the terminator is the last byte. -/
theorem FaultFree.not_error (free : parent.FaultFree index child fromWho line) (fault : Fault) :
    parent.dispatch index child fromWho (line ++ [0]) ≠ .error fault := by
  rcases free with ⟨outcome, served⟩
  rw [served []]
  exact fun same => nomatch same

theorem wellFormed_of_faultFree (noNul : 0 ∉ line) (here : parent.clients[index]? = some child)
    (free : parent.FaultFree index child fromWho line) :
    parent.WellFormed child fromWho line := by
  have noError := free.not_error
  constructor
  · rintro rfl
    apply noError .pastEndOfArray
    rw [dispatch_slash noNul rfl, command_eq noNul, if_pos (by decide), addRoom_bare]
    rfl
  · rintro rfl
    by_contra known
    rcases Option.ne_none_iff_exists'.mp known with ⟨position, found⟩
    apply noError .pastEndOfArray
    rw [dispatch_slash noNul rfl, command_eq noNul, if_neg (by decide),
      if_pos (by decide), joinRoom_bare found]
    rfl
  · rintro rfl
    apply noError .pastEndOfArray
    rw [dispatch_slash noNul rfl, command_eq noNul, if_neg (by decide),
      if_neg (by decide), if_pos (by decide), removeRoom_bare here]
    rfl
  · rintro ⟨isSlash, isList⟩
    by_contra unknown
    rw [not_or, not_not] at unknown
    apply noError .indexOutOfRange
    rw [dispatch_slash noNul isSlash, command_eq noNul, isList, if_neg (by decide),
      if_neg (by decide), if_neg (by decide), if_pos rfl, listRooms, if_neg unknown.1,
      unknown.2]
    rfl
  · intro named isBang isWhisper
    by_contra missing
    have notSlash : ¬line.headD 0 = slash := by
      rw [isBang]
      decide
    rcases whisper_missing noNul isWhisper missing with ⟨fault, failed⟩
    apply noError fault
    rw [dispatch_eq noNul, if_neg notSlash, if_neg named, if_pos isBang, if_pos isWhisper,
      failed]
    rfl

theorem joinRoom_served (noNul : 0 ∉ line) (isJoin : IsCommand Word.join line)
    (bare : line = slash :: Word.join → parent.clientIdx fromWho = none) :
    ∃ next, ∀ behind, parent.joinRoom fromWho (line ++ 0 :: behind) = .ok next := by
  by_cases isBare : line = slash :: Word.join
  · refine ⟨parent, fun behind => ?_⟩
    rw [joinRoom, bare isBare]
    rfl
  · refine ⟨parent.joinNamed fromWho (argument Word.join line), fun behind => ?_⟩
    have found := drop_argument behind isJoin isBare
    exact joinRoom_eq (zero_notMem_argument _ noNul) found

theorem listRooms_served (answers : parent.rooms = [] ∨ parent.clientOf fromWho ≠ none) :
    ∃ deliveries, parent.listRooms fromWho = .ok deliveries := by
  rcases answers with none | known
  · rw [listRooms, if_pos none]
    exact ⟨_, rfl⟩
  · rcases Option.ne_none_iff_exists'.mp known with ⟨client, found⟩
    exact ⟨_, listRooms_eq found⟩

theorem command_served (noNul : 0 ∉ line) (isSlash : line.headD 0 = slash)
    (wellFormed : parent.WellFormed child fromWho line) :
    ∃ outcome, ∀ behind, parent.command fromWho (line ++ 0 :: behind) = .ok outcome := by
  by_cases isAdd : commandWord line = some Word.add
  · refine ⟨(parent.addNamed (argument Word.add line), []), fun behind => ?_⟩
    have found := drop_argument behind ⟨isSlash, isAdd⟩ wellFormed.add
    rw [command_eq noNul, if_pos isAdd, addRoom_eq (zero_notMem_argument _ noNul) found]
    rfl
  by_cases isJoin : commandWord line = some Word.join
  · rcases joinRoom_served noNul ⟨isSlash, isJoin⟩ wellFormed.join with ⟨next, served⟩
    refine ⟨(next, []), fun behind => ?_⟩
    rw [command_eq noNul, if_neg isAdd, if_pos isJoin, served]
    rfl
  by_cases isRm : commandWord line = some Word.rm
  · refine ⟨(parent.removeNamed (argument Word.rm line), []), fun behind => ?_⟩
    have found := drop_argument behind ⟨isSlash, isRm⟩ wellFormed.rm
    rw [command_eq noNul, if_neg isAdd, if_neg isJoin, if_pos isRm,
      removeRoom_eq (zero_notMem_argument _ noNul) found]
    rfl
  by_cases isList : commandWord line = some Word.list
  · rcases listRooms_served (wellFormed.list ⟨isSlash, isList⟩) with ⟨deliveries, served⟩
    refine ⟨(parent, deliveries), fun behind => ?_⟩
    rw [command_eq noNul, if_neg isAdd, if_neg isJoin, if_neg isRm, if_pos isList, served]
    rfl
  by_cases isLeave : commandWord line = some Word.leave
  · refine ⟨(parent.leaveRoom fromWho, []), fun behind => ?_⟩
    rw [command_eq noNul, if_neg isAdd, if_neg isJoin, if_neg isRm, if_neg isList,
      if_pos isLeave]
  by_cases isUsers : commandWord line = some Word.users
  · refine ⟨(parent, parent.listUsers fromWho), fun behind => ?_⟩
    rw [command_eq noNul, if_neg isAdd, if_neg isJoin, if_neg isRm, if_neg isList,
      if_neg isLeave, if_pos isUsers]
  refine ⟨(parent, []), fun behind => ?_⟩
  rw [command_eq noNul, if_neg isAdd, if_neg isJoin, if_neg isRm, if_neg isList,
    if_neg isLeave, if_neg isUsers]

theorem faultFree_of_wellFormed (noNul : 0 ∉ line)
    (wellFormed : parent.WellFormed child fromWho line) :
    parent.FaultFree index child fromWho line := by
  by_cases isSlash : line.headD 0 = slash
  · rcases command_served noNul isSlash wellFormed with ⟨outcome, served⟩
    refine ⟨outcome, fun behind => ?_⟩
    rw [dispatch_slash noNul isSlash, served]
  by_cases unnamed : child.name.text = []
  · refine ⟨(parent.setNamed index line, []), fun behind => ?_⟩
    rw [dispatch_eq noNul, if_neg isSlash, if_pos unnamed]
  by_cases isBang : line.headD 0 = bang
  · by_cases isWhisper : commandWord line = some Word.whisper
    · rcases whisper_served fromWho noNul
        (wellFormed.whisper unnamed isBang isWhisper) isWhisper with ⟨deliveries, served⟩
      refine ⟨(parent, deliveries), fun behind => ?_⟩
      rw [dispatch_eq noNul, if_neg isSlash, if_neg unnamed, if_pos isBang, if_pos isWhisper,
        served]
      rfl
    · refine ⟨(parent, []), fun behind => ?_⟩
      rw [dispatch_eq noNul, if_neg isSlash, if_neg unnamed, if_pos isBang, if_neg isWhisper]
  · refine ⟨(parent, parent.broadcastLine child line), fun behind => ?_⟩
    rw [dispatch_eq noNul, if_neg isSlash, if_neg unnamed, if_neg isBang]

/-- The dispatch of a line that was read from the pipe of `child` is free of faults exactly
if the line has the argument its branch looks for and, for `/list`, there is no room or the
pid is that of a client. -/
theorem faultFree_iff (here : parent.clients[index]? = some child) (fromWho : Int)
    (noNul : 0 ∉ line) :
    parent.FaultFree index child fromWho line ↔ parent.WellFormed child fromWho line :=
  ⟨wellFormed_of_faultFree noNul here, faultFree_of_wellFormed noNul⟩

end Parent

namespace Server

def oneRoom : List Event :=
  [.accept ⟨4, [], some (5, 6), some (7, 8), true, some 100⟩,
    .read 0 (ascii ['1', '0', '0', ':', '/', 'a', 'd', 'd', ' ', 'x'] ++ [0])]

end Server

namespace Parent

theorem faultFree_iff_oneRoom :
    ∃ server child, Server.machine.run (Server.boot .zeroed {0, 1, 2, 3} ∅) Server.oneRoom =
        some server ∧ server.parent.clients[0]? = some child ∧
      (server.parent.FaultFree 0 child 100 (slash :: Word.list) ↔
        server.parent.WellFormed child 100 (slash :: Word.list)) := by
  have reached : Server.machine.run (Server.boot .zeroed {0, 1, 2, 3} ∅) Server.oneRoom =
    some _ := rfl
  exact ⟨_, _, reached, rfl, faultFree_iff rfl 100 (by decide)⟩

/-- Its next message claims the pid of nobody and asks for the list. -/
theorem not_faultFree_unknownPid :
    ∃ server child, Server.machine.run (Server.boot .zeroed {0, 1, 2, 3} ∅) Server.oneRoom =
        some server ∧ server.parent.clients[0]? = some child ∧
      ¬server.parent.FaultFree 0 child 7 (slash :: Word.list) := by
  have reached : Server.machine.run (Server.boot .zeroed {0, 1, 2, 3} ∅) Server.oneRoom =
    some _ := rfl
  refine ⟨_, _, reached, rfl, fun free => free.not_error .indexOutOfRange ?_⟩
  rfl

end Parent

end RaspberryPi.ChatServer
