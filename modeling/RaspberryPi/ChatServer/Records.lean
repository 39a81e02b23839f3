import RaspberryPi.ChatServer.FaultFree

/-! # The dispatch of a complete record

Behind a line that came in a complete record stands the rest of that record, so
every argument is a string of the record and nothing older in `mesg_buffer`
matters. -/

namespace RaspberryPi.ChatServer

open CString

def argumentFrom (word line after : Bytes) : Bytes :=
  if line.length = word.length + 1 then after else argument word line

theorem zero_notMem_argumentFrom (word : Bytes) {line after : Bytes} (noNul : 0 ∉ line)
    (afterNoNul : 0 ∉ after) : 0 ∉ argumentFrom word line after := by
  rw [argumentFrom]
  split_ifs
  · exact afterNoNul
  · exact zero_notMem_argument word noNul

theorem drop_eq_argumentFrom {word line behind : Bytes} (found : commandWord line = some word)
    (ends : 0 ∈ behind) :
    ∃ rest, (line ++ 0 :: behind).drop (2 + word.length) =
      argumentFrom word line (text behind) ++ 0 :: rest := by
  rw [drop_offset behind found, argumentFrom]
  split_ifs
  · exact exists_eq_text_append ends
  · exact ⟨behind, rfl⟩

namespace Parent

def commandLine (parent : Parent) (fromWho : Int) (line after : Bytes) : Outcome :=
  if commandWord line = some Word.add then
    .ok (parent.addNamed (argumentFrom Word.add line after), [])
  else if commandWord line = some Word.join then
    .ok (parent.joinNamed fromWho (argumentFrom Word.join line after), [])
  else if commandWord line = some Word.rm then
    .ok (parent.removeNamed (argumentFrom Word.rm line after), [])
  else if commandWord line = some Word.list then
    (parent.listRooms fromWho).map fun deliveries => (parent, deliveries)
  else if commandWord line = some Word.leave then .ok (parent.leaveRoom fromWho, [])
  else if commandWord line = some Word.users then .ok (parent, parent.listUsers fromWho)
  else .ok (parent, [])

/-- The dispatch of a line with the rest of its record behind it. -/
def dispatchLine (parent : Parent) (index : Nat) (child : PipeInfo) (fromWho : Int)
    (line after : Bytes) : Outcome :=
  if line.headD 0 = slash then parent.commandLine fromWho line after
  else if child.name.text = [] then .ok (parent.setNamed index line, [])
  else if line.headD 0 = bang then
    if commandWord line = some Word.whisper then
      (parent.whisperNamed fromWho (argumentFrom Word.whisper line after)).map
        fun deliveries => (parent, deliveries)
    else .ok (parent, [])
  else .ok (parent, parent.broadcastLine child line)

variable {parent : Parent} {fromWho : Int} {line behind : Bytes}

theorem command_eq_commandLine (noNul : 0 ∉ line) (ends : 0 ∈ behind) :
    parent.command fromWho (line ++ 0 :: behind) =
      parent.commandLine fromWho line (text behind) := by
  have argumentNoNul := fun word =>
    zero_notMem_argumentFrom word noNul (zero_notMem_text behind)
  rw [command_eq noNul, commandLine]
  by_cases isAdd : commandWord line = some Word.add
  · rcases drop_eq_argumentFrom isAdd ends with ⟨rest, found⟩
    rw [if_pos isAdd, if_pos isAdd, addRoom_eq (argumentNoNul _) found]
    rfl
  rw [if_neg isAdd, if_neg isAdd]
  by_cases isJoin : commandWord line = some Word.join
  · rcases drop_eq_argumentFrom isJoin ends with ⟨rest, found⟩
    rw [if_pos isJoin, if_pos isJoin, joinRoom_eq (argumentNoNul _) found]
    rfl
  rw [if_neg isJoin, if_neg isJoin]
  by_cases isRm : commandWord line = some Word.rm
  · rcases drop_eq_argumentFrom isRm ends with ⟨rest, found⟩
    rw [if_pos isRm, if_pos isRm, removeRoom_eq (argumentNoNul _) found]
    rfl
  rw [if_neg isRm, if_neg isRm]
  by_cases isList : commandWord line = some Word.list
  · rw [if_pos isList, if_pos isList]
    cases parent.listRooms fromWho <;> rfl
  rw [if_neg isList, if_neg isList]

theorem dispatch_eq_dispatchLine (index : Nat) (child : PipeInfo) (noNul : 0 ∉ line)
    (ends : 0 ∈ behind) :
    parent.dispatch index child fromWho (line ++ 0 :: behind) =
      parent.dispatchLine index child fromWho line (text behind) := by
  rw [dispatch_eq noNul, dispatchLine, command_eq_commandLine noNul ends]
  by_cases isWhisper : commandWord line = some Word.whisper
  · rcases drop_eq_argumentFrom isWhisper ends with ⟨rest, found⟩
    have argumentNoNul := zero_notMem_argumentFrom Word.whisper noNul (zero_notMem_text behind)
    rw [if_pos isWhisper, if_pos isWhisper, whisper_eq argumentNoNul found]
    cases parent.whisperNamed fromWho (argumentFrom Word.whisper line (text behind)) <;> rfl
  · rw [if_neg isWhisper, if_neg isWhisper]

/-! ## The buffer does not matter -/

def outcomeWithBuffer (buffer : MesgBuffer) (outcome : Outcome) : Outcome :=
  outcome.map fun result => (result.1.withBuffer buffer, result.2)

variable (buffer : MesgBuffer)

theorem addNamed_withBuffer (name : Bytes) :
    (parent.withBuffer buffer).addNamed name = (parent.addNamed name).withBuffer buffer := by
  by_cases free : parent.roomInfo.count < chatRoom
  · rw [addNamed, dif_pos (show (parent.withBuffer buffer).roomInfo.count < chatRoom from free),
      addNamed, dif_pos free]
    rfl
  · rw [addNamed, dif_neg (show ¬(parent.withBuffer buffer).roomInfo.count < chatRoom from free),
      addNamed, dif_neg free]

theorem joinNamed_withBuffer (name : Bytes) :
    (parent.withBuffer buffer).joinNamed fromWho name =
      (parent.joinNamed fromWho name).withBuffer buffer := by
  have same : (parent.withBuffer buffer).clientIdx fromWho = parent.clientIdx fromWho := rfl
  rw [joinNamed, joinNamed, same]
  cases parent.clientIdx fromWho <;> rfl

theorem leaveRoom_withBuffer :
    (parent.withBuffer buffer).leaveRoom fromWho =
      (parent.leaveRoom fromWho).withBuffer buffer := by
  have same : (parent.withBuffer buffer).clientIdx fromWho = parent.clientIdx fromWho := rfl
  rw [leaveRoom, leaveRoom, same]
  cases parent.clientIdx fromWho <;> rfl

theorem removeNamed_withBuffer (name : Bytes) :
    (parent.withBuffer buffer).removeNamed name =
      (parent.removeNamed name).withBuffer buffer := by
  have same : (parent.withBuffer buffer).rooms = parent.rooms := rfl
  rw [removeNamed, removeNamed, same]
  cases parent.rooms.findIdx? fun room => decide (room.name.text = name) <;> rfl

theorem commandLine_withBuffer (after : Bytes) :
    (parent.withBuffer buffer).commandLine fromWho line after =
      outcomeWithBuffer buffer (parent.commandLine fromWho line after) := by
  have sameList : (parent.withBuffer buffer).listRooms fromWho = parent.listRooms fromWho := rfl
  rw [commandLine, commandLine, addNamed_withBuffer, joinNamed_withBuffer,
    removeNamed_withBuffer, leaveRoom_withBuffer, sameList]
  split_ifs
  · rfl
  · rfl
  · rfl
  · cases parent.listRooms fromWho <;> rfl
  · rfl
  · rfl
  · rfl

theorem dispatchLine_withBuffer (index : Nat) (child : PipeInfo) (after : Bytes) :
    (parent.withBuffer buffer).dispatchLine index child fromWho line after =
      outcomeWithBuffer buffer (parent.dispatchLine index child fromWho line after) := by
  have sameWhisper : (parent.withBuffer buffer).whisperNamed fromWho =
      parent.whisperNamed fromWho := rfl
  rw [dispatchLine, dispatchLine, commandLine_withBuffer, sameWhisper]
  split_ifs
  · rfl
  · rfl
  · cases parent.whisperNamed fromWho (argumentFrom Word.whisper line after) <;> rfl
  · rfl
  · rfl

end Parent

namespace Server

def withBuffer (server : Server) (buffer : MesgBuffer) : Server :=
  { server with parent := server.parent.withBuffer buffer }

theorem hear_eq {before : Finset Fd} {server : Server} (holds : RegistryHolds before server)
    {pid : Pid} {content : Bytes} (isRecord : IsRecord pid content) {index : Nat}
    {child : PipeInfo}
    (position : (server.parent.clients.findIdx? fun client => decide (client.pid = pid)) =
      some index) (here : server.parent.clients[index]? = some child) :
    ∃ buffer, server.hear pid content =
      (server.parent.dispatchLine index child pid (lineOf content)
        (afterLine content)).toOption.map fun result =>
          ({ server with parent := result.1.withBuffer buffer }, result.2) := by
  rcases hear_eq_dispatch holds isRecord position here with
    ⟨behind, buffer, ends, behindText, heard⟩
  refine ⟨buffer, ?_⟩
  rw [heard, Parent.dispatch_eq_dispatchLine index child (zero_notMem_lineOf isRecord.2.1) ends,
    behindText, Parent.dispatchLine_withBuffer]
  cases server.parent.dispatchLine index child pid (lineOf content) (afterLine content) <;> rfl

/-! ## Servers that differ in their buffer -/

variable (buffer : MesgBuffer)

theorem removeChild_withBuffer (server : Server) (pid : Pid) :
    (server.withBuffer buffer).removeChild pid = (server.removeChild pid).withBuffer buffer := by
  have same : (server.withBuffer buffer).parent.clients = server.parent.clients := rfl
  rw [removeChild, removeChild, same]
  cases server.parent.clients.findIdx? fun client => decide (client.pid = pid) <;> rfl

theorem cleanActiveProcess_withBuffer (reaped : List Pid) (server : Server) :
    (server.withBuffer buffer).cleanActiveProcess reaped =
      (server.cleanActiveProcess reaped).map fun next => next.withBuffer buffer := by
  induction reaped generalizing server with
  | nil =>
      rw [cleanActiveProcess, cleanActiveProcess]
      by_cases none : server.exited = ∅
      · rw [if_pos (show (server.withBuffer buffer).exited = ∅ from none), if_pos none]
        rfl
      · rw [if_neg (show ¬(server.withBuffer buffer).exited = ∅ from none), if_neg none]
        rfl
  | cons pid reaped induction =>
      rw [cleanActiveProcess, cleanActiveProcess, reapChild, reapChild]
      by_cases exited : pid ∈ server.exited
      · have removed : ((server.withBuffer buffer).waited pid).removeChild pid =
            ((server.waited pid).removeChild pid).withBuffer buffer :=
          removeChild_withBuffer buffer (server.waited pid) pid
        rw [if_pos (show pid ∈ (server.withBuffer buffer).exited from exited), if_pos exited,
          removed]
        exact induction _
      · rw [if_neg (show ¬pid ∈ (server.withBuffer buffer).exited from exited), if_neg exited]
        rfl

theorem exitChild_withBuffer (server : Server) (pid : Pid) :
    (server.withBuffer buffer).exitChild pid =
      (server.exitChild pid).map fun next => next.withBuffer buffer := by
  rw [exitChild, exitChild, apply_ite (Option.map fun next : Server => next.withBuffer buffer)]
  rfl

theorem opened_withBuffer (server : Server) (fds : List Fd) :
    (server.withBuffer buffer).opened fds = (server.opened fds).withBuffer buffer := rfl

theorem openFds_withBuffer (server : Server) :
    (server.withBuffer buffer).openFds = server.openFds := rfl

theorem activeChildren_withBuffer (server : Server) :
    (server.withBuffer buffer).parent.activeChildren = server.parent.activeChildren := rfl

theorem freshPid_withBuffer (server : Server) (pid : Pid) :
    (server.withBuffer buffer).FreshPid pid ↔ server.FreshPid pid := Iff.rfl

theorem registerChild_withBuffer (server : Server) (csock : Fd) (parentPfd childPfd : Fd × Fd)
    (pid : Pid) :
    (server.withBuffer buffer).registerChild csock parentPfd childPfd pid =
      (server.registerChild csock parentPfd childPfd pid).withBuffer buffer := by
  have sameCount :
      ((server.withBuffer buffer).closed [csock, parentPfd.1, childPfd.2]).parent.activeChildren =
        (server.closed [csock, parentPfd.1, childPfd.2]).parent.activeChildren := rfl
  by_cases free : (server.closed [csock, parentPfd.1, childPfd.2]).parent.activeChildren.count <
    maxClient
  · rw [registerChild, registerChild, dif_pos free, dif_pos (sameCount ▸ free)]
    rfl
  · rw [registerChild, registerChild, dif_neg free, dif_neg (sameCount ▸ free)]
    rfl

theorem forkChild_withBuffer (server : Server) (attempt : AcceptAttempt)
    (parentPfd childPfd : Fd × Fd) :
    (server.withBuffer buffer).forkChild attempt parentPfd childPfd =
      (server.forkChild attempt parentPfd childPfd).map fun next => next.withBuffer buffer := by
  simp only [forkChild, freshPid_withBuffer, registerChild_withBuffer]
  split_ifs
  · rfl
  cases attempt.fork with
  | none => rfl
  | some pid =>
      dsimp only
      split_ifs
      · rfl
      · rfl

theorem createParentPipe_withBuffer (server : Server) (attempt : AcceptAttempt)
    (childPfd : Fd × Fd) :
    (server.withBuffer buffer).createParentPipe attempt childPfd =
      (server.createParentPipe attempt childPfd).map fun next => next.withBuffer buffer := by
  simp only [createParentPipe, openFds_withBuffer, opened_withBuffer, forkChild_withBuffer]
  cases attempt.parentPfd with
  | none => rfl
  | some parentPfd =>
      dsimp only
      split_ifs
      · rfl
      · rfl

theorem createPipes_withBuffer (server : Server) (attempt : AcceptAttempt) :
    (server.withBuffer buffer).createPipes attempt =
      (server.createPipes attempt).map fun next => next.withBuffer buffer := by
  simp only [createPipes, openFds_withBuffer, opened_withBuffer, createParentPipe_withBuffer]
  cases attempt.childPfd with
  | none => rfl
  | some childPfd =>
      dsimp only
      split_ifs
      · rfl
      · rfl

/-- The peer's address is all that an accept stores in the buffer. -/
theorem acceptClient_withBuffer (server : Server) (attempt : AcceptAttempt) :
    (server.withBuffer buffer).acceptClient attempt =
      (server.acceptClient attempt).map fun next =>
        next.withBuffer (buffer.store (attempt.address ++ [0])) := by
  have stored : ((server.withBuffer buffer).opened [attempt.csock]).storeAddress
      attempt.address = ((server.opened [attempt.csock]).storeAddress attempt.address).withBuffer
        (buffer.store (attempt.address ++ [0])) := rfl
  simp only [acceptClient, openFds_withBuffer, stored, activeChildren_withBuffer,
    createPipes_withBuffer]
  split_ifs
  · rfl
  · rfl
  · rfl

end Server

end RaspberryPi.ChatServer
