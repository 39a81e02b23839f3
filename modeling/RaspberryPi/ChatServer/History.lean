import RaspberryPi.ChatServer.Server

/-! # What the tables owe to the history

Runs in which every read returns one complete record. The nickname and the room
of a client are functions of what was said since it joined, and a chat line
goes to the room of its sender. -/

namespace RaspberryPi.ChatServer

open CString

inductive HistoryEvent
  | joined (attempt : AcceptAttempt)
  | exited (pid : Pid)
  | left (reaped : List Pid)
  | said (pid : Pid) (content : Bytes)

/-- Events, the latest first. -/
abbrev History := List HistoryEvent

/-! ## The meaning of a history -/

def IsCommand (word line : Bytes) : Prop :=
  line.headD 0 = slash ∧ commandWord line = some word

instance (word line : Bytes) : Decidable (IsCommand word line) :=
  inferInstanceAs (Decidable (_ ∧ _))

def linesOf (pid : Pid) : History → List Bytes
  | [] => []
  | .joined attempt :: earlier =>
      if attempt.fork = some pid then [] else linesOf pid earlier
  | .said speaker content :: earlier =>
      if speaker = pid then linesOf pid earlier ++ [lineOf content] else linesOf pid earlier
  | .exited _ :: earlier | .left _ :: earlier => linesOf pid earlier

/-- A line that names a client: nonempty and not a command. -/
def namesSpeaker (line : Bytes) : Bool := line ≠ [] && line.headD 0 ≠ slash

def nicknameOf (pid : Pid) (history : History) : Bytes :=
  (((linesOf pid history).find? namesSpeaker).map Chat.stored).getD []

/-- The room of the latest `/join` of `pid`, unless it left or somebody removed
that room afterwards. -/
def roomOf (pid : Pid) : History → Bytes
  | [] => []
  | .joined attempt :: earlier =>
      if attempt.fork = some pid then [] else roomOf pid earlier
  | .said speaker content :: earlier =>
      let line := lineOf content
      if speaker = pid ∧ IsCommand Word.join line then
        Chat.stored (argument Word.join line)
      else if speaker = pid ∧ IsCommand Word.leave line then []
      else if IsCommand Word.rm line ∧ argument Word.rm line = roomOf pid earlier then []
      else roomOf pid earlier
  | .exited _ :: earlier | .left _ :: earlier => roomOf pid earlier

/-! ## The run -/

def IsRecord (pid : Pid) (content : Bytes) : Prop :=
  content ≠ [] ∧ 0 ∉ content ∧ (decimal pid ++ colon :: content ++ [0]).length < bufsiz

instance (pid : Pid) (content : Bytes) : Decidable (IsRecord pid content) :=
  inferInstanceAs (Decidable (_ ∧ _))

namespace Server

def hear (server : Server) (pid : Pid) (content : Bytes) :
    Option (Server × List Delivery) :=
  if IsRecord pid content then
    (server.parent.clients.findIdx? fun client => decide (client.pid = pid)).bind
      fun index => server.scanRead index (decimal pid ++ colon :: content ++ [0])
  else none

def nextHistory (server : Server) : HistoryEvent → Option Server
  | .joined attempt => if server.Refuses attempt then none else server.acceptClient attempt
  | .exited pid => server.exitChild pid
  | .left reaped => server.cleanActiveProcess reaped
  | .said pid content => (server.hear pid content).bind fun result =>
      if server.Survives result.2 then some result.1 else none

/-- Its runs end where a dispatch faults or a write ends the parent. -/
def historyMachine : Machine Server HistoryEvent := ⟨nextHistory⟩

theorem said_ok {server next : Server} {pid : Pid} {content : Bytes} :
    server.nextHistory (.said pid content) = some next ↔
      ∃ deliveries, server.hear pid content = some (next, deliveries) ∧
        server.Survives deliveries := by
  rw [nextHistory, Option.bind_eq_some_iff]
  constructor
  · rintro ⟨⟨heard, deliveries⟩, done, lives⟩
    split_ifs at lives with survives
    cases lives
    exact ⟨deliveries, done, survives⟩
  · rintro ⟨deliveries, done, survives⟩
    exact ⟨_, done, if_pos survives⟩

end Server

/-- The line is chat: its sender has a nickname, and it is no command. -/
structure Speaks (sender : PipeInfo) (line : Bytes) : Prop where
  named : sender.name.text ≠ []
  noSlash : line.headD 0 ≠ slash
  noBang : line.headD 0 ≠ bang

instance (sender : PipeInfo) (line : Bytes) : Decidable (Speaks sender line) :=
  decidable_of_iff
    (sender.name.text ≠ [] ∧ line.headD 0 ≠ slash ∧ line.headD 0 ≠ bang)
    ⟨fun speaks => ⟨speaks.1, speaks.2.1, speaks.2.2⟩,
      fun speaks => ⟨speaks.named, speaks.noSlash, speaks.noBang⟩⟩

/-- A bare `/join` or `/rm` has nothing behind its newline. -/
def NothingBehind (content : Bytes) : Prop :=
  lineOf content = slash :: Word.join ∨ lineOf content = slash :: Word.rm →
    afterLine content = []

instance (content : Bytes) : Decidable (NothingBehind content) :=
  inferInstanceAs (Decidable (_ → _))

/-! ## What a line does to a member -/

section Line

variable {line behind : Bytes} {sender : Pid} {unnamed : Bool} (member : Member)

theorem headD_append_nul (line behind : Bytes) :
    (line ++ 0 :: behind).headD 0 = line.headD 0 := by
  cases line <;> rfl

theorem requestOf_line (noNul : 0 ∉ line) :
    requestOf unnamed (line ++ 0 :: behind) =
      if line.headD 0 = slash then
        if commandWord line = some Word.add then
          .addRoom (argumentAt Word.add (line ++ 0 :: behind))
        else if commandWord line = some Word.join then
          .joinRoom (argumentAt Word.join (line ++ 0 :: behind))
        else if commandWord line = some Word.rm then
          .removeRoom (argumentAt Word.rm (line ++ 0 :: behind))
        else if commandWord line = some Word.leave then .leaveRoom
        else .other
      else if unnamed then .setName line
      else .other := by
  simp only [requestOf, headD_append_nul, text_append_nul behind noNul]

theorem nickname_effect (noNul : 0 ∉ line) :
    ((requestOf unnamed (line ++ 0 :: behind)).effect sender member).nickname =
      if member.pid = sender ∧ unnamed = true ∧ line.headD 0 ≠ slash then Chat.stored line
      else member.nickname := by
  rw [requestOf_line noNul]
  by_cases isSlash : line.headD 0 = slash
  · have keeps : ¬(member.pid = sender ∧ unnamed = true ∧ line.headD 0 ≠ slash) :=
      fun names => names.2.2 isSlash
    rw [if_pos isSlash, if_neg keeps]
    apply Request.nickname_effect
    intro name
    split_ifs <;> simp
  · rw [if_neg isSlash]
    cases unnamed with
    | false => simp [Request.effect]
    | true =>
        by_cases isSender : member.pid = sender
        · simp only [if_true, Request.effect, isSender, isSlash, ne_eq, not_false_eq_true,
            and_self]
          rfl
        · simp [Request.effect, isSender]

theorem room_effect (noNul : 0 ∉ line)
    (joins : IsCommand Word.join line →
      argumentAt Word.join (line ++ 0 :: behind) = argument Word.join line)
    (removes : IsCommand Word.rm line →
      argumentAt Word.rm (line ++ 0 :: behind) = argument Word.rm line) :
    ((requestOf unnamed (line ++ 0 :: behind)).effect sender member).room =
      if sender = member.pid ∧ IsCommand Word.join line then
        Chat.stored (argument Word.join line)
      else if sender = member.pid ∧ IsCommand Word.leave line then []
      else if IsCommand Word.rm line ∧ argument Word.rm line = member.room then []
      else member.room := by
  rw [requestOf_line noNul]
  by_cases isSlash : line.headD 0 = slash
  · rw [if_pos isSlash]
    simp only [IsCommand, isSlash, true_and] at joins removes ⊢
    generalize commandWord line = word at joins removes ⊢
    by_cases isJoin : word = some Word.join
    · subst isJoin
      have notRm : some Word.join ≠ some Word.rm := by decide
      rw [if_neg (by decide), if_pos rfl, joins rfl]
      simp only [Request.effect, eq_comm (a := sender), notRm, false_and, if_false]
      by_cases isSender : member.pid = sender
      · simp only [isSender, and_self, if_true]
        rfl
      · simp only [isSender, false_and, if_false]
    by_cases isRm : word = some Word.rm
    · subst isRm
      have notLeave : some Word.rm ≠ some Word.leave := by decide
      rw [if_neg (by decide), if_neg isJoin, if_pos rfl, removes rfl]
      simp only [Request.effect, isJoin, notLeave, and_false, if_false, true_and]
      by_cases isRoom : member.room = argument Word.rm line
      · simp only [isRoom, if_true]
        rfl
      · simp only [isRoom, Ne.symm isRoom, if_false]
    by_cases isLeave : word = some Word.leave
    · subst isLeave
      rw [if_neg (by decide), if_neg isJoin, if_neg isRm, if_pos rfl]
      simp only [Request.effect, isJoin, isRm, eq_comm (a := sender), and_false, false_and,
        and_true, if_false]
      split_ifs <;> rfl
    simp only [isJoin, isRm, isLeave, and_false, false_and, if_false]
    split_ifs <;> rfl
  · have noCommand : ∀ word, ¬IsCommand word line := fun word command => isSlash command.1
    rw [if_neg isSlash]
    simp only [noCommand, and_false, false_and, if_false]
    cases unnamed with
    | false => rfl
    | true =>
        simp only [if_true, Request.effect]
        split_ifs <;> rfl

theorem argumentAt_of_isCommand {word : Bytes} (noNul : 0 ∉ line)
    (command : IsCommand word line) (nothing : line = slash :: word → text behind = []) :
    argumentAt word (line ++ 0 :: behind) = argument word line := by
  rw [argumentAt_eq behind noNul command.2]
  by_cases bare : line.length = word.length + 1
  · rcases eq_of_commandWord command.2 with ⟨mark, _, equal | ⟨separator, _, full⟩⟩
    · have isSlash := command.1
      rw [equal] at isSlash
      have isMark : mark = slash := isSlash
      rw [if_pos bare, nothing (isMark ▸ equal), equal]
      simp [argument]
    · have length := congrArg List.length full
      simp only [List.length_cons, List.length_append] at length
      omega
  · rw [if_neg bare]

end Line

namespace Server

/-- A record of a client is dispatched with the rest of it behind its line. -/
theorem hear_eq_dispatch {before : Finset Fd} {server : Server}
    (holds : RegistryHolds before server) {pid : Pid} {content : Bytes}
    (isRecord : IsRecord pid content) {index : Nat} {child : PipeInfo}
    (position : (server.parent.clients.findIdx? fun client => decide (client.pid = pid)) =
      some index) (here : server.parent.clients[index]? = some child) :
    ∃ behind buffer, 0 ∈ behind ∧ text behind = afterLine content ∧
      server.hear pid content =
        ((server.parent.withBuffer buffer).dispatch index child pid
          (lineOf content ++ 0 :: behind)).toOption.map fun result =>
            ({ server with parent := result.1 }, result.2) := by
  rcases List.findIdx?_eq_some_iff_getElem.mp position with ⟨inRange, isPid, _⟩
  have sameChild : server.parent.clients[index] = child := by
    rw [List.getElem?_eq_getElem inRange, Option.some.injEq] at here
    exact here
  have childPid : child.pid = pid := by simpa [sameChild] using isPid
  have isClient := List.mem_of_getElem? here
  have pidInRange := holds.pidInRange isClient
  have noNul := zero_notMem_record pid isRecord.2.1
  have received : text (decimal pid ++ colon :: content ++ [0]) =
      decimal pid ++ colon :: content := text_append_nul [] noNul
  have nonempty : contentText (text (decimal pid ++ colon :: content ++ [0])) ≠ [] := by
    rw [received, contentText_record]
    exact isRecord.1
  rcases Parent.handleMessage_eq isRecord.2.2 here nonempty with
    ⟨behind, buffer, _, handled, whole⟩
  rcases whole _ rfl noNul with ⟨ends, behindText⟩
  rw [received, pidText_record, contentText_record, ← childPid, atoi_decimal pidInRange,
    childPid] at handled
  rw [contentText_record] at behindText
  refine ⟨behind, buffer, ends, behindText, ?_⟩
  have readable : child.isActive = true ∧ decimal pid ++ colon :: content ++ [0] ≠ [] ∧
      (decimal pid ++ colon :: content ++ [0]).length < bufsiz :=
    ⟨holds.isActive isClient, by simp, isRecord.2.2⟩
  rw [hear, if_pos isRecord, position, Option.bind_some, scanRead, here]
  dsimp only
  rw [if_pos readable, handled, Parent.withBuffer]
  cases Parent.dispatch _ index child pid (lineOf content ++ 0 :: behind) <;> rfl

theorem hear_ok {before : Finset Fd} {server next : Server} {pid : Pid} {content : Bytes}
    {deliveries : List Delivery} (holds : RegistryHolds before server)
    (done : server.hear pid content = some (next, deliveries)) :
    IsRecord pid content ∧ ∃ index child behind,
      server.parent.clients[index]? = some child ∧ child.pid = pid ∧
      text behind = afterLine content ∧
      server.parent.handleMessage index (decimal pid ++ colon :: content ++ [0]) =
        .ok (next.parent, deliveries) ∧
      next.parent.chat = server.parent.chat.serve index pid
        (requestOf (decide (child.name.text = [])) (lineOf content ++ 0 :: behind)) := by
  rw [hear] at done
  split_ifs at done with isRecord
  rcases Option.bind_eq_some_iff.mp done with ⟨index, position, read⟩
  rcases List.findIdx?_eq_some_iff_getElem.mp position with ⟨inRange, isPid, _⟩
  have childPid : server.parent.clients[index].pid = pid := by simpa using isPid
  have pidInRange := holds.pidInRange (List.getElem_mem inRange)
  rcases scanRead_ok read with ⟨_, fits, handled, _⟩
  rcases Parent.handleMessage_chat fits handled with
    ⟨child, behind, here, _, _, served, whole⟩
  have noNul := zero_notMem_record pid isRecord.2.1
  have received : text (decimal pid ++ colon :: content ++ [0]) =
      decimal pid ++ colon :: content := text_append_nul [] noNul
  rw [childPid] at pidInRange
  rw [received, pidText_record, contentText_record, atoi_decimal pidInRange] at served
  have sameChild : child = server.parent.clients[index] := by
    rw [List.getElem?_eq_getElem inRange, Option.some.injEq] at here
    exact here.symm
  refine ⟨isRecord, index, child, behind, here, sameChild ▸ childPid, ?_, handled, served⟩
  rw [whole _ rfl noNul, contentText_record]

/-- Every client has the nickname and the room that its history gives it. -/
def Recorded (history : History) (chat : Chat) : Prop :=
  ∀ member ∈ chat.members,
    member.nickname = nicknameOf member.pid history ∧ member.room = roomOf member.pid history

theorem nicknameOf_said (pid : Pid) (content : Bytes) (earlier : History) :
    nicknameOf pid (.said pid content :: earlier) =
      if nicknameOf pid earlier = [] ∧ (lineOf content).headD 0 ≠ slash then
        Chat.stored (lineOf content)
      else nicknameOf pid earlier := by
  have lines : linesOf pid (.said pid content :: earlier) =
      linesOf pid earlier ++ [lineOf content] := if_pos rfl
  rw [nicknameOf, nicknameOf, lines, List.find?_append]
  cases named : (linesOf pid earlier).find? namesSpeaker with
  | some first =>
      have names : first ≠ [] := by
        have accepted := List.find?_some named
        simp only [namesSpeaker, Bool.and_eq_true, decide_eq_true_eq] at accepted
        exact accepted.1
      have stays : Chat.stored first ≠ [] := by
        cases first with
        | nil => exact (names rfl).elim
        | cons byte rest => simp [Chat.stored, nameSize]
      simp [stays]
  | none =>
      cases lineOf content with
      | nil => simp [namesSpeaker, Chat.stored]
      | cons byte rest =>
          by_cases isSlash : byte = slash
          · simp [namesSpeaker, isSlash]
          · simp [namesSpeaker, isSlash]

theorem recorded_said {before : Finset Fd} {server next : Server} {pid : Pid}
    {content : Bytes} {deliveries : List Delivery} {history : History}
    (holds : RegistryHolds before server) (recorded : Recorded history server.parent.chat)
    (nothingBehind : NothingBehind content)
    (done : server.hear pid content = some (next, deliveries)) :
    Recorded (.said pid content :: history) next.parent.chat := by
  rcases hear_ok holds done with
    ⟨isRecord, index, child, behind, here, rfl, whole, _, served⟩
  have noNul : 0 ∉ lineOf content := zero_notMem_lineOf isRecord.2.1
  have senderHere : server.parent.chat.members[index]? = some child.member := by
    simp [Parent.chat, here]
  have senderName : child.name.text = nicknameOf child.pid history :=
    (recorded _ (List.mem_of_getElem? senderHere)).1
  have samePid : child.member.pid = child.pid := rfl
  have members := Chat.serve_members holds.members_distinct senderHere
    (requestOf (decide (child.name.text = [])) (lineOf content ++ 0 :: behind))
  intro member isMember
  rw [served] at isMember
  change member ∈ (server.parent.chat.serve index child.member.pid _).members at isMember
  rw [members] at isMember
  rcases List.mem_map.mp isMember with ⟨old, wasMember, rfl⟩
  rcases recorded old wasMember with ⟨nickname, room⟩
  rw [Request.pid_effect]
  constructor
  · rw [nickname_effect old noNul]
    by_cases isSender : old.pid = child.pid
    · have unnamed : decide (child.name.text = []) = true ↔
          nicknameOf child.pid history = [] := by
        rw [decide_eq_true_iff, senderName]
      rw [isSender, nicknameOf_said, nickname, isSender]
      simp only [unnamed, samePid, true_and]
    · have others : nicknameOf old.pid (.said child.pid content :: history) =
          nicknameOf old.pid history := by
        simp only [nicknameOf, linesOf, if_neg (Ne.symm isSender)]
      rw [others, ← nickname, if_neg fun names => isSender names.1]
  · have isBare : ∀ word, (word = Word.join ∨ word = Word.rm) →
        lineOf content = slash :: word → text behind = [] := by
      rintro word (rfl | rfl) bare
      · rw [whole, nothingBehind (Or.inl bare)]
      · rw [whole, nothingBehind (Or.inr bare)]
    rw [room_effect old noNul
      (fun command => argumentAt_of_isCommand noNul command (isBare _ (Or.inl rfl)))
      (fun command => argumentAt_of_isCommand noNul command (isBare _ (Or.inr rfl))), room]
    rfl

def RoomReads (server : Server) (speaker : PipeInfo) : Prop :=
  speaker.roomName.text ≠ [] → ∀ client ∈ server.parent.clients,
    client.roomName.text = speaker.roomName.text → client.pid ∉ server.exited

instance (server : Server) (speaker : PipeInfo) : Decidable (server.RoomReads speaker) :=
  inferInstanceAs (Decidable (_ → _))

/-- The condition on a step: no bare command with text behind it, and no chat line while
somebody who should get it has exited. -/
def Regular (server : Server) : HistoryEvent → Prop
  | .said pid content => NothingBehind content ∧ ∀ speaker ∈ server.parent.clients,
      speaker.pid = pid → Speaks speaker (lineOf content) → server.RoomReads speaker
  | .joined _ | .exited _ | .left _ => True

instance (server : Server) (event : HistoryEvent) : Decidable (server.Regular event) := by
  cases event <;> unfold Regular <;> infer_instance

theorem exists_next {server next : Server} {event : HistoryEvent}
    (step : server.nextHistory event = some next) :
    ∃ serverEvent, server.next serverEvent = some next := by
  cases event with
  | joined attempt =>
      simp only [nextHistory] at step
      split_ifs at step
      exact ⟨.accept attempt, step⟩
  | exited pid => exact ⟨.exit pid, step⟩
  | left reaped => exact ⟨.clean reaped, step⟩
  | said pid content =>
      rcases said_ok.mp step with ⟨deliveries, done, _⟩
      rw [hear] at done
      split_ifs at done
      rcases Option.bind_eq_some_iff.mp done with ⟨index, _, read⟩
      exact ⟨.read index _, Option.map_eq_some_iff.mpr ⟨_, read, rfl⟩⟩

theorem nextHistory_holds {before : Finset Fd} {server next : Server} {event : HistoryEvent}
    (holds : RegistryHolds before server) (step : server.nextHistory event = some next) :
    RegistryHolds before next := by
  rcases exists_next step with ⟨serverEvent, served⟩
  exact next_holds holds served

theorem joined_ok {before : Finset Fd} {server next : Server} {attempt : AcceptAttempt}
    (holds : RegistryHolds before server)
    (step : server.nextHistory (.joined attempt) = some next) :
    ∃ pid, attempt.fork = some pid ∧
      next.parent.chat = server.parent.chat.addClient pid ∧
      ∀ member ∈ server.parent.chat.members, attempt.fork ≠ some member.pid := by
  have distinct := (nextHistory_holds holds step).members_distinct
  simp only [nextHistory] at step
  split_ifs at step with refuses
  have follows : server.Follows next (.accept attempt) := next_follows holds step
  rcases follows with ⟨refused, _⟩ | ⟨_, pid, forked, admitted⟩
  · exact (refuses refused).elim
  · refine ⟨pid, forked, admitted, fun member isMember same => ?_⟩
    rw [admitted, Chat.addClient, List.map_append, List.nodup_append'] at distinct
    rw [forked, Option.some.injEq] at same
    exact distinct.2.2 (List.mem_map_of_mem isMember) (by simp [same])

theorem recorded_step {before : Finset Fd} {server next : Server} {event : HistoryEvent}
    {history : History} (holds : RegistryHolds before server)
    (recorded : Recorded history server.parent.chat) (regular : server.Regular event)
    (step : server.nextHistory event = some next) :
    Recorded (event :: history) next.parent.chat := by
  cases event with
  | joined attempt =>
      rcases joined_ok holds step with ⟨pid, forked, admitted, new⟩
      intro member isMember
      rw [admitted] at isMember
      rcases List.mem_append.mp isMember with old | added
      · simp only [nicknameOf, linesOf, roomOf, if_neg (new member old)]
        exact recorded member old
      · rw [List.mem_singleton.mp added]
        simp [nicknameOf, linesOf, roomOf, forked]
  | exited pid =>
      have follows : server.Follows next (.exit pid) := next_follows holds step
      have same : next.parent.chat = server.parent.chat := follows
      rw [same]
      exact recorded
  | left reaped =>
      have follows : server.Follows next (.clean reaped) := next_follows holds step
      have removed : next.parent.chat = server.parent.chat.remove reaped := follows
      rw [removed]
      exact fun member isMember => recorded member (List.mem_of_mem_filter isMember)
  | said pid content =>
      rcases said_ok.mp step with ⟨deliveries, done, _⟩
      exact recorded_said holds recorded regular.1 done

theorem recorded_run {buffer : MesgBuffer} {before : Finset Fd} {others : Finset Pid}
    {events : List HistoryEvent} {server : Server}
    (steps : historyMachine.StepsSatisfy Regular (boot buffer before others) events)
    (reached : historyMachine.run (boot buffer before others) events = some server) :
    RegistryHolds before server ∧ Recorded events.reverse server.parent.chat := by
  refine Machine.run_induction_of_steps (motive := fun events server =>
    RegistryHolds before server ∧ Recorded events.reverse server.parent.chat) ?_ ?_ steps reached
  · refine ⟨registryHolds_boot buffer before others, ?_⟩
    intro member isMember
    cases isMember
  · rintro events server event next _ ⟨holds, recorded⟩ regular step
    rw [List.reverse_append]
    exact ⟨nextHistory_holds holds step, recorded_step holds recorded regular step⟩

theorem nickname_step {before : Finset Fd} {server next : Server} {event : HistoryEvent}
    {history : History} (holds : RegistryHolds before server)
    (recorded : Recorded history server.parent.chat) (regular : server.Regular event)
    (step : server.nextHistory event = some next) {member kept : Member}
    (isMember : member ∈ server.parent.chat.members) (named : member.nickname ≠ [])
    (isKept : kept ∈ next.parent.chat.members) (samePid : kept.pid = member.pid) :
    kept.nickname = member.nickname := by
  have later := (recorded_step holds recorded regular step kept isKept).1
  have sooner := (recorded member isMember).1
  rw [later, sooner, samePid]
  rw [sooner] at named
  cases event with
  | joined attempt =>
      rcases joined_ok holds step with ⟨_, _, _, new⟩
      simp only [nicknameOf, linesOf, if_neg (new member isMember)]
  | exited pid => rfl
  | left reaped => rfl
  | said pid content =>
      by_cases isSpeaker : pid = member.pid
      · rw [isSpeaker, nicknameOf_said, if_neg fun unnamed => named unnamed.1]
      · simp only [nicknameOf, linesOf, if_neg isSpeaker]

/-- A chat line is heard, and written once to each client in the room of its sender. -/
theorem hear_chatLine {before : Finset Fd} {server : Server} {client : PipeInfo}
    {content : Bytes} (holds : RegistryHolds before server)
    (isClient : client ∈ server.parent.clients) (isRecord : IsRecord client.pid content)
    (speaks : Speaks client (lineOf content)) :
    ∃ next, server.hear client.pid content =
      some (next, server.parent.roomWrites client (lineOf content)) := by
  cases position : server.parent.clients.findIdx? fun other => decide (other.pid = client.pid) with
  | none =>
      have notHere := List.findIdx?_eq_none_iff.mp position client isClient
      simp at notHere
  | some index =>
      rcases List.findIdx?_eq_some_iff_getElem.mp position with ⟨inRange, isPid, _⟩
      have sameClient : server.parent.clients[index] = client :=
        List.inj_on_of_nodup_map holds.distinct (List.getElem_mem inRange) isClient
          (by simpa using isPid)
      have here : server.parent.clients[index]? = some client := by
        rw [List.getElem?_eq_getElem inRange, sameClient]
      rcases hear_eq_dispatch holds isRecord position here with ⟨behind, buffer, _, _, heard⟩
      have isNamed : ¬client.name.bytes.headD 0 = 0 :=
        mt client.name.headD_eq_zero_iff.mp speaks.named
      have noSlash := speaks.noSlash
      have noBang := speaks.noBang
      have fits : (lineOf content).length < bufsiz := by
        have shorter : (lineOf content).length ≤ content.length :=
          (List.takeWhile_sublist _).length_le
        have bound := isRecord.2.2
        simp only [List.length_append, List.length_cons] at bound
        omega
      have written : (server.parent.withBuffer buffer).broadcast client
          (lineOf content ++ 0 :: behind) =
            .ok (server.parent.roomWrites client (lineOf content)) :=
        Parent.broadcast_chatLine behind (zero_notMem_lineOf isRecord.2.1) fits
          fun _ => holds.isActive
      rw [← headD_append_nul _ behind] at noSlash noBang
      rw [Parent.dispatch, if_neg noSlash, if_neg isNamed, if_neg noBang, written] at heard
      exact ⟨_, heard⟩

theorem survives_roomWrites {server : Server} {speaker : PipeInfo}
    (reads : server.RoomReads speaker) (line : Bytes) :
    server.Survives (server.parent.roomWrites speaker line) := by
  rw [Parent.roomWrites]
  split_ifs with nowhere
  · simp [Survives]
  · intro delivery member kills
    rcases List.mem_map.mp member with ⟨client, inRoom, rfl⟩
    rcases List.mem_filter.mp inRoom with ⟨isClient, sameRoom⟩
    exact reads nowhere client isClient (of_decide_eq_true sameRoom) kills.1

/-- In a run of complete records, none of them a bare `/join` or `/rm` with text
behind it, the tables are what the history says; and a chat line goes to the room of its
sender, all of it, if nobody there has exited. -/
theorem history_run {buffer : MesgBuffer} {before : Finset Fd} {others : Finset Pid}
    {events : List HistoryEvent} {server : Server}
    (steps : historyMachine.StepsSatisfy Regular (boot buffer before others) events)
    (reached : historyMachine.run (boot buffer before others) events = some server) :
    (∀ client ∈ server.parent.clients,
      client.name.text = nicknameOf client.pid events.reverse ∧
      client.roomName.text = roomOf client.pid events.reverse) ∧
    (∀ event next, server.Regular event → server.nextHistory event = some next →
      ∀ client ∈ server.parent.clients, client.name.text ≠ [] →
        ∀ kept ∈ next.parent.clients, kept.pid = client.pid →
          kept.name.text = client.name.text) ∧
    ∀ client ∈ server.parent.clients, ∀ content, IsRecord client.pid content →
      server.Regular (.said client.pid content) → client.name.text ≠ [] →
      (lineOf content).headD 0 ≠ slash → (lineOf content).headD 0 ≠ bang →
      ∃ next deliveries, server.hear client.pid content = some (next, deliveries) ∧
        server.nextHistory (.said client.pid content) = some next ∧
        server.written deliveries = if client.roomName.text = [] then []
          else (server.parent.clients.filter fun other =>
            decide (other.roomName.text = client.roomName.text)).map fun other =>
              ⟨other.parentToChildWriteFd, chatLine client.name.text (lineOf content),
                other.pid⟩ := by
  rcases recorded_run steps reached with ⟨holds, recorded⟩
  refine ⟨?_, ?_, ?_⟩
  · intro client isClient
    exact recorded client.member (List.mem_map_of_mem isClient)
  · intro event next regular step client isClient named kept isKept samePid
    have isMember : client.member ∈ server.parent.chat.members :=
      List.mem_map_of_mem isClient
    have staysMember : kept.member ∈ next.parent.chat.members := List.mem_map_of_mem isKept
    exact nickname_step holds recorded regular step isMember named staysMember samePid
  · intro client isClient content isRecord regular named noSlash noBang
    have speaks : Speaks client (lineOf content) := ⟨named, noSlash, noBang⟩
    have survives := survives_roomWrites (regular.2 client isClient rfl speaks) (lineOf content)
    rcases hear_chatLine holds isClient isRecord speaks with ⟨next, heard⟩
    exact ⟨next, _, heard, said_ok.mpr ⟨_, heard, survives⟩, written_eq survives⟩

def nickAndRoom : List HistoryEvent :=
  [.joined ⟨4, [], some (5, 6), some (7, 8), true, some 100⟩,
    .said 100 (ascii ['a', 'n', 'n', '\n']), .said 100 (ascii ['/', 'j', 'o', 'i', 'n', ' ', 'x'])]

theorem history_run_nickAndRoom :
    ∃ server, historyMachine.run (boot .zeroed {0, 1, 2, 3} ∅) nickAndRoom = some server ∧
      ∀ client ∈ server.parent.clients,
        client.name.text = nicknameOf client.pid nickAndRoom.reverse ∧
        client.roomName.text = roomOf client.pid nickAndRoom.reverse := by
  have steps : historyMachine.StepsSatisfy Regular (boot .zeroed {0, 1, 2, 3} ∅) nickAndRoom := by
    decide +kernel
  have reached : historyMachine.run (boot .zeroed {0, 1, 2, 3} ∅) nickAndRoom = some _ := rfl
  exact ⟨_, reached, (history_run steps reached).1⟩

/-- Once a member of the room has exited, those behind it in the table are not written to. -/
example : ((historyMachine.run (boot .zeroed {0, 1, 2, 3} ∅)
    [.joined ⟨4, [], some (5, 6), some (7, 8), true, some 100⟩,
      .joined ⟨4, [], some (6, 7), some (9, 10), true, some 101⟩,
      .said 100 (ascii ['/', 'j', 'o', 'i', 'n', ' ', 'x']), .said 101 (ascii ['b', 'o', 'b']),
      .said 101 (ascii ['/', 'j', 'o', 'i', 'n', ' ', 'x']), .exited 100]).bind fun server =>
        (server.hear 101 (ascii ['h', 'i'])).map fun result =>
          (result.2.map Delivery.pid, (server.written result.2).map Delivery.pid)) =
      some ([100, 101], []) := by
  decide +kernel

/-- A bare `/join` takes its room from behind the newline. -/
theorem not_recorded_bareJoin :
    ¬∀ (buffer : MesgBuffer) (before : Finset Fd) (others : Finset Pid)
      (events : List HistoryEvent) (server : Server),
      historyMachine.run (boot buffer before others) events = some server →
      ∀ client ∈ server.parent.clients,
        client.roomName.text = roomOf client.pid events.reverse := by
  intro always
  have reached : historyMachine.run (boot .zeroed {0, 1, 2, 3} ∅)
      [.joined ⟨4, [], some (5, 6), some (7, 8), true, some 100⟩,
        .said 100 (ascii ['/', 'j', 'o', 'i', 'n', '\n', 'f', 'o', 'o'])] = some _ := rfl
  have room := always _ _ _ _ _ reached _ List.mem_cons_self
  exact absurd room (by decide)

end Server

end RaspberryPi.ChatServer
