import RaspberryPi.ChatServer.History

/-! # The room table

The list of rooms is what the `/add` and `/rm` lines make of it, except where one
of them has no argument and there is text behind its newline. -/

namespace RaspberryPi.ChatServer

open CString

def roomsAfter (rooms : List Bytes) (line : Bytes) : List Bytes :=
  if IsCommand Word.add line then
    if rooms.length < chatRoom then rooms ++ [Chat.stored (argument Word.add line)] else rooms
  else if IsCommand Word.rm line then rooms.erase (argument Word.rm line)
  else rooms

def dispatchedLine (received : Bytes) : Bytes := lineOf (contentText (text received))

namespace Server

def observeRooms (rooms : List Bytes) : Event → List Bytes
  | .read _ received => roomsAfter rooms (dispatchedLine received)
  | .accept _ | .exit _ | .clean _ => rooms

def withRooms : Machine (Server × List Bytes) Event := machine.observed observeRooms

def Terminated (bytes : Bytes) : Prop := bytes.length = nameSize ∧ 0 ∈ bytes

/-- The table of rooms is what it has to be. -/
structure RoomTable (state : Server × List Bytes) : Prop where
  rooms : (state.1.parent.rooms.map fun room => room.name.text) = state.2
  fits : state.1.parent.roomInfo.count ≤ chatRoom
  /-- The loop that closes a gap stays in the array. -/
  shifts : ∀ k < state.1.parent.roomInfo.count,
    Table.shiftChecked state.1.parent.roomInfo.slots k
        (state.1.parent.roomInfo.count - 1 - k) =
      some (state.1.parent.roomInfo.removeAt k).slots
  roomNames : ∀ room ∈ state.1.parent.roomInfo.slots, Terminated room.name.bytes
  clientNames : ∀ client ∈ state.1.parent.activeChildren.slots,
    Terminated client.name.bytes ∧ Terminated client.roomName.bytes

/-- Behind a bare `/add` that finds a free slot there is no text, and behind a bare `/rm`
none that matters: it is no room, nor is the empty name one. -/
def KeepsArgument (server : Server) : Event → Prop
  | .read _ received => ∀ content, server.parent.contentOf received = some content →
      (text content = slash :: Word.add → server.parent.rooms.length < chatRoom →
        argumentAt Word.add content = []) ∧
      (text content = slash :: Word.rm → argumentAt Word.rm content = [] ∨
        argumentAt Word.rm content ∉ server.parent.chat.rooms ∧
          [] ∉ server.parent.chat.rooms)
  | .accept _ | .exit _ | .clean _ => True

variable {before : Finset Fd} {server next : Server} {event : Event} {rooms : List Bytes}

theorem inside_shift {table : Table RoomInfo chatRoom} {k : Nat} (used : k < table.count) :
    k + (table.count - 1 - k) < table.slots.length := by
  have bound := table.countLe
  rw [table.size]
  omega

/-- All but the list of names holds by the way the tables are made. -/
theorem roomTable_iff : RoomTable (server, rooms) ↔ server.parent.chat.rooms = rooms := by
  constructor
  · exact fun table => table.rooms
  · intro same
    refine ⟨same, server.parent.roomInfo.countLe, ?_, ?_, ?_⟩
    · intro k used
      exact Table.shiftChecked_eq (inside_shift used)
    · exact fun room _ => ⟨room.name.size, room.name.terminated⟩
    · exact fun client _ => ⟨⟨client.name.size, client.name.terminated⟩,
        client.roomName.size, client.roomName.terminated⟩

end Server

/-! ## What a line does to the list -/

section Line

variable {line behind : Bytes} {chat : Chat}

theorem serve_rooms (noNul : 0 ∉ line) (unnamed : Bool) (index : Nat) (fromWho : Int) :
    (chat.serve index fromWho (requestOf unnamed (line ++ 0 :: behind))).rooms =
      if IsCommand Word.add line then
        if chat.rooms.length < chatRoom then
          chat.rooms ++ [Chat.stored (argumentAt Word.add (line ++ 0 :: behind))]
        else chat.rooms
      else if IsCommand Word.rm line then
        chat.rooms.erase (argumentAt Word.rm (line ++ 0 :: behind))
      else chat.rooms := by
  rw [requestOf_line noNul]
  by_cases isSlash : line.headD 0 = slash
  · by_cases isAdd : commandWord line = some Word.add
    · simp only [IsCommand, isSlash, isAdd, if_true, and_self, Chat.serve]
      split_ifs <;> rfl
    · by_cases isJoin : commandWord line = some Word.join
      · have notAdd : Word.join ≠ Word.add := by decide
        have notRm : Word.join ≠ Word.rm := by decide
        simp only [IsCommand, isSlash, isJoin, if_true, true_and, Option.some.injEq, notAdd,
          notRm, if_false, Chat.serve, Chat.updateMember]
      · by_cases isRm : commandWord line = some Word.rm
        · simp only [IsCommand, isSlash, isRm, if_true, and_self, Chat.serve]
          rfl
        · simp only [IsCommand, isSlash, isAdd, isJoin, isRm, if_true, and_false, if_false]
          split_ifs <;> rfl
  · simp only [IsCommand, isSlash, false_and, if_false]
    split_ifs <;> rfl

theorem bare_iff {word : Bytes} (command : IsCommand word line) :
    line.length = word.length + 1 ↔ line = slash :: word := by
  rcases eq_of_commandWord command.2 with ⟨mark, _, bare | ⟨separator, _, full⟩⟩
  · have isMark : mark = slash := by
      rw [← command.1, bare]
      rfl
    rw [bare, isMark]
    exact iff_of_true rfl rfl
  · have length := congrArg List.length full
    simp only [List.length_cons, List.length_append] at length
    constructor
    · intro short
      omega
    · intro equal
      have short := congrArg List.length equal
      rw [List.length_cons] at short
      omega

theorem argumentAt_command {word : Bytes} (noNul : 0 ∉ line) (command : IsCommand word line) :
    argumentAt word (line ++ 0 :: behind) = argument word line ∨ line = slash :: word := by
  by_cases bare : line = slash :: word
  · exact Or.inr bare
  · rw [argumentAt_eq behind noNul command.2, if_neg (mt (bare_iff command).mp bare)]
    exact Or.inl rfl

theorem argument_bare (word : Bytes) : argument word (slash :: word) = [] := by
  rw [argument, List.drop_eq_nil_iff, List.length_cons]
  exact Nat.le_succ _

@[simp] theorem stored_eq_nil_iff {name : Bytes} : Chat.stored name = [] ↔ name = [] := by
  rw [Chat.stored, List.take_eq_nil_iff]
  exact or_iff_right (by decide)

end Line

theorem erase_eq_erase_iff {rooms : List Bytes} {first second : Bytes} :
    rooms.erase first = rooms.erase second ↔
      first = second ∨ first ∉ rooms ∧ second ∉ rooms := by
  constructor
  · intro same
    by_contra different
    rw [not_or, not_and_or, not_not, not_not] at different
    rcases different with ⟨unequal, listed⟩
    have firstCount := congrArg (List.count first) same
    have secondCount := congrArg (List.count second) same
    rw [List.count_erase_self, List.count_erase_of_ne unequal] at firstCount
    rw [List.count_erase_self, List.count_erase_of_ne (Ne.symm unequal)] at secondCount
    rcases listed with listed | listed
    · have positive := List.count_pos_iff.mpr listed
      omega
    · have positive := List.count_pos_iff.mpr listed
      omega
  · rintro (rfl | ⟨firstMissing, secondMissing⟩)
    · rfl
    · rw [List.erase_of_not_mem firstMissing, List.erase_of_not_mem secondMissing]

theorem serve_rooms_iff {chat : Chat} {line behind : Bytes} (noNul : 0 ∉ line) (unnamed : Bool)
    (index : Nat) (fromWho : Int) :
    (chat.serve index fromWho (requestOf unnamed (line ++ 0 :: behind))).rooms =
        roomsAfter chat.rooms line ↔
      (line = slash :: Word.add → chat.rooms.length < chatRoom →
        argumentAt Word.add (line ++ 0 :: behind) = []) ∧
      (line = slash :: Word.rm → argumentAt Word.rm (line ++ 0 :: behind) = [] ∨
        argumentAt Word.rm (line ++ 0 :: behind) ∉ chat.rooms ∧ [] ∉ chat.rooms) := by
  have isBareAdd : IsCommand Word.add (slash :: Word.add) := by decide
  have isBareRm : IsCommand Word.rm (slash :: Word.rm) := by decide
  rw [serve_rooms noNul, roomsAfter]
  by_cases isAdd : IsCommand Word.add line
  · have notRm : line ≠ slash :: Word.rm := by
      rintro rfl
      exact absurd isAdd (by decide)
    rw [if_pos isAdd, if_pos isAdd, and_iff_left fun bare => absurd bare notRm]
    by_cases free : chat.rooms.length < chatRoom
    · rw [if_pos free, if_pos free, List.append_cancel_left_eq, List.cons.injEq,
        and_iff_left rfl]
      by_cases bare : line = slash :: Word.add
      · rw [bare, argument_bare]
        exact stored_eq_nil_iff.trans ⟨fun nothing _ _ => nothing, fun nothing =>
          nothing rfl free⟩
      · rw [(argumentAt_command noNul isAdd).resolve_right bare]
        exact iff_of_true rfl fun equal => absurd equal bare
    · rw [if_neg free, if_neg free]
      exact iff_of_true rfl fun _ room => absurd room free
  · have notBareAdd : line ≠ slash :: Word.add := fun equal => isAdd (equal ▸ isBareAdd)
    rw [if_neg isAdd, if_neg isAdd, and_iff_right fun equal => absurd equal notBareAdd]
    by_cases isRm : IsCommand Word.rm line
    · rw [if_pos isRm, if_pos isRm, erase_eq_erase_iff]
      by_cases bare : line = slash :: Word.rm
      · rw [bare, argument_bare]
        exact ⟨fun same _ => same, fun same => same rfl⟩
      · rw [(argumentAt_command noNul isRm).resolve_right bare]
        exact iff_of_true (Or.inl rfl) fun equal => absurd equal bare
    · rw [if_neg isRm, if_neg isRm]
      exact iff_of_true rfl fun equal => absurd isBareRm (equal ▸ isRm)

namespace Server

variable {before : Finset Fd} {server next : Server} {event : Event} {rooms : List Bytes}

theorem rooms_step (holds : RegistryHolds before server) (same : server.parent.chat.rooms = rooms)
    (step : server.next event = some next) :
    next.parent.chat.rooms = observeRooms rooms event ↔ server.KeepsArgument event := by
  subst same
  have follows := next_follows holds step
  cases event with
  | accept attempt =>
      refine iff_of_true ?_ trivial
      rcases follows with ⟨_, kept⟩ | ⟨_, pid, _, admitted⟩
      · rw [kept]
        rfl
      · rw [admitted]
        rfl
  | exit pid =>
      have kept : next.parent.chat = server.parent.chat := follows
      rw [kept]
      exact iff_of_true rfl trivial
  | clean reaped =>
      have removed : next.parent.chat = server.parent.chat.remove reaped := follows
      rw [removed]
      exact iff_of_true rfl trivial
  | read index received =>
      rcases Option.map_eq_some_iff.mp step with ⟨⟨_, deliveries⟩, done, rfl⟩
      rcases scanRead_ok done with ⟨_, fits, handled, _⟩
      rcases Parent.handleMessage_chat fits handled with
        ⟨child, behind, _, content, _, served, _⟩
      have noNul : 0 ∉ lineOf (contentText (text received)) :=
        zero_notMem_lineOf (zero_notMem_contentText (zero_notMem_text received))
      have length : server.parent.rooms.length = server.parent.chat.rooms.length :=
        (List.length_map _).symm
      rw [served, observeRooms, dispatchedLine, serve_rooms_iff noNul, KeepsArgument, content,
        length]
      simp only [Option.some.injEq, forall_eq']
      rw [text_append_nul behind noNul]

theorem rooms_boot (buffer : MesgBuffer) (before : Finset Fd) (others : Finset Pid) :
    (boot buffer before others).parent.chat.rooms = [] := rfl

/-- The table of rooms is right throughout a run exactly if no command takes for its
argument what stands behind its newline. -/
theorem roomTable_run (buffer : MesgBuffer) (before : Finset Fd) (others : Finset Pid)
    (events : List Event) :
    withRooms.StatesSatisfy RoomTable (boot buffer before others, []) events ↔
      withRooms.StepsSatisfy (fun state event => state.1.KeepsArgument event)
        (boot buffer before others, []) events := by
  have initially := registryHolds_boot buffer before others
  have atBoot := roomTable_iff.mpr (rooms_boot buffer before others)
  apply Machine.statesSatisfy_iff_stepsSatisfy_of_observed
    (fun server _ => RegistryHolds before server) ?_ ?_ events initially atBoot
  · exact fun server rooms event following holds step => next_holds holds step
  · intro server rooms event following holds table step
    rw [roomTable_iff]
    exact rooms_step holds (roomTable_iff.mp table) step

def bareAdd : List Event :=
  [.accept ⟨4, [], some (5, 6), some (7, 8), true, some 100⟩,
    .read 0 (ascii ['1', '0', '0', ':', '/', 'a', 'd', 'd', '\n', 'f', 'o', 'o'] ++ [0])]

/-- The other text becomes a room. -/
theorem not_roomTable_bareAdd :
    ¬withRooms.StatesSatisfy RoomTable (boot .zeroed {0, 1, 2, 3} ∅, []) bareAdd := by
  intro visited
  have reached : withRooms.run (boot .zeroed {0, 1, 2, 3} ∅, []) bareAdd = some _ := rfl
  have rooms := (visited.final reached).rooms
  exact absurd rooms (by decide)

end Server

end RaspberryPi.ChatServer
