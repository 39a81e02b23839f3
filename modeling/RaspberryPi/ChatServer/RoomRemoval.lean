import RaspberryPi.ChatServer.FaultFree

/-! # Removing a room

`/rm` takes the first room of that name from the list, and nobody stays in a
room of that name. It compares the whole argument, of which `/add` stores the
part that fits. -/

namespace RaspberryPi.ChatServer

open CString

def addLine (name : Bytes) : Bytes := slash :: (Word.add ++ space :: name)

def rmLine (name : Bytes) : Bytes := slash :: (Word.rm ++ space :: name)

theorem zero_notMem_addLine {name : Bytes} (noNul : 0 ∉ name) : 0 ∉ addLine name := by
  have command : 0 ∉ slash :: Word.add := by decide
  exact zero_notMem_joined command (by decide) noNul

theorem zero_notMem_rmLine {name : Bytes} (noNul : 0 ∉ name) : 0 ∉ rmLine name := by
  have command : 0 ∉ slash :: Word.rm := by decide
  exact zero_notMem_joined command (by decide) noNul

namespace Parent

variable {parent : Parent} {index : Nat} {child : PipeInfo} {fromWho : Int}
  {name behind : Bytes}

theorem dispatch_addLine (noNul : 0 ∉ name) :
    parent.dispatch index child fromWho (addLine name ++ 0 :: behind) =
      .ok (parent.addNamed name, []) := by
  have command : commandWord (addLine name) = some Word.add := rfl
  rw [dispatch_slash (zero_notMem_addLine noNul) rfl, command_eq (zero_notMem_addLine noNul),
    if_pos command, addRoom_eq noNul rfl]
  rfl

theorem dispatch_rmLine (noNul : 0 ∉ name) :
    parent.dispatch index child fromWho (rmLine name ++ 0 :: behind) =
      .ok (parent.removeNamed name, []) := by
  have command : commandWord (rmLine name) = some Word.rm := rfl
  rw [dispatch_slash (zero_notMem_rmLine noNul) rfl, command_eq (zero_notMem_rmLine noNul),
    command, if_neg (by decide), if_neg (by decide), if_pos rfl, removeRoom_eq noNul rfl]
  rfl

theorem rooms_removeNamed (parent : Parent) (name : Bytes) :
    (parent.removeNamed name).rooms =
      parent.rooms.eraseP fun room => decide (room.name.text = name) := by
  rw [removeNamed, List.eraseP_eq_eraseIdx]
  cases found : parent.rooms.findIdx? fun room => decide (room.name.text = name) with
  | none => rfl
  | some index =>
      have inRange := (List.findIdx?_eq_some_iff_getElem.mp found).1
      rw [rooms, Table.length_entries] at inRange
      exact Table.entries_removeAt _ _ inRange

theorem clients_removeNamed (parent : Parent) (name : Bytes) :
    (parent.removeNamed name).clients = parent.clients.map fun client =>
      if client.roomName.text = name then client.clearRoomName else client := by
  rw [removeNamed]
  cases parent.rooms.findIdx? fun room => decide (room.name.text = name) with
  | none => exact Table.entries_updateAll _ _
  | some index => exact Table.entries_updateAll _ _

/-! ## What is left of a room -/

/-- No trace of the room is left, and all else is as it was. -/
structure RoomGone (parent next : Parent) (name : Bytes) : Prop where
  unlisted : ∀ room ∈ next.rooms, room.name.text ≠ name
  nobody : ∀ client ∈ next.clients, client.roomName.text ≠ name
  inOrder : (next.rooms.filter fun room => decide (room.name.text ≠ name)) =
    parent.rooms.filter fun room => decide (room.name.text ≠ name)
  kept : ∀ (position : Nat) (client : PipeInfo), parent.clients[position]? = some client →
    client.roomName.text ≠ name → next.clients[position]? = some client

theorem unlisted_iff (parent : Parent) (name : Bytes) :
    (∀ room ∈ (parent.removeNamed name).rooms, room.name.text ≠ name) ↔
      parent.chat.rooms.count name ≤ 1 := by
  have erased : ((parent.removeNamed name).rooms.map fun room => room.name.text) =
      parent.chat.rooms.erase name := by
    rw [rooms_removeNamed, chat, List.erase_eq_eraseP, List.eraseP_map]
    congr 2
    funext room
    simp [eq_comm, Bool.beq_eq_decide_eq]
  have missing : (∀ room ∈ (parent.removeNamed name).rooms, room.name.text ≠ name) ↔
      name ∉ parent.chat.rooms.erase name := by
    rw [← erased, List.mem_map]
    constructor
    · rintro unlisted ⟨room, listed, same⟩
      exact unlisted room listed same
    · intro absent room listed same
      exact absent ⟨room, listed, same⟩
  rw [missing, ← List.count_eq_zero, List.count_erase_self]
  omega

theorem nobody_iff (parent : Parent) (name : Bytes) :
    (∀ client ∈ (parent.removeNamed name).clients, client.roomName.text ≠ name) ↔
      name ≠ [] ∨ ∀ client ∈ parent.clients, client.roomName.text ≠ [] := by
  rw [clients_removeNamed, List.forall_mem_map]
  by_cases nameless : name = []
  · subst nameless
    rw [or_iff_right fun different => different rfl]
    refine forall₂_congr fun client member => ?_
    by_cases nowhere : client.roomName.text = []
    · rw [if_pos nowhere]
      exact iff_of_false (fun somewhere => somewhere rfl) fun somewhere => somewhere nowhere
    · rw [if_neg nowhere]
  · refine iff_of_true ?_ (Or.inl nameless)
    intro client member
    by_cases inside : client.roomName.text = name
    · rw [if_pos inside]
      exact Ne.symm nameless
    · rw [if_neg inside]
      exact inside

theorem filter_eraseP {α : Type} (list : List α) (found : α → Bool) :
    ((list.eraseP found).filter fun value => !found value) =
      list.filter fun value => !found value := by
  rcases List.exists_or_eq_self_of_eraseP found list with
    same | ⟨value, before, after, _, isFound, split, erased⟩
  · rw [same]
  · rw [erased, split, List.filter_append, List.filter_append,
      List.filter_cons_of_neg (by rw [isFound]; decide)]

theorem inOrder_removeNamed (parent : Parent) (name : Bytes) :
    ((parent.removeNamed name).rooms.filter fun room => decide (room.name.text ≠ name)) =
      parent.rooms.filter fun room => decide (room.name.text ≠ name) := by
  have kept := filter_eraseP parent.rooms fun room => decide (room.name.text = name)
  rw [rooms_removeNamed]
  simp only [decide_not]
  exact kept

theorem kept_removeNamed {position : Nat} {client : PipeInfo}
    (here : parent.clients[position]? = some client) (elsewhere : client.roomName.text ≠ name) :
    (parent.removeNamed name).clients[position]? = some client := by
  rw [clients_removeNamed, List.getElem?_map, here, Option.map_some, if_neg elsewhere]

/-- After `/rm name` the room is gone exactly if it was listed at most once and, for the
empty name, every client is in a room. -/
theorem roomGone_iff (noNul : 0 ∉ name) :
    (∃ next, parent.dispatch index child fromWho (rmLine name ++ 0 :: behind) =
        .ok (next, []) ∧ RoomGone parent next name) ↔
      parent.chat.rooms.count name ≤ 1 ∧
        (name ≠ [] ∨ ∀ client ∈ parent.clients, client.roomName.text ≠ []) := by
  rw [dispatch_rmLine noNul, ← unlisted_iff, ← nobody_iff]
  constructor
  · rintro ⟨next, same, gone⟩
    cases same
    exact ⟨gone.unlisted, gone.nobody⟩
  · rintro ⟨unlisted, nobody⟩
    refine ⟨parent.removeNamed name, rfl, unlisted, nobody, inOrder_removeNamed parent name, ?_⟩
    exact fun position client here elsewhere => kept_removeNamed here elsewhere

theorem roomGone_iff_oneRoom :
    ∃ server child, Server.machine.run (Server.boot .zeroed {0, 1, 2, 3} ∅) Server.oneRoom =
        some server ∧ server.parent.clients[0]? = some child ∧
      ∃ next, server.parent.dispatch 0 child 100 (rmLine (ascii ['x']) ++ [0]) =
        .ok (next, []) ∧ RoomGone server.parent next (ascii ['x']) := by
  have reached : Server.machine.run (Server.boot .zeroed {0, 1, 2, 3} ∅) Server.oneRoom =
    some _ := rfl
  refine ⟨_, _, reached, rfl, (roomGone_iff (by decide)).mpr ⟨by decide, Or.inl (by decide)⟩⟩

def addedTwice : List Event :=
  [.accept ⟨4, [], some (5, 6), some (7, 8), true, some 100⟩,
    .read 0 (ascii ['1', '0', '0', ':', '/', 'a', 'd', 'd', ' ', 'x'] ++ [0]),
    .read 0 (ascii ['1', '0', '0', ':', '/', 'a', 'd', 'd', ' ', 'x'] ++ [0])]

theorem not_roomGone_addedTwice :
    ∃ server child, Server.machine.run (Server.boot .zeroed {0, 1, 2, 3} ∅) addedTwice =
        some server ∧ server.parent.clients[0]? = some child ∧
      ¬∃ next, server.parent.dispatch 0 child 100 (rmLine (ascii ['x']) ++ [0]) =
        .ok (next, []) ∧ RoomGone server.parent next (ascii ['x']) := by
  have reached : Server.machine.run (Server.boot .zeroed {0, 1, 2, 3} ∅) addedTwice =
    some _ := rfl
  refine ⟨_, _, reached, rfl, ?_⟩
  rintro ⟨next, done, gone⟩
  rw [dispatch_rmLine (by decide)] at done
  cases done
  exact absurd ((unlisted_iff _ _).mp gone.unlisted) (by decide)

/-! ## Adding and removing -/

/-- Whoever sends `/add name` and whoever sends `/rm name` after it, the list is as it was. -/
def RmUndoesAdd (parent : Parent) (name : Bytes) : Prop :=
  ∀ (index otherIndex : Nat) (child other : PipeInfo) (fromWho otherPid : Int)
    (behind otherBehind : Bytes), ∃ added removed,
      parent.dispatch index child fromWho (addLine name ++ 0 :: behind) = .ok (added, []) ∧
      added.dispatch otherIndex other otherPid (rmLine name ++ 0 :: otherBehind) =
        .ok (removed, []) ∧
      removed.rooms = parent.rooms

theorem rmUndoesAdd_iff_rooms (noNul : 0 ∉ name) :
    parent.RmUndoesAdd name ↔ ((parent.addNamed name).removeNamed name).rooms = parent.rooms := by
  constructor
  · intro undoes
    rcases undoes 0 0 .zero .zero 0 0 [] [] with ⟨added, removed, adds, removes, same⟩
    rw [dispatch_addLine noNul] at adds
    cases adds
    rw [dispatch_rmLine noNul] at removes
    cases removes
    exact same
  · intro same index otherIndex child other fromWho otherPid behind otherBehind
    exact ⟨_, _, dispatch_addLine noNul, dispatch_rmLine noNul, same⟩

theorem rooms_of_short (noNul : 0 ∉ name) (room : parent.rooms.length < chatRoom)
    (unlisted : Chat.stored name ∉ parent.chat.rooms) (short : name.length < nameSize) :
    ((parent.addNamed name).removeNamed name).rooms = parent.rooms := by
  have whole : Chat.stored name = name := List.take_of_length_le (Nat.le_sub_one_of_lt short)
  have found : (NameField.ofCopy name).text = name := by
    rw [stored_text_ofCopy noNul, whole]
  have others : ∀ room ∈ parent.rooms, ¬decide (room.name.text = name) = true := by
    intro room listed same
    rw [whole] at unlisted
    exact unlisted (List.mem_map.mpr ⟨room, listed, of_decide_eq_true same⟩)
  have isFound : decide ((⟨.ofCopy name⟩ : RoomInfo).name.text = name) = true :=
    decide_eq_true found
  rw [rooms_removeNamed, rooms_addNamed room, List.eraseP_append_right _ others,
    List.eraseP_cons, isFound]
  exact List.append_nil _

theorem rooms_of_long (room : parent.rooms.length < chatRoom) (long : nameSize ≤ name.length) :
    ((parent.addNamed name).removeNamed name).rooms ≠ parent.rooms := by
  have none : ∀ room ∈ (parent.addNamed name).rooms, ¬decide (room.name.text = name) = true := by
    intro room _ same
    have shorter := room.name.length_text_lt
    rw [of_decide_eq_true same] at shorter
    exact Nat.not_lt.mpr long shorter
  rw [rooms_removeNamed, List.eraseP_of_forall_not none, rooms_addNamed room]
  exact fun same => List.cons_ne_nil _ _ (List.append_right_eq_self.mp same)

/-- Where there is a free slot and the stored name is not listed, `/rm` undoes `/add`
exactly for the names that fit in an array. -/
theorem rmUndoesAdd_iff (noNul : 0 ∉ name) (room : parent.rooms.length < chatRoom)
    (unlisted : Chat.stored name ∉ parent.chat.rooms) :
    parent.RmUndoesAdd name ↔ name.length < nameSize := by
  rw [rmUndoesAdd_iff_rooms noNul]
  constructor
  · intro same
    by_contra long
    exact rooms_of_long room (Nat.not_lt.mp long) same
  · exact rooms_of_short noNul room unlisted

theorem rmUndoesAdd_iff_oneRoom :
    ∃ server, Server.machine.run (Server.boot .zeroed {0, 1, 2, 3} ∅) Server.oneRoom =
        some server ∧ server.parent.RmUndoesAdd (ascii ['y']) := by
  have reached : Server.machine.run (Server.boot .zeroed {0, 1, 2, 3} ∅) Server.oneRoom =
    some _ := rfl
  refine ⟨_, reached, (rmUndoesAdd_iff (by decide) (by decide) (by decide)).mpr (by decide)⟩

theorem not_rmUndoesAdd_long :
    ∃ server, Server.machine.run (Server.boot .zeroed {0, 1, 2, 3} ∅) Server.oneRoom =
        some server ∧
      ¬server.parent.RmUndoesAdd (List.replicate 32 97) := by
  have reached : Server.machine.run (Server.boot .zeroed {0, 1, 2, 3} ∅) Server.oneRoom =
    some _ := rfl
  refine ⟨_, reached, fun undoes => ?_⟩
  exact rooms_of_long (by decide) (by decide) ((rmUndoesAdd_iff_rooms (by decide)).mp undoes)

end Parent

end RaspberryPi.ChatServer
