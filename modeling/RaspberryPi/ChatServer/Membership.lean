import RaspberryPi.ChatServer.Server

/-! # Members and listed rooms

`/join` stores whatever name it is given. Every room a client is in is listed
all the same, unless the `/join` that stored it named a room that was not
listed at the time. -/

namespace RaspberryPi.ChatServer

open CString

theorem Chat.exists_of_mem_serve {chat : Chat} {index : Nat} {fromWho : Int}
    {request : Request} {member : Member}
    (isMember : member ∈ (chat.serve index fromWho request).members) :
    member.room = [] ∨
      (∃ old ∈ chat.members, member.pid = old.pid ∧ member.room = old.room ∧
        (member.room ∈ chat.rooms → member.room ∈ (chat.serve index fromWho request).rooms)) ∨
      ∃ name, request = .joinRoom name ∧ (member.pid : Int) = fromWho ∧
        member.room = stored name := by
  cases request with
  | addRoom name =>
      have kept : member ∈ chat.members := by
        rw [serve] at isMember
        split_ifs at isMember <;> exact isMember
      refine Or.inr (Or.inl ⟨member, kept, rfl, rfl, fun listed => ?_⟩)
      rw [serve]
      split_ifs
      · exact List.mem_append_left _ listed
      · exact listed
  | joinRoom name =>
      rcases exists_of_mem_updateFirst isMember with ⟨old, wasMember, rfl | ⟨found, rfl⟩⟩
      · exact Or.inr (Or.inl ⟨member, wasMember, rfl, rfl, id⟩)
      · exact Or.inr (Or.inr ⟨name, rfl, beq_iff_eq.mp found, rfl⟩)
  | removeRoom name =>
      rcases List.mem_map.mp isMember with ⟨old, wasMember, equal⟩
      by_cases removed : old.room = name
      · rw [if_pos removed] at equal
        exact Or.inl (equal ▸ rfl)
      · rw [if_neg removed] at equal
        subst equal
        refine Or.inr (Or.inl ⟨old, wasMember, rfl, rfl, fun listed => ?_⟩)
        exact (List.mem_erase_of_ne removed).mpr listed
  | leaveRoom =>
      rcases exists_of_mem_updateFirst isMember with ⟨old, wasMember, rfl | ⟨_, rfl⟩⟩
      · exact Or.inr (Or.inl ⟨member, wasMember, rfl, rfl, id⟩)
      · exact Or.inl rfl
  | setName name =>
      rcases exists_of_mem_modify isMember with ⟨old, wasMember, rfl | rfl⟩
      · exact Or.inr (Or.inl ⟨member, wasMember, rfl, rfl, id⟩)
      · exact Or.inr (Or.inl ⟨old, wasMember, rfl, rfl, id⟩)
  | other => exact Or.inr (Or.inl ⟨member, isMember, rfl, rfl, id⟩)

namespace Server

def RoomsListed (server : Server) : Prop :=
  ∀ client ∈ server.parent.clients, client.roomName.text = [] ∨
    client.roomName.text ∈ server.parent.rooms.map fun room => room.name.text

def JoinsUnlisted (server : Server) (pid : Pid) (room : Bytes) (event : Event) : Prop :=
  ∃ index received content name, event = .read index received ∧
    server.parent.contentOf received = some content ∧
    requestOf false content = .joinRoom name ∧ Chat.stored name = room ∧
    atoi (pidText (text received)) = pid ∧
    room ∉ server.parent.rooms.map fun room => room.name.text

/-- A member's room is accounted for by the list of rooms or by an earlier event. -/
def Accounted (initial : Server) (events : List Event) (rooms : List Bytes) (pid : Pid)
    (room : Bytes) : Prop :=
  room = [] ∨ room ∈ rooms ∨
    ∃ earlier event later server, events = earlier ++ event :: later ∧
      machine.run initial earlier = some server ∧ server.JoinsUnlisted pid room event

theorem Accounted.extend {initial : Server} {events : List Event} {rooms listed : List Bytes}
    {pid : Pid} {room : Bytes} (event : Event)
    (accounted : Accounted initial events rooms pid room)
    (kept : room ∈ rooms → room ∈ listed) :
    Accounted initial (events ++ [event]) listed pid room := by
  rcases accounted with none | inRooms | ⟨earlier, cause, later, server, rfl, reached, joins⟩
  · exact Or.inl none
  · exact Or.inr (Or.inl (kept inRooms))
  · refine Or.inr (Or.inr ⟨earlier, cause, later ++ [event], server, ?_, reached, joins⟩)
    rw [List.append_assoc, List.cons_append]

theorem accounted_step {before : Finset Fd} {initial server next : Server}
    {events : List Event} {event : Event} (holds : RegistryHolds before server)
    (reached : machine.run initial events = some server)
    (accounted : ∀ member ∈ server.parent.chat.members,
      Accounted initial events server.parent.chat.rooms member.pid member.room)
    (step : server.next event = some next) :
    ∀ member ∈ next.parent.chat.members,
      Accounted initial (events ++ [event]) next.parent.chat.rooms member.pid member.room := by
  have follows := next_follows holds step
  intro member isMember
  cases event with
  | accept attempt =>
      rcases follows with ⟨_, same⟩ | ⟨_, pid, _, admitted⟩
      · rw [same] at isMember ⊢
        exact (accounted member isMember).extend _ id
      · rw [admitted] at isMember ⊢
        rcases List.mem_append.mp isMember with old | new
        · exact (accounted member old).extend _ id
        · rw [List.mem_singleton.mp new]
          exact Or.inl rfl
  | exit pid =>
      have same : next.parent.chat = server.parent.chat := follows
      rw [same] at isMember ⊢
      exact (accounted member isMember).extend _ id
  | clean reaped =>
      have removed : next.parent.chat = server.parent.chat.remove reaped := follows
      rw [removed] at isMember ⊢
      exact (accounted member (List.mem_of_mem_filter isMember)).extend _ id
  | read index received =>
      rcases follows with ⟨child, content, _, parsed, served⟩
      rw [served] at isMember ⊢
      rcases Chat.exists_of_mem_serve isMember with
        none | ⟨old, wasMember, samePid, sameRoom, kept⟩ | ⟨name, request, claimed, stored⟩
      · exact Or.inl none
      · rw [sameRoom] at kept
        rw [samePid, sameRoom]
        exact (accounted old wasMember).extend _ kept
      · by_cases listed : member.room ∈ server.parent.chat.rooms
        · rw [request]
          exact Or.inr (Or.inl listed)
        · exact Or.inr (Or.inr ⟨events, _, [], server, rfl, reached, index, received,
            content, name, rfl, parsed, requestOf_false request (by simp), stored.symm,
            claimed.symm, listed⟩)

/-- In every run a client is in no room, in a listed one, or in one that was not
listed when it was joined. -/
theorem rooms_accounted_run {buffer : MesgBuffer} {before : Finset Fd}
    {others : Finset Pid} {events : List Event} {server : Server}
    (reached : machine.run (boot buffer before others) events = some server) :
    ∀ client ∈ server.parent.clients,
      client.roomName.text = [] ∨
      client.roomName.text ∈ (server.parent.rooms.map fun room => room.name.text) ∨
      ∃ earlier event later joined, events = earlier ++ event :: later ∧
        machine.run (boot buffer before others) earlier = some joined ∧
        joined.JoinsUnlisted client.pid client.roomName.text event := by
  have accounted : ∀ member ∈ server.parent.chat.members,
      Accounted (boot buffer before others) events server.parent.chat.rooms member.pid
        member.room := by
    refine Machine.run_induction (motive := fun events server =>
      ∀ member ∈ server.parent.chat.members, Accounted (boot buffer before others) events
        server.parent.chat.rooms member.pid member.room) ?_ ?_ reached
    · intro member isMember
      cases isMember
    · intro events server event next before accounted step
      exact accounted_step (registryHolds_run before) before accounted step
  intro client member
  exact accounted client.member (List.mem_map_of_mem member)

def joinUnlisted : List Event :=
  [.accept ⟨4, [], some (5, 6), some (7, 8), true, some 100⟩,
    .read 0 (ascii ['1', '0', '0', ':', '/', 'j', 'o', 'i', 'n', ' ', 'x'] ++ [0])]

theorem rooms_accounted_run_joinUnlisted :
    ∃ server, machine.run (boot .zeroed {0, 1, 2, 3} ∅) joinUnlisted = some server ∧
      ∀ client ∈ server.parent.clients,
        client.roomName.text = [] ∨
        client.roomName.text ∈ (server.parent.rooms.map fun room => room.name.text) ∨
        ∃ earlier event later joined, joinUnlisted = earlier ++ event :: later ∧
          machine.run (boot .zeroed {0, 1, 2, 3} ∅) earlier = some joined ∧
          joined.JoinsUnlisted client.pid client.roomName.text event := by
  have reached : machine.run (boot .zeroed {0, 1, 2, 3} ∅) joinUnlisted = some _ := rfl
  exact ⟨_, reached, rooms_accounted_run reached⟩

theorem roomsListed_run_joinUnlisted :
    ¬∀ (buffer : MesgBuffer) (before : Finset Fd) (others : Finset Pid)
      (events : List Event) (server : Server),
      machine.run (boot buffer before others) events = some server → server.RoomsListed := by
  intro always
  have reached : machine.run (boot .zeroed {0, 1, 2, 3} ∅) joinUnlisted = some _ := rfl
  rcases always _ _ _ _ _ reached _ List.mem_cons_self with none | listed
  · exact absurd none (by decide)
  · exact absurd listed (by decide)

end Server

end RaspberryPi.ChatServer
