import Mathlib.Data.List.Nodup
import RaspberryPi.Epoll.Server

/-! # The client list of the epoll chat server

`nfds` counts the listener and all sockets that were ever accepted, and the
broadcast goes through one slot more than there are clients in the list. -/

namespace RaspberryPi.Epoll.Server

def slots (server : Server) : List Fd := (List.range (server.nfds - 1)).map server.socklist

/-- The slot after them, which the broadcast goes through as well. -/
def extraSlot (server : Server) : Fd := server.socklist (server.nfds - 1)

structure ListsClients (server : Server) : Prop where
  counts : server.nfds - 1 = server.connected.length
  fits : server.nfds - 1 ≤ maxEvent
  /-- Each connected client is there once, and nothing else is. -/
  once : ∀ fd, server.slots.count fd = if fd ∈ server.connected then 1 else 0

def DeliversOnce (server : Server) : ServerEvent → Prop
  | .read _ data => data ≠ [] →
      ∀ fd, server.reached.count fd = if fd ∈ server.connected then 1 else 0
  | _ => True

def Leaves (server : Server) : ServerEvent → Prop
  | .read i data => data = [] ∧ (server.events i).fd ∈ server.connected
  | .readFails i reset => reset = true ∧ (server.events i).fd ∈ server.connected
  | _ => False

/-- No client leaves, there is a slot for one that joins, and the extra slot holds
nothing that a message gets to. -/
def KeepsList (server : Server) (event : ServerEvent) : Prop :=
  ¬server.Leaves event ∧
    match event with
    | .accept _ _ _ => server.nfds ≤ maxEvent
    | .read _ data =>
        data ≠ [] → server.extraSlot = server.ssock ∨ ¬server.IsOpen server.extraSlot
    | _ => True

structure Sound (server : Server) : Prop where
  counts : server.nfds = server.sockets.length + 1
  once : server.sockets.Nodup
  notListener : server.ssock ∉ server.sockets
  stillThere : server.connected.Sublist server.sockets
  listed : server.sockets.length ≤ maxEvent → server.slots = server.sockets

def Broken (server : Server) : Prop :=
  server.connected.length < server.sockets.length ∨ maxEvent < server.sockets.length

variable {server following : Server} {event : ServerEvent}

structure SameList (server following : Server) : Prop where
  ssock : following.ssock = server.ssock
  nfds : following.nfds = server.nfds
  sockets : following.sockets = server.sockets
  socklist : ∀ j < maxEvent, following.socklist j = server.socklist j

theorem Sound.connected_eq (sound : Sound server) (intact : ¬server.Broken) :
    server.connected = server.sockets := by
  apply sound.stillThere.eq_of_length_le
  exact Nat.not_lt.mp fun fewer => intact (Or.inl fewer)

theorem Sound.slots_eq (sound : Sound server) (intact : ¬server.Broken) :
    server.slots = server.connected := by
  rw [sound.connected_eq intact]
  exact sound.listed (Nat.not_lt.mp fun more => intact (Or.inr more))

theorem broadcast_eq (sound : Sound server) (intact : ¬server.Broken) :
    server.broadcast = server.connected ++ [server.extraSlot].filter (· ≠ server.ssock) := by
  have positions : server.nfds = (server.nfds - 1) + 1 := by
    rw [sound.counts]
    rfl
  have others : server.connected.filter (· ≠ server.ssock) = server.connected := by
    rw [List.filter_eq_self]
    intro fd client
    apply decide_eq_true
    rintro rfl
    exact sound.notListener (sound.stillThere.subset client)
  rw [broadcast, positions, List.range_succ, List.map_append, List.filter_append]
  change server.slots.filter _ ++ _ = _
  rw [sound.slots_eq intact, others]
  rfl

theorem reached_eq (sound : Sound server) (intact : ¬server.Broken) :
    server.reached = server.connected ++
      [server.extraSlot].filter fun fd => fd ≠ server.ssock ∧ server.IsOpen fd := by
  have allOpen : server.connected.filter server.IsOpen = server.connected := by
    rw [List.filter_eq_self]
    exact fun fd client => decide_eq_true (Or.inr (sound.stillThere.subset client))
  rw [reached, broadcast_eq sound intact, List.filter_append, allOpen, List.filter_filter]
  congr 2
  funext fd
  rw [Bool.decide_and, Bool.and_comm]

/-- While the list is as it has to be, the extra slot decides about a message. -/
theorem delivers_iff (sound : Sound server) (intact : ¬server.Broken) :
    (∀ fd, server.reached.count fd = if fd ∈ server.connected then 1 else 0) ↔
      server.extraSlot = server.ssock ∨ ¬server.IsOpen server.extraSlot := by
  have once : server.connected.Nodup := sound.once.sublist sound.stillThere
  have counted : ∀ fd, server.connected.count fd = if fd ∈ server.connected then 1 else 0 :=
    fun fd => once.count
  rw [reached_eq sound intact]
  constructor
  · intro delivers
    by_contra harmful
    have isReached : server.extraSlot ≠ server.ssock ∧ server.IsOpen server.extraSlot := by
      rwa [not_or, not_not] at harmful
    have twice := delivers server.extraSlot
    rw [List.count_append, counted, List.filter_singleton, decide_eq_true isReached] at twice
    simp at twice
  · intro harmless fd
    have missing : ¬(server.extraSlot ≠ server.ssock ∧ server.IsOpen server.extraSlot) :=
      fun both => harmless.elim both.1 fun closed => closed both.2
    rw [List.filter_singleton, decide_eq_false missing, ← counted fd]
    simp

inductive ListStep (server : Server) (event : ServerEvent) (following : Server) : Prop
  | joins (csock : Fd) (unused : server.Unused csock)
      (same : SameList (server.addClient csock) following)
      (connected : following.connected = server.connected ++ [csock])
      (keeps : server.KeepsList event ↔ server.nfds ≤ maxEvent)
      (delivers : server.DeliversOnce event)
  | leaves (fd : Fd) (client : fd ∈ server.connected) (leaves : server.Leaves event)
      (same : SameList server following)
      (connected : following.connected = server.connected.erase fd)
      (delivers : server.DeliversOnce event)
  | stays (same : SameList server following)
      (connected : following.connected = server.connected)
      (keeps : Sound server → ¬server.Broken → (server.KeepsList event ↔ server.DeliversOnce event))

theorem fill_same (server : Server) (i : Nat) (n : Int) (fd : Fd) (mesg : Bytes) (left : Bool) :
    SameList server ((server.fill fd mesg left).afterRead i n) := by
  rw [afterRead_eq]
  exact ⟨rfl, rfl, rfl, fun _ _ => rfl⟩

theorem connected_fill (server : Server) (i : Nat) (n : Int) (fd : Fd) (mesg : Bytes)
    (left : Bool) :
    ((server.fill fd mesg left).afterRead i n).connected =
      if left = true ∧ fd ∈ server.connected then server.connected.erase fd
      else server.connected := by
  rw [afterRead_eq]
  cases left with
  | false => rfl
  | true =>
      change server.connected.erase fd = _
      by_cases client : fd ∈ server.connected
      · rw [if_pos ⟨rfl, client⟩]
      · rw [if_neg fun both => client both.2]
        exact List.erase_of_not_mem client

theorem listStep (step : machine.next server event = some following) :
    ListStep server event following := by
  rcases Machine.guarded_next_eq_some.mp step with ⟨enabled, rfl⟩
  cases event with
  | accept i csock address =>
      refine .joins csock enabled.2.2.1 ⟨rfl, rfl, rfl, fun _ _ => rfl⟩ rfl ?_ trivial
      exact ⟨And.right, fun room => ⟨id, room⟩⟩
  | read i data =>
      have same := fill_same server i data.length (server.events i).fd data data.isEmpty
      have connected := connected_fill server i data.length (server.events i).fd data data.isEmpty
      by_cases leaves : data = [] ∧ (server.events i).fd ∈ server.connected
      · rw [if_pos ⟨List.isEmpty_iff.mpr leaves.1, leaves.2⟩] at connected
        exact .leaves _ leaves.2 leaves same connected fun bytes => absurd leaves.1 bytes
      · rw [if_neg fun both => leaves ⟨List.isEmpty_iff.mp both.1, both.2⟩] at connected
        refine .stays same connected fun sound intact => ?_
        rw [DeliversOnce, delivers_iff sound intact]
        exact ⟨And.right, fun harmless => ⟨leaves, harmless⟩⟩
  | readFails i reset =>
      have same := fill_same server i (-1) (server.events i).fd [] reset
      have connected := connected_fill server i (-1) (server.events i).fd [] reset
      by_cases leaves : reset = true ∧ (server.events i).fd ∈ server.connected
      · rw [if_pos leaves] at connected
        exact .leaves _ leaves.2 leaves same connected trivial
      · rw [if_neg leaves] at connected
        exact .stays same connected fun _ _ => ⟨fun _ => trivial, fun _ => ⟨leaves, trivial⟩⟩
  | elsewhere socklist events =>
      refine .stays ⟨rfl, rfl, rfl, fun j inside => if_pos inside⟩ rfl fun _ _ => ?_
      exact ⟨fun _ => trivial, fun _ => ⟨id, trivial⟩⟩
  | _ =>
      refine .stays ⟨rfl, rfl, rfl, fun _ _ => rfl⟩ rfl fun _ _ => ?_
      exact ⟨fun _ => trivial, fun _ => ⟨id, trivial⟩⟩

/-! ## Steps and runs -/

theorem SameList.sound (same : SameList server following) (sound : Sound server)
    (stillThere : following.connected.Sublist server.connected) : Sound following := by
  constructor
  · rw [same.nfds, same.sockets]
    exact sound.counts
  · rw [same.sockets]
    exact sound.once
  · rw [same.sockets, same.ssock]
    exact sound.notListener
  · rw [same.sockets]
    exact stillThere.trans sound.stillThere
  · intro few
    rw [same.sockets] at few ⊢
    rw [← sound.listed few, slots, slots, same.nfds]
    apply List.map_congr_left
    intro j member
    apply same.socklist
    have inside := List.mem_range.mp member
    have counts := sound.counts
    omega

theorem Sound.addClient {csock : Fd} (sound : Sound server) (unused : server.Unused csock) :
    Sound (server.addClient csock) := by
  have fresh : csock ∉ server.sockets := fun member => unused.2.2.2 (Or.inr member)
  have counts := sound.counts
  constructor
  · rw [Server.addClient, List.length_append, counts]
    rfl
  · exact List.nodup_append'.mpr ⟨sound.once, List.nodup_singleton _,
      List.disjoint_singleton.mpr fresh⟩
  · intro member
    rcases List.mem_append.mp member with member | same
    · exact sound.notListener member
    · exact unused.2.1 (List.mem_singleton.mp same).symm
  · exact sound.stillThere.append (List.Sublist.refl _)
  · intro few
    have before : server.sockets.length ≤ maxEvent := by
      rw [Server.addClient, List.length_append] at few
      omega
    have positions : server.nfds + 1 - 1 = (server.nfds - 1) + 1 := by omega
    have earlier : (List.range (server.nfds - 1)).map (server.addClient csock).socklist =
        server.slots := by
      apply List.map_congr_left
      intro j member
      exact Function.update_of_ne (Nat.ne_of_lt (List.mem_range.mp member)) _ _
    have added : (server.addClient csock).socklist (server.nfds - 1) = csock :=
      Function.update_self ..
    change (List.range (server.nfds + 1 - 1)).map _ = server.sockets ++ [csock]
    rw [positions, List.range_succ, List.map_append, List.map_singleton, earlier, added,
      sound.listed before]

theorem Sound.next (sound : Sound server)
    (step : machine.next server event = some following) : Sound following := by
  cases listStep step with
  | joins csock unused same connected =>
      apply same.sound (sound.addClient unused)
      rw [connected]
      exact List.Sublist.refl _
  | leaves fd client leaves same connected =>
      apply same.sound sound
      rw [connected]
      exact List.erase_sublist
  | stays same connected =>
      apply same.sound sound
      rw [connected]

theorem Broken.next (broken : server.Broken)
    (step : machine.next server event = some following) : following.Broken := by
  rw [Broken] at broken ⊢
  cases listStep step with
  | joins csock unused same connected =>
      have sockets : following.sockets = server.sockets ++ [csock] := same.sockets
      rw [connected, sockets, List.length_append, List.length_append]
      omega
  | leaves fd client leaves same connected =>
      have fewer : (server.connected.erase fd).length ≤ server.connected.length :=
        List.erase_sublist.length_le
      rw [connected, same.sockets]
      omega
  | stays same connected =>
      rw [connected, same.sockets]
      exact broken

theorem Sound.listsClients (sound : Sound server) (intact : ¬server.Broken) :
    server.ListsClients := by
  have counts := sound.counts
  constructor
  · rw [counts, sound.connected_eq intact]
    rfl
  · rw [Broken] at intact
    omega
  · intro fd
    rw [sound.slots_eq intact]
    exact (sound.once.sublist sound.stillThere).count

theorem sound_start (ssock epfd : Fd) (inherited : List Fd) (socklist : Nat → Fd)
    (cells : Nat → EpollEvent) (mesg : Bytes) :
    Sound (start ssock epfd inherited socklist cells mesg) :=
  ⟨rfl, List.nodup_nil, List.not_mem_nil, List.Sublist.refl _, fun _ => rfl⟩

end RaspberryPi.Epoll.Server
