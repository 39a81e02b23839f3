import RaspberryPi.Select.Server

/-! # The client table of the select echo server

An answered client is taken from the table by `client_index--` alone, so it is the
last one of the table that goes. A client that has left is not taken from it. -/

namespace RaspberryPi.Select.Server

open Epoll (Fd)

def stores (server : Server) : ServerEvent → Option Int
  | .accept _ _ => some server.clientIndex
  | _ => none

structure ListsClients (server : Server) : Prop where
  fits : 0 ≤ server.clientIndex ∧ server.clientIndex ≤ capacity
  /-- Each accepted socket that is still open is there once, and nothing else is. -/
  once : ∀ fd, server.listed.count fd = if fd ∈ server.sockets then 1 else 0

def Removes (server following : Server) (fd : Fd) : Prop :=
  ∀ other, other ∈ following.listed ↔ other ∈ server.listed ∧ other ≠ fd

/-- Nothing is stored beyond the array, and a client that is answered or found to have
left is removed, all others being kept. -/
def KeepsTable (server : Server) (event : ServerEvent) : Prop :=
  (∀ j, server.stores event = some j → 0 ≤ j ∧ j < capacity) ∧
    match event with
    | .read startIndex _ =>
        server.Removes (server.after event) (server.clientFd startIndex)
    | .readFails startIndex reset =>
        reset = true → server.Removes (server.after event) (server.clientFd startIndex)
    | _ => True

/-- A connection comes when there is a cell for it, the client that is answered is the
last of the table, and none leaves. -/
def KeepsOrder (server : Server) : ServerEvent → Prop
  | .accept _ _ => server.clientIndex < capacity
  | .read startIndex data => data ≠ [] ∧ (startIndex : Int) + 1 = server.clientIndex
  | .readFails _ reset => reset = false
  | _ => True

structure InOrder (server : Server) : Prop where
  fits : 0 ≤ server.clientIndex ∧ server.clientIndex ≤ capacity
  listed : server.listed = server.sockets
  once : server.sockets.Nodup

variable {server following : Server} {event : ServerEvent}

theorem listed_congr (clientIndex : following.clientIndex = server.clientIndex)
    (cells : ∀ j, 0 ≤ j → j < server.clientIndex → following.clientFd j = server.clientFd j) :
    following.listed = server.listed := by
  rw [listed, listed, clientIndex]
  apply List.map_congr_left
  intro j member
  have inside := List.mem_range.mp member
  apply cells
  · exact Int.natCast_nonneg j
  · omega

theorem length_listed (nonnegative : 0 ≤ server.clientIndex) :
    (server.listed.length : Int) = server.clientIndex := by
  rw [listed, List.length_map, List.length_range]
  exact Int.toNat_of_nonneg nonnegative

theorem listed_addClient (nonnegative : 0 ≤ server.clientIndex) (csock : Fd) (address : Bytes) :
    (server.addClient csock address).listed = server.listed ++ [csock] := by
  have positions : (server.clientIndex + 1).toNat = server.clientIndex.toNat + 1 := by omega
  have last : ((server.clientIndex.toNat : Nat) : Int) = server.clientIndex :=
    Int.toNat_of_nonneg nonnegative
  change (List.range (server.clientIndex + 1).toNat).map _ = _
  rw [positions, List.range_succ, List.map_append, List.map_singleton]
  congr 1
  · apply List.map_congr_left
    intro j member
    have inside := List.mem_range.mp member
    exact Function.update_of_ne (by omega) _ _
  · rw [last]
    exact congrArg (fun fd => [fd]) (Function.update_self ..)

theorem listed_dropLast (clientFd : following.clientFd = server.clientFd)
    (clientIndex : following.clientIndex = server.clientIndex - 1) :
    following.listed = server.listed.dropLast := by
  rw [listed, listed, clientFd, clientIndex, List.dropLast_eq_take, List.length_map,
    List.length_range, ← List.map_take, List.take_range]
  congr 2
  omega

structure SameTable (server following : Server) : Prop where
  clientIndex : following.clientIndex = server.clientIndex
  clientFd : following.clientFd = server.clientFd
  sockets : following.sockets = server.sockets

theorem SameTable.listed (same : SameTable server following) :
    following.listed = server.listed :=
  listed_congr same.clientIndex fun j _ _ => congrFun same.clientFd j

theorem afterRead_of_bytes (server : Server) (startIndex : Nat) {data : Bytes}
    (bytes : data ≠ []) :
    SameTable (server.answer (server.clientFd startIndex))
      ((server.fill data).afterRead startIndex data.length) := by
  have positive : (data.length : Int) > 0 := by
    have := List.length_pos_of_ne_nil bytes
    omega
  rw [afterRead, if_pos positive]
  exact ⟨rfl, rfl, rfl⟩

theorem afterRead_of_nothing (server : Server) (startIndex : Nat) {n : Int} (nothing : n ≤ 0) :
    SameTable server ((server.fill []).afterRead startIndex n) := by
  rw [afterRead, if_neg (Int.not_lt.mpr nothing)]
  exact ⟨rfl, rfl, rfl⟩

inductive TableStep (server : Server) (event : ServerEvent) (following : Server) : Prop
  | joins (csock : Fd) (fresh : ¬server.IsOpen csock)
      (listed : 0 ≤ server.clientIndex → following.listed = server.listed ++ [csock])
      (clientIndex : following.clientIndex = server.clientIndex + 1)
      (sockets : following.sockets = server.sockets ++ [csock])
      (keepsTable : server.KeepsTable event ↔
        0 ≤ server.clientIndex ∧ server.clientIndex < capacity)
      (keepsOrder : server.KeepsOrder event ↔ server.clientIndex < capacity)
  | answers (startIndex : Nat) (inside : startIndex < server.clientIndex)
      (listed : following.listed = server.listed.dropLast)
      (clientIndex : following.clientIndex = server.clientIndex - 1)
      (sockets : following.sockets = server.sockets.erase (server.clientFd startIndex))
      (keepsTable : server.KeepsTable event ↔
        server.Removes following (server.clientFd startIndex))
      (keepsOrder : server.KeepsOrder event ↔ (startIndex : Int) + 1 = server.clientIndex)
  | leaves (startIndex : Nat) (inside : startIndex < server.clientIndex)
      (listed : following.listed = server.listed)
      (keepsTable : server.KeepsTable event ↔
        server.Removes following (server.clientFd startIndex))
      (keepsOrder : ¬server.KeepsOrder event)
  | stays
      (listed : server.clientIndex ≤ capacity → following.listed = server.listed)
      (clientIndex : following.clientIndex = server.clientIndex)
      (sockets : following.sockets = server.sockets)
      (keepsTable : server.KeepsTable event)
      (keepsOrder : server.KeepsOrder event)

theorem stores_none (stores : server.stores event = none) :
    ∀ j, server.stores event = some j → 0 ≤ j ∧ j < capacity := by
  rw [stores]
  exact fun j same => nomatch same

theorem tableStep (step : machine.next server event = some following) :
    TableStep server event following := by
  rcases Machine.guarded_next_eq_some.mp step with ⟨enabled, rfl⟩
  cases event with
  | accept csock address =>
      refine .joins csock enabled.2.2.2.1 (fun nonnegative =>
        listed_addClient nonnegative csock address) rfl rfl ?_ Iff.rfl
      exact ⟨fun keeps => keeps.1 _ rfl, fun room => ⟨fun j same =>
        Option.some.inj same ▸ room, trivial⟩⟩
  | read startIndex data =>
      have keepsTable : server.KeepsTable (.read startIndex data) ↔
          server.Removes (server.after (.read startIndex data)) (server.clientFd startIndex) :=
        and_iff_right (stores_none rfl)
      have inside := enabled.1.1.2
      by_cases nothing : data = []
      · subst nothing
        have same := afterRead_of_nothing server startIndex (Int.le_refl 0)
        exact .leaves startIndex inside same.listed keepsTable fun keeps => keeps.1 rfl
      · have same := afterRead_of_bytes server startIndex nothing
        refine .answers startIndex inside ?_ same.clientIndex same.sockets keepsTable
          (and_iff_right nothing)
        exact listed_dropLast same.clientFd same.clientIndex
  | readFails startIndex reset =>
      have same := afterRead_of_nothing server startIndex (by decide : (-1 : Int) ≤ 0)
      cases reset with
      | true =>
          refine .leaves startIndex enabled.1.2 same.listed ?_ Bool.noConfusion
          exact ⟨fun keeps => keeps.2 rfl, fun removes => ⟨stores_none rfl, fun _ => removes⟩⟩
      | false =>
          exact .stays (fun _ => same.listed) same.clientIndex same.sockets
            ⟨stores_none rfl, Bool.noConfusion⟩ rfl
  | elsewhere cells =>
      refine .stays (fun fits => ?_) rfl rfl ⟨stores_none rfl, trivial⟩ trivial
      exact listed_congr rfl fun j nonnegative inside =>
        if_pos ⟨nonnegative, Int.lt_of_lt_of_le inside fits⟩
  | _ => exact .stays (fun _ => rfl) rfl rfl ⟨stores_none rfl, trivial⟩ trivial

/-! ## Steps and runs -/

theorem InOrder.clientFd (inOrder : InOrder server) {startIndex : Nat}
    (inside : startIndex < server.clientIndex) :
    ∃ present : startIndex < server.listed.length,
      server.listed[startIndex] = server.clientFd startIndex := by
  have length := length_listed inOrder.fits.1
  have present : startIndex < server.listed.length := by omega
  refine ⟨present, ?_⟩
  simp only [Server.listed, List.getElem_map, List.getElem_range]

theorem InOrder.nodup (inOrder : InOrder server) : server.listed.Nodup := by
  rw [inOrder.listed]
  exact inOrder.once

theorem InOrder.erase_last (inOrder : InOrder server) {startIndex : Nat}
    (last : (startIndex : Int) + 1 = server.clientIndex) :
    server.listed.erase (server.clientFd startIndex) = server.listed.dropLast := by
  have length := length_listed inOrder.fits.1
  have inside : startIndex < server.clientIndex := by omega
  rcases inOrder.clientFd inside with ⟨present, cell⟩
  rw [← cell, inOrder.nodup.erase_getElem startIndex present]
  exact List.eraseIdx_eq_dropLast (by omega)

/-- In a table without repetitions, the decrement removes the client that is last. -/
theorem InOrder.removes_iff (inOrder : InOrder server) {startIndex : Nat}
    (inside : startIndex < server.clientIndex)
    (listed : following.listed = server.listed.dropLast) :
    server.Removes following (server.clientFd startIndex) ↔
      (startIndex : Int) + 1 = server.clientIndex := by
  have length := length_listed inOrder.fits.1
  rcases inOrder.clientFd inside with ⟨present, cell⟩
  rw [Removes, listed]
  constructor
  · intro removes
    by_contra notLast
    have earlier : startIndex < server.listed.dropLast.length := by
      rw [List.length_dropLast]
      omega
    have stays : server.clientFd startIndex ∈ server.listed.dropLast := by
      rw [← cell, ← List.getElem_dropLast earlier]
      exact List.getElem_mem earlier
    exact ((removes _).mp stays).2 rfl
  · intro last other
    rw [← inOrder.erase_last last, inOrder.nodup.mem_erase_iff]
    exact and_comm

theorem InOrder.keepsTable_iff (inOrder : InOrder server)
    (step : machine.next server event = some following) :
    server.KeepsTable event ↔ server.KeepsOrder event := by
  cases tableStep step with
  | joins csock fresh listed clientIndex sockets keepsTable keepsOrder =>
      rw [keepsTable, keepsOrder]
      exact and_iff_right inOrder.fits.1
  | answers startIndex inside listed clientIndex sockets keepsTable keepsOrder =>
      rw [keepsTable, keepsOrder]
      exact inOrder.removes_iff inside listed
  | leaves startIndex inside listed keepsTable keepsOrder =>
      rw [keepsTable, iff_false_right keepsOrder]
      intro removes
      rcases inOrder.clientFd inside with ⟨present, cell⟩
      have still : server.clientFd startIndex ∈ following.listed := by
        rw [listed, ← cell]
        exact List.getElem_mem present
      exact ((removes _).mp still).2 rfl
  | stays listed clientIndex sockets keepsTable keepsOrder =>
      exact iff_of_true keepsTable keepsOrder

theorem InOrder.next (inOrder : InOrder server) (keeps : server.KeepsOrder event)
    (step : machine.next server event = some following) : InOrder following := by
  rcases inOrder with ⟨⟨nonnegative, fits⟩, equal, once⟩
  cases tableStep step with
  | joins csock fresh listed clientIndex sockets keepsTable keepsOrder =>
      have room := keepsOrder.mp keeps
      refine ⟨?_, ?_, ?_⟩
      · rw [clientIndex]
        omega
      · rw [listed nonnegative, sockets, equal]
      · rw [sockets]
        have new : csock ∉ server.sockets := fun member => fresh (Or.inr (Or.inr member))
        exact List.nodup_append'.mpr ⟨once, List.nodup_singleton _,
          List.disjoint_singleton.mpr new⟩
  | answers startIndex inside listed clientIndex sockets keepsTable keepsOrder =>
      have last := InOrder.erase_last ⟨⟨nonnegative, fits⟩, equal, once⟩ (keepsOrder.mp keeps)
      refine ⟨?_, ?_, ?_⟩
      · rw [clientIndex]
        omega
      · rw [listed, sockets, ← last, equal]
      · rw [sockets]
        exact once.sublist List.erase_sublist
  | leaves startIndex inside listed keepsTable keepsOrder =>
      exact absurd keeps keepsOrder
  | stays listed clientIndex sockets keepsTable keepsOrder =>
      refine ⟨?_, ?_, ?_⟩
      · rw [clientIndex]
        exact ⟨nonnegative, fits⟩
      · rw [listed fits, sockets, equal]
      · rw [sockets]
        exact once

theorem InOrder.listsClients (inOrder : InOrder server) : server.ListsClients := by
  refine ⟨inOrder.fits, fun fd => ?_⟩
  rw [inOrder.listed]
  exact inOrder.once.count

theorem inOrder_start (ssock : Fd) (inherited : List Fd) (cells : Int → Fd) (mesg : Bytes) :
    InOrder (start ssock inherited cells mesg) :=
  ⟨⟨Int.le_refl 0, Int.natCast_nonneg capacity⟩, rfl, List.nodup_nil⟩

/-- The table is right at every loop head, and every step does to it what it is to do. -/
def TableThroughout (server : Server) (events : List ServerEvent) : Prop :=
  machine.StatesSatisfy (fun visited => visited.position = .head → visited.ListsClients)
      server events ∧
    machine.StepsSatisfy KeepsTable server events

/-- The table is right throughout a run exactly if the steps of the run all meet the
condition. -/
theorem tableThroughout_run (ssock : Fd) (inherited : List Fd) (cells : Int → Fd)
    (mesg : Bytes) (events : List ServerEvent) :
    TableThroughout (start ssock inherited cells mesg) events ↔
      machine.StepsSatisfy KeepsOrder (start ssock inherited cells mesg) events := by
  have initially := inOrder_start ssock inherited cells mesg
  have preserved : ∀ (state : Server) event following, InOrder state →
      state.KeepsOrder event → machine.next state event = some following →
        InOrder following :=
    fun state event following inOrder keeps step => inOrder.next keeps step
  constructor
  · rintro ⟨_, keeps⟩
    apply keeps.imp ?_ ?_ initially
    · exact fun state event following inOrder keeps step =>
        inOrder.next ((inOrder.keepsTable_iff step).mp keeps) step
    · exact fun state event following inOrder keeps step =>
        (inOrder.keepsTable_iff step).mp keeps
  · intro keeps
    constructor
    · apply keeps.states preserved ?_ initially
      exact fun state inOrder _ => inOrder.listsClients
    · apply keeps.imp preserved ?_ initially
      exact fun state event following inOrder keeps step =>
        (inOrder.keepsTable_iff step).mpr keeps

def firstAnswered : List ServerEvent :=
  [.select [3], .accept 4 [192, 168, 0, 2], .endPass, .select [3], .accept 5 [192, 168, 0, 3],
    .endPass, .select [4], .noConnection, .read 0 [104, 105], .endScan, .endPass]

theorem not_tableThroughout_firstAnswered :
    ¬TableThroughout (start 3 [0, 1, 2] (fun _ => 0) []) firstAnswered := by
  intro throughout
  have reached : ∃ final,
      machine.run (start 3 [0, 1, 2] (fun _ => 0) []) firstAnswered = some final ∧
        final.position = .head ∧ final.listed = [4] ∧ final.sockets = [5] :=
    ⟨_, rfl, rfl, rfl, rfl⟩
  rcases reached with ⟨final, run, atHead, listed, sockets⟩
  have counted := (throughout.1.final run atHead).once 5
  rw [listed, sockets] at counted
  exact absurd counted (by decide)

end RaspberryPi.Select.Server
