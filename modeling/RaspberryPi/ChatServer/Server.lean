import RaspberryPi.Foundation.Machine
import RaspberryPi.ChatServer.Registry

/-! # Runs of the parent

Connections, exits of children, removals and reads, in any order. A run ends
where the C code would do something undefined. -/

namespace RaspberryPi.ChatServer

open CString

inductive Event
  | accept (attempt : AcceptAttempt)
  | exit (pid : Pid)
  | clean (reaped : List Pid)
  | read (index : Nat) (received : Bytes)

namespace Server

def exitChild (server : Server) (pid : Pid) : Option Server :=
  if (pid ∈ server.forked.map Child.pid ∨ pid ∈ server.others) ∧ pid ∉ server.exited then
    some { server with exited := insert pid server.exited }
  else none

def scanRead (server : Server) (index : Nat) (received : Bytes) :
    Option (Server × List Delivery) :=
  match server.parent.clients[index]? with
  | none => none
  | some child =>
      if child.isActive ∧ received ≠ [] ∧ received.length < bufsiz then
        match server.parent.handleMessage index received with
        | .ok (parent, deliveries) => some ({ server with parent }, deliveries)
        | .error _ => none
      else none

def next (server : Server) : Event → Option Server
  | .accept attempt => server.acceptClient attempt
  | .exit pid => server.exitChild pid
  | .clean reaped => server.cleanActiveProcess reaped
  | .read index received => (server.scanRead index received).map Prod.fst

/-- Its runs go on where `SIGPIPE` would end the parent; `LivesThrough` tells these steps
apart. -/
def machine : Machine Server Event := ⟨next⟩

/-! ## Writes that nobody reads -/

/-- Nobody reads the pipe of a child that has exited. A write of any bytes to it raises
`SIGPIPE`, which the parent leaves at its default. -/
def Kills (server : Server) (delivery : Delivery) : Prop :=
  delivery.pid ∈ server.exited ∧ delivery.bytes ≠ []

instance (server : Server) (delivery : Delivery) : Decidable (server.Kills delivery) :=
  inferInstanceAs (Decidable (_ ∧ _))

def Survives (server : Server) (deliveries : List Delivery) : Prop :=
  ∀ delivery ∈ deliveries, ¬server.Kills delivery

instance (server : Server) (deliveries : List Delivery) : Decidable (server.Survives deliveries) :=
  List.decidableBAll _ _

def written (server : Server) (deliveries : List Delivery) : List Delivery :=
  deliveries.takeWhile fun delivery => !decide (server.Kills delivery)

def LivesThrough (server : Server) : Event → Prop
  | .read index received => ∀ result ∈ server.scanRead index received, server.Survives result.2
  | .accept _ | .exit _ | .clean _ => True

instance (server : Server) (event : Event) : Decidable (server.LivesThrough event) := by
  cases event <;> unfold LivesThrough <;> infer_instance

theorem written_eq {server : Server} {deliveries : List Delivery}
    (survives : server.Survives deliveries) : server.written deliveries = deliveries :=
  List.takeWhile_eq_self_iff.mpr fun delivery member => by simpa using survives delivery member

theorem scanRead_ok {server next : Server} {index : Nat} {received : Bytes}
    {deliveries : List Delivery}
    (done : server.scanRead index received = some (next, deliveries)) :
    received ≠ [] ∧ received.length < bufsiz ∧
      server.parent.handleMessage index received = .ok (next.parent, deliveries) ∧
      next = { server with parent := next.parent } := by
  rw [scanRead] at done
  cases read : server.parent.clients[index]? with
  | none => simp [read] at done
  | some child =>
      simp only [read] at done
      split_ifs at done with readable
      cases handled : server.parent.handleMessage index received with
      | error fault => simp [handled] at done
      | ok result =>
          simp only [handled, Option.some.injEq, Prod.mk.injEq] at done
          rcases done with ⟨rfl, rfl⟩
          exact ⟨readable.2.1, readable.2.2, rfl, rfl⟩

theorem exitChild_ok {server next : Server} {pid : Pid}
    (done : server.exitChild pid = some next) :
    (pid ∈ server.forked.map Child.pid ∨ pid ∈ server.others) ∧
      next = { server with exited := insert pid server.exited } := by
  rw [exitChild] at done
  split_ifs at done with possible
  exact ⟨possible.1, (Option.some.inj done).symm⟩

/-! ## The registry -/

def childFds (server : Server) : List Fd := server.parent.clients.flatMap PipeInfo.fds

/-- The table lists the forked and unreaped client children, and the parent
holds two descriptors of its own for each. -/
structure RegistryHolds (before : Finset Fd) (server : Server) : Prop where
  listed : server.parent.clients.map PipeInfo.connection =
    server.forked.map Child.connection
  once : (server.forked.map Child.pid).Nodup
  inRange : ∀ child ∈ server.forked, 0 < child.pid ∧ (child.pid : Int) ≤ intMax
  othersApart : ∀ child ∈ server.forked, child.pid ∉ server.others
  openFds : server.openFds = before ∪ server.childFds.toFinset
  fdsFresh : FreshFds before server.childFds

theorem registryHolds_boot (buffer : MesgBuffer) (before : Finset Fd) (others : Finset Pid) :
    RegistryHolds before (boot buffer before others) where
  listed := rfl
  once := List.nodup_nil
  inRange := by simp [boot]
  othersApart := by simp [boot]
  openFds := by simp [boot, childFds]
  fdsFresh := by simp [FreshFds, boot, childFds]

theorem childFds_eq (server : Server) :
    server.childFds = (server.parent.clients.map PipeInfo.connection).flatMap
      fun connection => [connection.2.1, connection.2.2.1] := by
  rw [childFds, List.flatMap_map]
  rfl

namespace RegistryHolds

variable {before : Finset Fd} {server next : Server}

theorem pids (holds : RegistryHolds before server) :
    server.parent.clients.map PipeInfo.pid = server.forked.map Child.pid := by
  have listed := congrArg (List.map Prod.fst) holds.listed
  rwa [List.map_map, List.map_map] at listed

theorem distinct (holds : RegistryHolds before server) :
    (server.parent.clients.map PipeInfo.pid).Nodup := holds.pids ▸ holds.once

theorem exists_child (holds : RegistryHolds before server) {client : PipeInfo}
    (member : client ∈ server.parent.clients) :
    ∃ child ∈ server.forked, child.connection = client.connection := by
  have listed : client.connection ∈ server.forked.map Child.connection :=
    holds.listed ▸ List.mem_map_of_mem member
  exact List.mem_map.mp listed

theorem pidInRange (holds : RegistryHolds before server) {client : PipeInfo}
    (member : client ∈ server.parent.clients) : (client.pid : Int) ≤ intMax := by
  rcases holds.exists_child member with ⟨child, isForked, equal⟩
  have same : child.pid = client.pid := congrArg Prod.fst equal
  exact same ▸ (holds.inRange child isForked).2

theorem clientOf_pid (holds : RegistryHolds before server) {client : PipeInfo}
    (member : client ∈ server.parent.clients) :
    server.parent.clientOf client.pid = some client := by
  rw [Parent.clientOf]
  apply find?_eq_some_of_unique member
  · exact beq_self_eq_true _
  intro other isOther same
  have samePid : other.pid = client.pid := Int.ofNat_inj.mp (beq_iff_eq.mp same)
  exact List.inj_on_of_nodup_map holds.distinct isOther member samePid

theorem isActive (holds : RegistryHolds before server) {client : PipeInfo}
    (member : client ∈ server.parent.clients) : client.isActive = true := by
  rcases holds.exists_child member with ⟨child, _, equal⟩
  exact (congrArg (fun connection => connection.2.2.2) equal).symm

theorem members_distinct (holds : RegistryHolds before server) :
    (server.parent.chat.members.map Member.pid).Nodup := by
  rw [Parent.chat, List.map_map]
  exact holds.distinct

theorem congr (holds : RegistryHolds before server)
    (connections : next.parent.clients.map PipeInfo.connection =
      server.parent.clients.map PipeInfo.connection)
    (forked : next.forked = server.forked) (others : next.others = server.others)
    (openFds : next.openFds = server.openFds) : RegistryHolds before next where
  listed := by rw [connections, forked, holds.listed]
  once := forked ▸ holds.once
  inRange := forked ▸ holds.inRange
  othersApart := by rw [forked, others]; exact holds.othersApart
  openFds := by rw [openFds, childFds_eq, connections, ← childFds_eq, holds.openFds]
  fdsFresh := by rw [childFds_eq, connections, ← childFds_eq]; exact holds.fdsFresh

theorem addClient (holds : RegistryHolds before server) {child : Child}
    {free : server.parent.activeChildren.count < maxClient}
    (freshPid : server.FreshPid child.pid) (freshFds : FreshFds server.openFds child.fds) :
    RegistryHolds before (server.addClient child free) := by
  have clients : (server.addClient child free).parent.clients = server.parent.clients ++
      [⟨child.pid, .zeroed, .zeroed, child.parentToChildWriteFd,
        child.childToParentReadFd, true⟩] := Table.entries_push ..
  have fds : (server.addClient child free).childFds = server.childFds ++ child.fds := by
    simp [childFds, clients, PipeInfo.fds, Child.fds]
  rcases freshPid with ⟨positive, inRange, notForked, notOther⟩
  constructor
  · rw [clients, List.map_append, holds.listed]
    simp [Server.addClient, PipeInfo.connection, Child.connection]
  · simp only [Server.addClient, List.map_append, List.map_cons, List.map_nil]
    rw [List.nodup_append']
    exact ⟨holds.once, List.nodup_singleton _, by simpa using notForked⟩
  · intro other member
    rcases List.mem_append.mp member with old | new
    · exact holds.inRange other old
    · rw [List.mem_singleton.mp new]
      exact ⟨positive, inRange⟩
  · intro other member
    rcases List.mem_append.mp member with old | new
    · exact holds.othersApart other old
    · rw [List.mem_singleton.mp new]
      exact notOther
  · rw [fds, List.toFinset_append, ← Finset.union_assoc, ← holds.openFds]
    rfl
  · rw [fds]
    have apart : ∀ fd ∈ child.fds, fd ∉ before ∧ fd ∉ server.childFds := by
      intro fd member
      have outside := freshFds.2 fd member
      rw [holds.openFds] at outside
      simpa using outside
    refine ⟨List.nodup_append'.mpr ⟨holds.fdsFresh.1, freshFds.1, ?_⟩, ?_⟩
    · exact fun fd old new => (apart fd new).2 old
    · intro fd member
      rcases List.mem_append.mp member with old | new
      · exact holds.fdsFresh.2 fd old
      · exact (apart fd new).1

theorem cleaned (holds : RegistryHolds before server) {reaped : List Pid}
    (cleaned : server.Cleaned reaped next) : RegistryHolds before next := by
  have stays : next.childFds =
      (server.parent.clients.filter fun client => decide (client.pid ∉ reaped)).flatMap
        PipeInfo.fds := by rw [childFds, cleaned.clients]
  have apart := disjoint_flatMap_filter holds.fdsFresh.1 fun client =>
    decide (client.pid ∉ reaped)
  simp only [decide_not, Bool.not_not] at apart stays
  have kept : next.childFds.Sublist server.childFds := by
    rw [stays]
    exact List.filter_sublist.flatMap _
  constructor
  · have clients : next.parent.clients.map PipeInfo.connection =
        (server.parent.clients.map PipeInfo.connection).filter
          fun connection => decide (connection.1 ∉ reaped) := by
      rw [cleaned.clients, List.filter_map]
      rfl
    have forked : next.forked.map Child.connection =
        (server.forked.map Child.connection).filter
          fun connection => decide (connection.1 ∉ reaped) := by
      rw [cleaned.forked, List.filter_map]
      rfl
    rw [clients, forked, holds.listed]
  · rw [cleaned.forked]
    exact holds.once.sublist (List.filter_sublist.map _)
  · intro child member
    rw [cleaned.forked] at member
    exact holds.inRange child (List.mem_of_mem_filter member)
  · intro child member
    rw [cleaned.forked] at member
    rw [cleaned.others, Finset.mem_sdiff]
    exact fun other => holds.othersApart child (List.mem_of_mem_filter member) other.1
  · rw [cleaned.openFds, holds.openFds, stays]
    ext fd
    have old := holds.fdsFresh.2 fd
    have both := @apart fd
    simp only [childFds] at old ⊢
    simp only [Finset.mem_sdiff, Finset.mem_union, List.mem_toFinset, List.mem_flatMap,
      List.mem_filter, Bool.not_eq_true', decide_eq_true_eq, decide_eq_false_iff_not] at *
    grind
  · exact ⟨holds.fdsFresh.1.sublist kept, fun fd member =>
      holds.fdsFresh.2 fd (kept.subset member)⟩

end RegistryHolds

def Effect (server : Server) (next : Server) : Event → Prop
  | .accept attempt =>
      server.Refuses attempt ∧ next.parent.clients = server.parent.clients ∧
          next.openFds = server.openFds ∧ next.forked = server.forked ∨
        ¬server.Refuses attempt ∧ ∃ child,
          attempt.fork = some child.pid ∧ FreshFds server.openFds child.fds ∧
          next.parent.clients = server.parent.clients ++
            [⟨child.pid, .zeroed, .zeroed, child.parentToChildWriteFd,
              child.childToParentReadFd, true⟩] ∧
          next.openFds = server.openFds ∪ child.fds.toFinset ∧
          next.forked = server.forked ++ [child]
  | .exit _ =>
      next.parent.clients = server.parent.clients ∧ next.openFds = server.openFds ∧
        next.forked = server.forked
  | .clean reaped =>
      next.parent.clients =
          (server.parent.clients.filter fun client => decide (client.pid ∉ reaped)) ∧
        next.openFds = server.openFds \
          ((server.parent.clients.filter fun client => decide (client.pid ∈ reaped)).flatMap
            PipeInfo.fds).toFinset ∧
        next.forked = server.forked.filter fun child => decide (child.pid ∉ reaped)
  | .read _ _ =>
      next.parent.clients.map PipeInfo.connection =
          server.parent.clients.map PipeInfo.connection ∧
        next.openFds = server.openFds ∧ next.forked = server.forked

theorem next_effect {before : Finset Fd} {server next : Server} {event : Event}
    (holds : RegistryHolds before server) (step : server.next event = some next) :
    server.Effect next event := by
  cases event with
  | accept attempt =>
      rcases acceptClient_ok step with
        ⟨refuses, rfl⟩ | ⟨accepts, child, free, _, freshFds, forked, rfl⟩
      · exact Or.inl ⟨refuses, rfl, rfl, rfl⟩
      · exact Or.inr ⟨accepts, child, forked, freshFds, Table.entries_push .., rfl, rfl⟩
  | exit pid =>
      rcases exitChild_ok step with ⟨_, rfl⟩
      exact ⟨rfl, rfl, rfl⟩
  | clean reaped =>
      have cleaned := cleanActiveProcess_ok holds.distinct step
      exact ⟨cleaned.clients, cleaned.openFds, cleaned.forked⟩
  | read index received =>
      rcases Option.map_eq_some_iff.mp step with ⟨⟨_, deliveries⟩, done, rfl⟩
      rcases scanRead_ok done with ⟨_, fits, handled, equal⟩
      dsimp only at equal ⊢
      rw [equal]
      exact ⟨Parent.handleMessage_connections fits handled, rfl, rfl⟩

theorem next_holds {before : Finset Fd} {server next : Server} {event : Event}
    (holds : RegistryHolds before server) (step : server.next event = some next) :
    RegistryHolds before next := by
  cases event with
  | accept attempt =>
      rcases acceptClient_ok step with
        ⟨_, rfl⟩ | ⟨_, child, free, freshPid, freshFds, _, rfl⟩
      · exact holds.congr rfl rfl rfl rfl
      · have stored : RegistryHolds before (server.storeAddress attempt.address) :=
          holds.congr rfl rfl rfl rfl
        exact stored.addClient freshPid freshFds
  | exit pid =>
      rcases exitChild_ok step with ⟨_, rfl⟩
      exact holds.congr rfl rfl rfl rfl
  | clean reaped => exact holds.cleaned (cleanActiveProcess_ok holds.distinct step)
  | read index received =>
      rcases Option.map_eq_some_iff.mp step with ⟨⟨_, deliveries⟩, done, rfl⟩
      rcases scanRead_ok done with ⟨_, fits, handled, equal⟩
      dsimp only at equal ⊢
      rw [equal]
      exact holds.congr (Parent.handleMessage_connections fits handled) rfl rfl rfl

theorem registryHolds_run {buffer : MesgBuffer} {before : Finset Fd} {others : Finset Pid}
    {events : List Event} {server : Server}
    (reached : machine.run (boot buffer before others) events = some server) :
    RegistryHolds before server := by
  refine Machine.run_invariant ?_ (registryHolds_boot buffer before others) reached
  exact fun _ _ _ holds step => next_holds holds step

/-- In every run the table lists the unreaped client children, in accept order,
with two descriptors each, and every step changes it as it should. -/
theorem registry_run {buffer : MesgBuffer} {before : Finset Fd} {others : Finset Pid}
    {events : List Event} {server : Server}
    (reached : machine.run (boot buffer before others) events = some server) :
    RegistryHolds before server ∧
      server.parent.activeChildren.count ≤ maxClient ∧
      ∀ event next, server.next event = some next → server.Effect next event := by
  have holds := registryHolds_run reached
  exact ⟨holds, server.parent.activeChildren.countLe, fun _ _ step => next_effect holds step⟩

def twoClients : List Event :=
  [.accept ⟨4, [], some (5, 6), some (7, 8), true, some 100⟩,
    .accept ⟨4, [], some (6, 7), some (9, 10), true, some 101⟩, .exit 100, .clean [100]]

theorem registry_run_twoClients :
    ∃ server, machine.run (boot .zeroed {0, 1, 2, 3} ∅) twoClients = some server ∧
      server.parent.clients.map PipeInfo.pid = [101] ∧
      server.openFds = {0, 1, 2, 3} ∪ server.childFds.toFinset := by
  have reached : machine.run (boot .zeroed {0, 1, 2, 3} ∅) twoClients = some _ := rfl
  exact ⟨_, reached, rfl, (registry_run reached).1.openFds⟩

/-! ## The run of the chat -/

def Follows (server : Server) (next : Server) : Event → Prop
  | .accept attempt =>
      server.Refuses attempt ∧ next.parent.chat = server.parent.chat ∨
        ¬server.Refuses attempt ∧ ∃ pid,
          attempt.fork = some pid ∧ next.parent.chat = server.parent.chat.addClient pid
  | .exit _ => next.parent.chat = server.parent.chat
  | .clean reaped => next.parent.chat = server.parent.chat.remove reaped
  | .read index received => ∃ child content,
      server.parent.clients[index]? = some child ∧
        server.parent.contentOf received = some content ∧
        next.parent.chat = server.parent.chat.serve index (atoi (pidText (text received)))
          (requestOf (decide (child.name.text = [])) content)

theorem next_follows {before : Finset Fd} {server next : Server} {event : Event}
    (holds : RegistryHolds before server) (step : server.next event = some next) :
    server.Follows next event := by
  cases event with
  | accept attempt =>
      rcases acceptClient_ok step with
        ⟨refuses, rfl⟩ | ⟨accepts, child, free, _, _, forked, rfl⟩
      · exact Or.inl ⟨refuses, rfl⟩
      · refine Or.inr ⟨accepts, child.pid, forked, ?_⟩
        have clients : ((server.storeAddress attempt.address).addClient child free).parent.clients =
            server.parent.clients ++ [⟨child.pid, .zeroed, .zeroed,
              child.parentToChildWriteFd, child.childToParentReadFd, true⟩] :=
          Table.entries_push ..
        rw [Parent.chat, clients, List.map_append]
        rfl
  | exit pid =>
      rcases exitChild_ok step with ⟨_, rfl⟩
      rfl
  | clean reaped =>
      have cleaned := cleanActiveProcess_ok holds.distinct step
      rw [Follows, Parent.chat, cleaned.clients, cleaned.rooms, Chat.remove, Parent.chat,
        List.filter_map]
      rfl
  | read index received =>
      rcases Option.map_eq_some_iff.mp step with ⟨⟨_, deliveries⟩, done, rfl⟩
      rcases scanRead_ok done with ⟨_, fits, handled, _⟩
      rcases Parent.handleMessage_chat fits handled with
        ⟨child, behind, here, content, _, served, _⟩
      exact ⟨child, _, here, content, served⟩

end Server

end RaspberryPi.ChatServer
