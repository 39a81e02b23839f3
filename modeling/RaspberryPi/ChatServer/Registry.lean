import Mathlib.Data.Finset.Dedup
import Mathlib.Data.Finset.SDiff
import RaspberryPi.ChatServer.Chat

/-! # Registering and removing children

The accept path of `main` and `clean_active_process`, over the tables of the
parent, its open descriptors and its unreaped children. What the kernel answers
is part of the call; an answer that a kernel cannot give has no result. -/

namespace RaspberryPi.ChatServer

open CString

/-- A forked client child, and the pipe ends the parent keeps for it. -/
structure Child where
  pid : Pid
  parentToChildWriteFd : Fd
  childToParentReadFd : Fd
deriving DecidableEq

namespace Child

def fds (child : Child) : List Fd :=
  [child.parentToChildWriteFd, child.childToParentReadFd]

def connection (child : Child) : Pid × Fd × Fd × Bool :=
  (child.pid, child.parentToChildWriteFd, child.childToParentReadFd, true)

end Child

def PipeInfo.fds (client : PipeInfo) : List Fd :=
  [client.parentToChildWriteFd, client.childToParentReadFd]

/-- The parent with what the kernel knows of it: its descriptors, its client
children in accept order, its other children, and which of them have exited but
were not waited for. -/
structure Server where
  parent : Parent
  openFds : Finset Fd
  forked : List Child
  others : Finset Pid
  exited : Finset Pid

/-- The answers to one `accept` that returned a socket, and to the calls after
it: `pipe(child_pfd)`, `pipe(parent_pfd)`, `set_nonblocking` and `fork`. -/
structure AcceptAttempt where
  csock : Fd
  address : Bytes
  childPfd : Option (Fd × Fd)
  parentPfd : Option (Fd × Fd)
  nonblocking : Bool
  fork : Option Pid

def FreshFds (openFds : Finset Fd) (fds : List Fd) : Prop :=
  fds.Nodup ∧ ∀ fd ∈ fds, fd ∉ openFds

instance (openFds : Finset Fd) (fds : List Fd) : Decidable (FreshFds openFds fds) :=
  inferInstanceAs (Decidable (_ ∧ _))

namespace Server

def boot (buffer : MesgBuffer) (before : Finset Fd) (others : Finset Pid) : Server where
  parent := .boot buffer
  openFds := before
  forked := []
  others := others
  exited := ∅

def opened (server : Server) (fds : List Fd) : Server :=
  { server with openFds := server.openFds ∪ fds.toFinset }

def closed (server : Server) (fds : List Fd) : Server :=
  { server with openFds := server.openFds \ fds.toFinset }

/-- A pid `fork` may return: it is in range and belongs to no unreaped child. -/
def FreshPid (server : Server) (pid : Pid) : Prop :=
  0 < pid ∧ (pid : Int) ≤ intMax ∧ pid ∉ server.forked.map Child.pid ∧ pid ∉ server.others

instance (server : Server) (pid : Pid) : Decidable (server.FreshPid pid) :=
  inferInstanceAs (Decidable (_ ∧ _))

/-! ## The accept path -/

/-- `inet_ntop(AF_INET, ..., mesg_buffer, BUFSIZ)`. -/
def storeAddress (server : Server) (address : Bytes) : Server :=
  { server with
    parent := { server.parent with
      mesgBuffer := server.parent.mesgBuffer.store (address ++ [0]) } }

def registerChild (server : Server) (csock : Fd) (parentPfd childPfd : Fd × Fd)
    (pid : Pid) : Server :=
  let server := server.closed [csock, parentPfd.1, childPfd.2]
  let child : Child := ⟨pid, parentPfd.2, childPfd.1⟩
  let server := { server with forked := server.forked ++ [child] }
  if free : server.parent.activeChildren.count < maxClient then
    let client : PipeInfo := ⟨pid, .zeroed, .zeroed, parentPfd.2, childPfd.1, true⟩
    { server with
      parent := { server.parent with
        activeChildren := server.parent.activeChildren.push client free } }
  else server.closed [parentPfd.2, childPfd.1]

def forkChild (server : Server) (attempt : AcceptAttempt) (parentPfd childPfd : Fd × Fd) :
    Option Server :=
  if attempt.nonblocking = false then
    some (server.closed
      [attempt.csock, parentPfd.1, parentPfd.2, childPfd.1, childPfd.2])
  else match attempt.fork with
    | none => some (server.closed
        [attempt.csock, parentPfd.1, parentPfd.2, childPfd.1, childPfd.2])
    | some pid =>
        if server.FreshPid pid then
          some (server.registerChild attempt.csock parentPfd childPfd pid)
        else none

def createParentPipe (server : Server) (attempt : AcceptAttempt) (childPfd : Fd × Fd) :
    Option Server :=
  match attempt.parentPfd with
  | none => some (server.closed [childPfd.1, childPfd.2, attempt.csock])
  | some parentPfd =>
      if FreshFds server.openFds [parentPfd.1, parentPfd.2] then
        (server.opened [parentPfd.1, parentPfd.2]).forkChild attempt parentPfd childPfd
      else none

def createPipes (server : Server) (attempt : AcceptAttempt) : Option Server :=
  match attempt.childPfd with
  | none => some (server.closed [attempt.csock])
  | some childPfd =>
      if FreshFds server.openFds [childPfd.1, childPfd.2] then
        (server.opened [childPfd.1, childPfd.2]).createParentPipe attempt childPfd
      else none

def acceptClient (server : Server) (attempt : AcceptAttempt) : Option Server :=
  if attempt.csock ∈ server.openFds then none
  else
    let server := (server.opened [attempt.csock]).storeAddress attempt.address
    if maxClient ≤ server.parent.activeChildren.count then
      some (server.closed [attempt.csock])
    else server.createPipes attempt

/-! ## Removal -/

def removeChild (server : Server) (pid : Pid) : Server :=
  match server.parent.clients.findIdx? fun client => decide (client.pid = pid) with
  | none => server
  | some index =>
      let fds := match server.parent.clients[index]? with
        | some client => [client.parentToChildWriteFd, client.childToParentReadFd]
        | none => []
      let server := server.closed fds
      let inactive := server.parent.activeChildren.modify index fun client =>
        { client with isActive := false }
      { server with parent := { server.parent with
          activeChildren := inactive.removeAt index } }

def waited (server : Server) (pid : Pid) : Server :=
  { server with
    forked := server.forked.filter fun child => decide (child.pid ≠ pid)
    others := server.others.erase pid
    exited := server.exited.erase pid }

def reapChild (server : Server) (pid : Pid) : Option Server :=
  if pid ∈ server.exited then some ((server.waited pid).removeChild pid) else none

/-- A call of `clean_active_process`; `waitpid` returns `reaped` one by one and
then finds no exited child. -/
def cleanActiveProcess (server : Server) : List Pid → Option Server
  | [] => if server.exited = ∅ then some server else none
  | pid :: reaped => (server.reapChild pid).bind fun server =>
      server.cleanActiveProcess reaped

/-! ## What an accept path leaves behind -/

def addClient (server : Server) (child : Child)
    (free : server.parent.activeChildren.count < maxClient) : Server :=
  let client : PipeInfo :=
    ⟨child.pid, .zeroed, .zeroed, child.parentToChildWriteFd, child.childToParentReadFd, true⟩
  { server with
    parent := { server.parent with
      activeChildren := server.parent.activeChildren.push client free }
    openFds := server.openFds ∪ child.fds.toFinset
    forked := server.forked ++ [child] }

theorem freshFds_append {server : Server} {first second : List Fd}
    (firstFresh : FreshFds server.openFds first)
    (secondFresh : FreshFds (server.opened first).openFds second) :
    FreshFds server.openFds (first ++ second) := by
  have apart : ∀ fd ∈ second, fd ∉ server.openFds ∧ fd ∉ first := by
    intro fd member
    simpa [opened] using secondFresh.2 fd member
  refine ⟨List.nodup_append'.mpr ⟨firstFresh.1, secondFresh.1, ?_⟩, ?_⟩
  · exact fun fd inFirst inSecond => (apart fd inSecond).2 inFirst
  · intro fd member
    rcases List.mem_append.mp member with member | member
    · exact firstFresh.2 fd member
    · exact (apart fd member).1

theorem opened_opened (server : Server) (first second : List Fd) :
    (server.opened first).opened second = server.opened (first ++ second) := by
  simp only [opened, List.toFinset_append, Finset.union_assoc]

theorem closed_opened {server : Server} {fds : List Fd} (closing : List Fd)
    (fresh : FreshFds server.openFds fds) (same : ∀ fd, fd ∈ closing ↔ fd ∈ fds) :
    (server.opened fds).closed closing = server := by
  have kept : (server.openFds ∪ fds.toFinset) \ closing.toFinset = server.openFds := by
    ext fd
    have outside := fresh.2 fd
    have closes := same fd
    simp only [Finset.mem_sdiff, Finset.mem_union, List.mem_toFinset]
    tauto
  simp only [closed, opened, kept]

def Refuses (server : Server) (attempt : AcceptAttempt) : Prop :=
  maxClient ≤ server.parent.activeChildren.count ∨ attempt.childPfd = none ∨
    attempt.parentPfd = none ∨ attempt.nonblocking = false ∨ attempt.fork = none

instance (server : Server) (attempt : AcceptAttempt) : Decidable (server.Refuses attempt) :=
  inferInstanceAs (Decidable (_ ∨ _))

def Accepted (server : Server) (attempt : AcceptAttempt) (next : Server) : Prop :=
  server.Refuses attempt ∧ next = server ∨
    ¬server.Refuses attempt ∧
      ∃ child free, server.FreshPid child.pid ∧ FreshFds server.openFds child.fds ∧
        attempt.fork = some child.pid ∧ next = server.addClient child free

theorem registerChild_eq {server : Server} {csock : Fd} {parentPfd childPfd : Fd × Fd}
    (pid : Pid) (free : server.parent.activeChildren.count < maxClient)
    (fresh : FreshFds server.openFds
      [csock, childPfd.1, childPfd.2, parentPfd.1, parentPfd.2]) :
    (server.opened [csock, childPfd.1, childPfd.2, parentPfd.1, parentPfd.2]).registerChild
        csock parentPfd childPfd pid =
      server.addClient ⟨pid, parentPfd.2, childPfd.1⟩ free := by
  have kept : (server.openFds ∪
      [csock, childPfd.1, childPfd.2, parentPfd.1, parentPfd.2].toFinset) \
        [csock, parentPfd.1, childPfd.2].toFinset =
      server.openFds ∪ [parentPfd.2, childPfd.1].toFinset := by
    rcases fresh with ⟨distinct, outside⟩
    ext fd
    have outsideHere := outside fd
    simp only [List.nodup_cons, List.mem_cons, not_or] at distinct outsideHere
    simp only [Finset.mem_sdiff, Finset.mem_union, List.mem_toFinset, List.mem_cons]
    grind
  simp only [registerChild, opened, closed, free, dif_pos, kept, addClient, Child.fds]

theorem forkChild_ok {server next : Server} {attempt : AcceptAttempt}
    {parentPfd childPfd : Fd × Fd} (childPipe : attempt.childPfd = some childPfd)
    (parentPipe : attempt.parentPfd = some parentPfd)
    (free : server.parent.activeChildren.count < maxClient)
    (fresh : FreshFds server.openFds
      [attempt.csock, childPfd.1, childPfd.2, parentPfd.1, parentPfd.2])
    (done : (server.opened [attempt.csock, childPfd.1, childPfd.2, parentPfd.1,
      parentPfd.2]).forkChild attempt parentPfd childPfd = some next) :
    server.Accepted attempt next := by
  have closesAll := closed_opened
    [attempt.csock, parentPfd.1, parentPfd.2, childPfd.1, childPfd.2] fresh
    (by intro fd; simp only [List.mem_cons]; tauto)
  by_cases blocking : attempt.nonblocking = false
  · rw [forkChild, if_pos blocking, closesAll, Option.some.injEq] at done
    exact Or.inl ⟨by simp [Refuses, blocking], done.symm⟩
  rw [forkChild, if_neg blocking] at done
  cases forked : attempt.fork with
  | none =>
      simp only [forked, closesAll, Option.some.injEq] at done
      exact Or.inl ⟨by simp [Refuses, forked], done.symm⟩
  | some pid =>
      simp only [forked] at done
      split_ifs at done with freshPid
      rw [registerChild_eq pid free fresh, Option.some.injEq] at done
      have keptFresh : FreshFds server.openFds [parentPfd.2, childPfd.1] := by
        refine ⟨?_, fun fd member => fresh.2 fd ?_⟩
        · have distinct := fresh.1
          simp only [List.nodup_cons, List.mem_cons, not_or] at distinct ⊢
          grind
        · simp only [List.mem_cons] at member ⊢
          tauto
      have succeeds : ¬server.Refuses attempt := by
        simp [Refuses, childPipe, parentPipe, blocking, forked, Nat.not_le.mpr free]
      exact Or.inr ⟨succeeds, ⟨pid, parentPfd.2, childPfd.1⟩, free, freshPid, keptFresh,
        forked, done.symm⟩

theorem createParentPipe_ok {server next : Server} {attempt : AcceptAttempt}
    {childPfd : Fd × Fd} (childPipe : attempt.childPfd = some childPfd)
    (free : server.parent.activeChildren.count < maxClient)
    (fresh : FreshFds server.openFds [attempt.csock, childPfd.1, childPfd.2])
    (done : (server.opened [attempt.csock, childPfd.1, childPfd.2]).createParentPipe
      attempt childPfd = some next) :
    server.Accepted attempt next := by
  rw [createParentPipe] at done
  cases answer : attempt.parentPfd with
  | none =>
      have closesAll := closed_opened [childPfd.1, childPfd.2, attempt.csock] fresh
        (by intro fd; simp only [List.mem_cons]; tauto)
      simp only [answer, closesAll, Option.some.injEq] at done
      exact Or.inl ⟨by simp [Refuses, answer], done.symm⟩
  | some parentPfd =>
      simp only [answer] at done
      split_ifs at done with parentFresh
      rw [opened_opened] at done
      exact forkChild_ok childPipe answer free (freshFds_append fresh parentFresh) done

theorem createPipes_ok {server next : Server} {attempt : AcceptAttempt}
    (free : server.parent.activeChildren.count < maxClient)
    (fresh : FreshFds server.openFds [attempt.csock])
    (done : (server.opened [attempt.csock]).createPipes attempt = some next) :
    server.Accepted attempt next := by
  rw [createPipes] at done
  cases answer : attempt.childPfd with
  | none =>
      simp only [answer, closed_opened [attempt.csock] fresh fun fd => Iff.rfl,
        Option.some.injEq] at done
      exact Or.inl ⟨by simp [Refuses, answer], done.symm⟩
  | some childPfd =>
      simp only [answer] at done
      split_ifs at done with childFresh
      rw [opened_opened] at done
      exact createParentPipe_ok answer free (freshFds_append fresh childFresh) done

/-- Once a connection was accepted, either nothing is left of it but its
address in the buffer, or one child was registered. -/
theorem acceptClient_ok {server next : Server} {attempt : AcceptAttempt}
    (done : server.acceptClient attempt = some next) :
    (server.storeAddress attempt.address).Accepted attempt next := by
  rw [acceptClient] at done
  by_cases inUse : attempt.csock ∈ server.openFds
  · rw [if_pos inUse] at done
    cases done
  rw [if_neg inUse] at done
  have fresh : FreshFds (server.storeAddress attempt.address).openFds [attempt.csock] :=
    ⟨List.nodup_singleton _, fun fd member => List.mem_singleton.mp member ▸ inUse⟩
  by_cases full : maxClient ≤ server.parent.activeChildren.count
  · have refused := (if_pos full).symm.trans done
    rw [Option.some.injEq] at refused
    exact Or.inl ⟨Or.inl full, refused.symm.trans
      (closed_opened [attempt.csock] fresh fun fd => Iff.rfl)⟩
  · exact createPipes_ok (Nat.lt_of_not_le full) fresh ((if_neg full).symm.trans done)

/-! ## What a removal leaves behind -/

structure Removed (server : Server) (pid : Pid) (next : Server) : Prop where
  clients : next.parent.clients =
    server.parent.clients.filter fun client => decide (client.pid ≠ pid)
  rooms : next.parent.rooms = server.parent.rooms
  openFds : next.openFds = server.openFds \
    ((server.parent.clients.filter fun client => decide (client.pid = pid)).flatMap
      PipeInfo.fds).toFinset
  forked : next.forked = server.forked
  others : next.others = server.others
  exited : next.exited = server.exited

theorem removeChild_removed (server : Server) (pid : Pid)
    (distinct : (server.parent.clients.map PipeInfo.pid).Nodup) :
    server.Removed pid (server.removeChild pid) := by
  rw [removeChild]
  cases position : server.parent.clients.findIdx? fun client => decide (client.pid = pid) with
  | none =>
      have absent := List.findIdx?_eq_none_iff.mp position
      have nobody : (server.parent.clients.filter fun client =>
          decide (client.pid = pid)) = [] := by
        rw [List.filter_eq_nil_iff]
        exact fun client member => by simpa using absent client member
      have everybody : (server.parent.clients.filter fun client =>
          decide (client.pid ≠ pid)) = server.parent.clients := by
        rw [List.filter_eq_self]
        exact fun client member => by simpa using absent client member
      exact ⟨everybody.symm, rfl, by simp [nobody], rfl, rfl, rfl⟩
  | some index =>
      rcases List.findIdx?_eq_some_iff_getElem.mp position with ⟨inRange, isPid, _⟩
      have equalPid : server.parent.clients[index].pid = pid := by simpa using isPid
      have only := filter_key_eq distinct (List.getElem_mem inRange)
      rw [equalPid] at only
      have used : index < server.parent.activeChildren.count := by
        rwa [Parent.clients, Table.length_entries] at inRange
      refine ⟨?_, rfl, ?_, rfl, rfl, rfl⟩
      · rw [← eraseP_eq_filter distinct pid, List.eraseP_eq_eraseIdx, position]
        exact Table.entries_removeAt_modify server.parent.activeChildren _ used
      · simp only [only, List.getElem?_eq_getElem inRange]
        simp [closed, PipeInfo.fds]

structure Cleaned (server : Server) (reaped : List Pid) (next : Server) : Prop where
  clients : next.parent.clients =
    server.parent.clients.filter fun client => decide (client.pid ∉ reaped)
  rooms : next.parent.rooms = server.parent.rooms
  openFds : next.openFds = server.openFds \
    ((server.parent.clients.filter fun client => decide (client.pid ∈ reaped)).flatMap
      PipeInfo.fds).toFinset
  forked : next.forked = server.forked.filter fun child => decide (child.pid ∉ reaped)
  others : next.others = server.others \ reaped.toFinset
  exited : server.exited = reaped.toFinset ∧ next.exited = ∅

theorem cleanActiveProcess_ok {server next : Server} {reaped : List Pid}
    (distinct : (server.parent.clients.map PipeInfo.pid).Nodup)
    (done : server.cleanActiveProcess reaped = some next) :
    server.Cleaned reaped next := by
  induction reaped generalizing server with
  | nil =>
      simp only [cleanActiveProcess] at done
      split_ifs at done with none
      cases done
      exact ⟨by simp, rfl, by simp, by simp, by simp, by simp [none]⟩
  | cons pid reaped induction =>
      rw [cleanActiveProcess, reapChild] at done
      by_cases exited : pid ∈ server.exited
      · rw [if_pos exited, Option.bind_some] at done
        have removed := removeChild_removed (server.waited pid) pid distinct
        have stillDistinct :
            (((server.waited pid).removeChild pid).parent.clients.map PipeInfo.pid).Nodup := by
          rw [removed.clients]
          exact distinct.sublist (List.filter_sublist.map _)
        have cleaned := induction stillDistinct done
        constructor
        · rw [cleaned.clients, removed.clients]
          exact filter_notMem_cons PipeInfo.pid server.parent.clients pid reaped
        · rw [cleaned.rooms, removed.rooms]
          rfl
        · rw [cleaned.openFds, removed.clients, removed.openFds]
          ext fd
          simp only [waited, Finset.mem_sdiff, List.mem_toFinset, List.mem_flatMap,
            List.mem_filter, decide_eq_true_eq, List.mem_cons]
          grind
        · rw [cleaned.forked, removed.forked]
          exact filter_notMem_cons Child.pid server.forked pid reaped
        · rw [cleaned.others, removed.others, waited]
          ext other
          simp only [Finset.mem_sdiff, Finset.mem_erase, List.mem_toFinset, List.mem_cons]
          tauto
        · have rest : server.exited.erase pid = reaped.toFinset := by
            rw [← cleaned.exited.1, removed.exited]
            rfl
          rw [List.toFinset_cons, ← rest, Finset.insert_erase exited]
          exact ⟨rfl, cleaned.exited.2⟩
      · rw [if_neg exited] at done
        cases done

end Server

end RaspberryPi.ChatServer
