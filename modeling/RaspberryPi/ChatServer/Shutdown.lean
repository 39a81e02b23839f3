import Mathlib.Data.Fintype.EquivFin
import RaspberryPi.Foundation.Progress
import RaspberryPi.ChatServer.Server

/-! # Shutdown

What `daemonize` leaves behind, and how `main` ends once `accept` has failed for
good: it terminates the listed children, waits for every child and closes its
listener. The child of `daemonize` is never told to end. -/

namespace RaspberryPi.ChatServer

/-! ## daemonize -/

inductive Fork
  | fails
  | parent (child : Pid)
  | child

inductive DaemonEnd
  /-- To `main`, in a process with these children. -/
  | returns (value : Int) (children : Finset Pid)
  | spins
deriving DecidableEq

/-- The descriptor that a call hands out. -/
def lowestFd (openFds : Finset Fd) : Fd := Nat.find (Infinite.exists_notMem_finset openFds)

def dupZero (openFds : Finset Fd) : Option Fd :=
  if 0 ∈ openFds then some (lowestFd openFds) else none

def openWith (openFds : Finset Fd) : Option Fd → Finset Fd
  | none => openFds
  | some fd => insert fd openFds

/-- `fd0`, `fd1` and `fd2`, where nothing stands for -1. -/
def nullFds (opens : Bool) (openFds : Finset Fd) : Option Fd × Option Fd × Option Fd :=
  let fd0 := if opens then some (lowestFd openFds) else none
  let openFds := openWith openFds fd0
  let fd1 := dupZero openFds
  (fd0, fd1, dupZero (openWith openFds fd1))

/-- How the call ends in the process that `fork` returns to. It closes what is below
`limit`, and `/dev/null` can be opened or not. -/
def daemonize (argc : Nat) (fork : Fork) (limit : Nat) (opens : Bool) (openFds : Finset Fd) :
    DaemonEnd :=
  if argc < 2 then .returns (-1) ∅
  else match fork with
    | .parent child => .returns 0 {child}
    | .fails | .child =>
        if nullFds opens (openFds.filter fun fd => limit ≤ fd) = (some 0, some 1, some 2) then
          .spins
        else .returns (-1) ∅

/-- Those of the server's children that never exit. -/
def spinning (argc limit : Nat) (opens : Bool) (openFds : Finset Fd) (children : Finset Pid) :
    Finset Pid :=
  if daemonize argc .child limit opens openFds = .spins then children else ∅

theorem lowestFd_eq_iff {openFds : Finset Fd} {fd : Fd} :
    lowestFd openFds = fd ↔ fd ∉ openFds ∧ ∀ other < fd, other ∈ openFds := by
  rw [lowestFd, Nat.find_eq_iff]
  simp only [not_not]

theorem nullFds_eq_iff {opens : Bool} {openFds : Finset Fd} :
    nullFds opens openFds = (some 0, some 1, some 2) ↔
      opens = true ∧ ∀ fd < 3, fd ∉ openFds := by
  cases opens with
  | false => simp [nullFds]
  | true =>
      have dup : ∀ rest : Finset Fd, dupZero (insert 0 rest) = some (lowestFd (insert 0 rest)) :=
        fun rest => if_pos (Finset.mem_insert_self 0 rest)
      simp only [nullFds, openWith, Prod.mk.injEq, Option.some.injEq, if_true, true_and]
      constructor
      · rintro ⟨first, second, third⟩
        rw [first, dup, Option.some.injEq] at second
        rw [first, dup, second] at third
        have third : dupZero (insert 1 (insert 0 openFds)) = some 2 := third
        have twoAbove : lowestFd (insert 1 (insert 0 openFds)) = 2 := by
          rw [Finset.insert_comm, dup, Option.some.injEq] at third
          rwa [Finset.insert_comm]
        have zeroFree := (lowestFd_eq_iff.mp first).1
        have oneFree := (lowestFd_eq_iff.mp second).1
        have twoFree := (lowestFd_eq_iff.mp twoAbove).1
        simp only [Finset.mem_insert, not_or] at oneFree twoFree
        intro fd below
        interval_cases fd
        · exact zeroFree
        · exact oneFree.2
        · exact twoFree.2.2
      · intro free
        have first : lowestFd openFds = 0 :=
          lowestFd_eq_iff.mpr ⟨free 0 (by decide), fun _ below => absurd below (Nat.not_lt_zero _)⟩
        have second : lowestFd (insert 0 openFds) = 1 := by
          have oneFree := free 1 (by decide)
          refine lowestFd_eq_iff.mpr ⟨by simp [oneFree], fun other below => ?_⟩
          simp [Nat.lt_one_iff.mp below]
        have third : lowestFd (insert 0 (insert 1 openFds)) = 2 := by
          have twoFree := free 2 (by decide)
          refine lowestFd_eq_iff.mpr ⟨by simp [twoFree], fun other below => ?_⟩
          interval_cases other <;> simp
        rw [first, dup, second]
        have last : dupZero (insert 1 (insert 0 openFds)) = some 2 := by
          rw [Finset.insert_comm, dup, third]
        exact ⟨rfl, rfl, last⟩

/-- The child spins for ever when the descriptors that it opens are the standard ones. -/
theorem daemonize_child_spins_iff {argc limit : Nat} {opens : Bool} {openFds : Finset Fd} :
    daemonize argc .child limit opens openFds = .spins ↔
      2 ≤ argc ∧ opens = true ∧ ∀ fd ∈ openFds, fd < 3 → fd < limit := by
  rw [daemonize]
  by_cases few : argc < 2
  · rw [if_pos few]
    exact iff_of_false (by decide) fun spins => absurd spins.1 (Nat.not_le.mpr few)
  · rw [if_neg few]
    have spins : (if nullFds opens (openFds.filter fun fd => limit ≤ fd) =
        (some 0, some 1, some 2) then DaemonEnd.spins else .returns (-1) ∅) = .spins ↔
          opens = true ∧ ∀ fd < 3, fd ∉ openFds.filter fun fd => limit ≤ fd := by
      rw [← nullFds_eq_iff, ite_eq_left_iff]
      simp only [reduceCtorEq, imp_false, not_not]
    refine spins.trans ?_
    simp only [Finset.mem_filter, not_and, not_le]
    constructor
    · rintro ⟨opened, closed⟩
      exact ⟨Nat.not_lt.mp few, opened, fun fd isOpen below => closed fd below isOpen⟩
    · rintro ⟨_, opened, closed⟩
      exact ⟨opened, fun fd below isOpen => closed fd isOpen below⟩

theorem daemonize_children_eq_empty_iff {argc limit : Nat} {opens : Bool} {openFds : Finset Fd}
    {daemon : Pid} {value : Int} {children : Finset Pid}
    (called : daemonize argc (.parent daemon) limit opens openFds = .returns value children) :
    children = ∅ ↔ argc < 2 := by
  rw [daemonize] at called
  split_ifs at called with few
  · cases called
    exact iff_of_true rfl few
  · cases called
    exact iff_of_false (Finset.singleton_ne_empty _) few

theorem spinning_eq {argc limit : Nat} {opens : Bool} {openFds : Finset Fd}
    {daemon : Pid} {value : Int} {children : Finset Pid}
    (called : daemonize argc (.parent daemon) limit opens openFds = .returns value children)
    (free : 2 ≤ argc → opens = true ∧ ∀ fd ∈ openFds, fd < 3 → fd < limit) :
    spinning argc limit opens openFds children = children := by
  rw [spinning, ite_eq_left_iff, daemonize_child_spins_iff]
  intro notSpinning
  have few : argc < 2 := by
    by_contra enough
    have enough := Nat.not_lt.mp enough
    exact notSpinning ⟨enough, free enough⟩
  exact ((daemonize_children_eq_empty_iff called).mpr few).symm

/-! ## The end of main -/

inductive Stage
  /-- In the loop over `active_children`. -/
  | terminating (i : Nat)
  | waiting
  /-- Before `close(ssock)`. -/
  | closing
  | returned
deriving DecidableEq

inductive ShutdownEvent
  /-- The test of the loop, and its body for the next client. -/
  | terminate
  | exit (pid : Pid)
  /-- `wait` returns a child. -/
  | wait (pid : Pid)
  /-- `wait` returns -1, because there is no child. -/
  | noChild
  /-- `wait` returns -1, because a `SIGUSR1` has come. -/
  | interrupt
  | close
deriving DecidableEq

structure Shutdown where
  server : Server
  ssock : Fd
  stage : Stage
  /-- The clients that `SIGTERM` was sent to. -/
  terminated : List Pid
  /-- `wait` did not end for want of children. -/
  interrupted : Bool

namespace Shutdown

def start (server : Server) (ssock : Fd) : Shutdown where
  server := server
  ssock := ssock
  stage := .terminating 0
  terminated := []
  interrupted := false

def terminate (state : Shutdown) (i : Nat) : Shutdown :=
  match state.server.parent.clients[i]? with
  | some client =>
      { state with
        server := state.server.closed client.fds
        terminated := state.terminated ++ [client.pid]
        stage := .terminating (i + 1) }
  | none => { state with stage := .waiting }

def next (state : Shutdown) : ShutdownEvent → Option Shutdown
  | .terminate =>
      match state.stage with
      | .terminating i => some (state.terminate i)
      | .waiting | .closing | .returned => none
  | .exit pid => (state.server.exitChild pid).map fun server => { state with server }
  | .wait pid =>
      if state.stage = .waiting ∧ pid ∈ state.server.exited then
        some { state with server := state.server.waited pid }
      else none
  | .noChild =>
      if state.stage = .waiting ∧ state.server.forked = [] ∧ state.server.others = ∅ then
        some { state with stage := .closing }
      else none
  | .interrupt =>
      if state.stage = .waiting then some { state with stage := .closing, interrupted := true }
      else none
  | .close =>
      if state.stage = .closing then
        some { state with server := state.server.closed [state.ssock], stage := .returned }
      else none

def machine : Machine Shutdown ShutdownEvent := ⟨next⟩

/-! What a step can do. -/

variable {state following : Shutdown} {pid : Pid}

theorem next_terminate_eq_some : state.next .terminate = some following ↔
    ∃ i, state.stage = .terminating i ∧ state.terminate i = following := by
  rw [next]
  cases stage : state.stage with
  | terminating i => simp only [Option.some.injEq, Stage.terminating.injEq, exists_eq_left']
  | waiting | closing | returned => simp only [reduceCtorEq, false_and, exists_false]

theorem next_exit_eq_some : state.next (.exit pid) = some following ↔
    ∃ server, state.server.exitChild pid = some server ∧ { state with server } = following :=
  Option.map_eq_some_iff

theorem next_wait_eq_some : state.next (.wait pid) = some following ↔
    (state.stage = .waiting ∧ pid ∈ state.server.exited) ∧
      { state with server := state.server.waited pid } = following := by
  rw [next, Option.ite_none_right_eq_some, Option.some.injEq]

theorem next_noChild_eq_some : state.next .noChild = some following ↔
    (state.stage = .waiting ∧ state.server.forked = [] ∧ state.server.others = ∅) ∧
      { state with stage := .closing } = following := by
  rw [next, Option.ite_none_right_eq_some, Option.some.injEq]

theorem next_interrupt_eq_some : state.next .interrupt = some following ↔
    state.stage = .waiting ∧
      { state with stage := .closing, interrupted := true } = following := by
  rw [next, Option.ite_none_right_eq_some, Option.some.injEq]

theorem next_close_eq_some : state.next .close = some following ↔
    state.stage = .closing ∧
      { state with server := state.server.closed [state.ssock], stage := .returned } =
        following := by
  rw [next, Option.ite_none_right_eq_some, Option.some.injEq]

end Shutdown

namespace Stage

def terminated (clients : List PipeInfo) : Stage → List Pid
  | terminating i => (clients.map PipeInfo.pid).take i
  | waiting | closing | returned => clients.map PipeInfo.pid

def openFds (before : Finset Fd) (ssock : Fd) (clients : List PipeInfo) : Stage → Finset Fd
  | terminating i => before ∪ ((clients.drop i).flatMap PipeInfo.fds).toFinset
  | waiting | closing => before
  | returned => before \ {ssock}

def IsOver : Stage → Prop
  | closing | returned => True
  | terminating _ | waiting => False

end Stage

namespace Shutdown

open Server (RegistryHolds)

/-- What holds from the `break` on, of a server that was `origin` there. -/
structure Sound (before : Finset Fd) (origin : Server) (state : Shutdown) : Prop where
  clients : state.server.parent.clients = origin.parent.clients
  terminated : state.terminated = state.stage.terminated origin.parent.clients
  openFds : state.server.openFds =
    state.stage.openFds before state.ssock origin.parent.clients
  /-- Each of them is a child that was not waited for. -/
  unwaited : ∀ i, state.stage = .terminating i → state.server.forked = origin.forked
  forked : state.server.forked ⊆ origin.forked
  others : state.server.others = origin.others
  alive : ∀ pid ∈ origin.others, pid ∉ state.server.exited
  past : state.stage.IsOver →
    state.interrupted = true ∨ state.server.forked = [] ∧ state.server.others = ∅
  interrupted : state.interrupted = true → state.stage.IsOver

def Stays (others : Finset Pid) : ShutdownEvent → Prop
  | .exit pid => pid ∉ others
  | .terminate | .wait _ | .noChild | .interrupt | .close => True

instance (others : Finset Pid) (event : ShutdownEvent) : Decidable (Stays others event) :=
  match event with
  | .exit pid => inferInstanceAs (Decidable (pid ∉ others))
  | .terminate | .wait _ | .noChild | .interrupt | .close => .isTrue trivial

variable {before : Finset Fd} {origin : Server} {state following : Shutdown}

theorem start_sound (holds : RegistryHolds before origin) (ssock : Fd)
    (alive : ∀ pid ∈ origin.others, pid ∉ origin.exited) :
    Sound before origin (start origin ssock) where
  clients := rfl
  terminated := rfl
  openFds := holds.openFds
  unwaited := fun _ _ => rfl
  forked := List.Subset.refl _
  others := rfl
  alive := alive
  past := fun past => past.elim
  interrupted := fun interrupted => nomatch interrupted

theorem openFds_terminating (holds : RegistryHolds before origin) {i : Nat} {client : PipeInfo}
    (ssock : Fd) (here : origin.parent.clients[i]? = some client) :
    (Stage.terminating i).openFds before ssock origin.parent.clients \ client.fds.toFinset =
      (Stage.terminating (i + 1)).openFds before ssock origin.parent.clients := by
  rcases List.getElem?_eq_some_iff.mp here with ⟨inRange, rfl⟩
  have suffix := holds.fdsFresh.1
  have outside := holds.fdsFresh.2
  rw [Server.childFds, ← List.take_append_drop i origin.parent.clients,
    List.drop_eq_getElem_cons inRange, List.flatMap_append, List.flatMap_cons] at suffix outside
  have apart := List.nodup_append'.mp (List.nodup_append'.mp suffix).2.1
  simp only [Stage.openFds, List.drop_eq_getElem_cons inRange, List.flatMap_cons]
  ext fd
  have notHere := outside fd
  have notBoth := @apart.2.2 fd
  simp only [List.mem_append] at notHere
  simp only [Finset.mem_sdiff, Finset.mem_union, List.mem_toFinset, List.mem_append]
  tauto

theorem terminate_sound (holds : RegistryHolds before origin) (sound : Sound before origin state)
    {i : Nat} (stage : state.stage = .terminating i) :
    Sound before origin (state.terminate i) := by
  have terminated := sound.terminated
  have openFds := sound.openFds
  have unwaited := sound.unwaited i stage
  have running : state.interrupted ≠ true := by
    intro interrupted
    have past := sound.interrupted interrupted
    rw [stage] at past
    exact past
  rw [stage] at terminated openFds
  rw [terminate]
  cases here : state.server.parent.clients[i]? with
  | some client =>
      rw [sound.clients] at here
      have pidHere : (origin.parent.clients.map PipeInfo.pid)[i]? = some client.pid := by
        rw [List.getElem?_map, here]
        rfl
      constructor
      · exact sound.clients
      · change state.terminated ++ [client.pid] = (origin.parent.clients.map _).take (i + 1)
        rw [terminated, List.take_add_one, pidHere]
        rfl
      · change state.server.openFds \ client.fds.toFinset = _
        rw [openFds, openFds_terminating holds state.ssock here]
      · exact fun _ _ => unwaited
      · exact sound.forked
      · exact sound.others
      · exact sound.alive
      · exact fun past => past.elim
      · exact fun interrupted => absurd interrupted running
  | none =>
      rw [sound.clients, List.getElem?_eq_none_iff] at here
      constructor
      · exact sound.clients
      · change state.terminated = origin.parent.clients.map _
        rw [terminated, Stage.terminated, List.take_of_length_le]
        simpa using here
      · change state.server.openFds = before
        rw [openFds, Stage.openFds, List.drop_eq_nil_of_le here]
        simp
      · intro _ impossible
        cases impossible
      · exact sound.forked
      · exact sound.others
      · exact sound.alive
      · exact fun past => past.elim
      · exact fun interrupted => absurd interrupted running

theorem next_sound (holds : RegistryHolds before origin) (sound : Sound before origin state)
    {event : ShutdownEvent} (stays : Stays origin.others event)
    (step : state.next event = some following) : Sound before origin following := by
  cases event with
  | terminate =>
      rcases next_terminate_eq_some.mp step with ⟨i, stage, rfl⟩
      exact terminate_sound holds sound stage
  | exit pid =>
      rcases next_exit_eq_some.mp step with ⟨server, done, rfl⟩
      rcases Server.exitChild_ok done with ⟨_, rfl⟩
      refine ⟨sound.clients, sound.terminated, sound.openFds, sound.unwaited, sound.forked,
        sound.others, ?_, sound.past, sound.interrupted⟩
      intro other isOther exited
      rcases Finset.mem_insert.mp exited with rfl | exited
      · exact stays isOther
      · exact sound.alive other isOther exited
  | wait pid =>
      rcases next_wait_eq_some.mp step with ⟨ready, rfl⟩
      have notOther : pid ∉ origin.others := fun isOther =>
        sound.alive pid isOther ready.2
      constructor
      · exact sound.clients
      · exact sound.terminated
      · exact sound.openFds
      · intro i impossible
        rw [ready.1] at impossible
        cases impossible
      · exact fun child member => sound.forked (List.mem_of_mem_filter member)
      · change state.server.others.erase pid = _
        rw [sound.others, Finset.erase_eq_of_notMem notOther]
      · exact fun other isOther exited =>
          sound.alive other isOther (Finset.mem_of_mem_erase exited)
      · intro past
        rw [ready.1] at past
        exact past.elim
      · exact sound.interrupted
  | noChild =>
      rcases next_noChild_eq_some.mp step with ⟨ready, rfl⟩
      have terminated := sound.terminated
      have openFds := sound.openFds
      rw [ready.1] at terminated openFds
      exact ⟨sound.clients, terminated, openFds, (fun _ impossible => nomatch impossible),
        sound.forked, sound.others, sound.alive, fun _ => Or.inr ready.2, fun _ => trivial⟩
  | interrupt =>
      rcases next_interrupt_eq_some.mp step with ⟨ready, rfl⟩
      have terminated := sound.terminated
      have openFds := sound.openFds
      rw [ready] at terminated openFds
      exact ⟨sound.clients, terminated, openFds, (fun _ impossible => nomatch impossible),
        sound.forked, sound.others, sound.alive, fun _ => Or.inl rfl, fun _ => trivial⟩
  | close =>
      rcases next_close_eq_some.mp step with ⟨ready, rfl⟩
      have terminated := sound.terminated
      have openFds := sound.openFds
      have past := sound.past (ready ▸ trivial)
      rw [ready] at terminated openFds
      refine ⟨sound.clients, terminated, ?_, (fun _ impossible => nomatch impossible),
        sound.forked, sound.others, sound.alive, fun _ => past, fun _ => trivial⟩
      change state.server.openFds \ [state.ssock].toFinset = before \ {state.ssock}
      rw [openFds]
      rfl

/-! ## The shutdown comes to its end -/

/-- Steps that wait for nothing but their turn; a client child is due to end once it was
sent `SIGTERM`. -/
def Due (state : Shutdown) : ShutdownEvent → Prop
  | .terminate | .wait _ | .noChild | .close => True
  | .exit pid => pid ∈ state.terminated
  | .interrupt => False

/-- The client children have ended. The server has waited for them and returned, unless it
was interrupted or has another child. -/
structure Settled (state : Shutdown) : Prop where
  ended : ∀ child ∈ state.server.forked, child.pid ∈ state.server.exited
  waited : state.interrupted = false → state.server.forked = []
  stage : state.stage = .returned ∧ (state.interrupted = true ∨ state.server.others = ∅) ∨
    state.stage = .waiting ∧ state.interrupted = false ∧ state.server.others ≠ ∅

def rank (state : Shutdown) : Nat :=
  match state.stage with
  | .terminating i => state.server.parent.clients.length - i + 3
  | .waiting => 2
  | .closing => 1
  | .returned => 0

def running (server : Server) : Finset Pid :=
  (server.forked.map Child.pid).toFinset \ server.exited

def work (state : Shutdown) : Nat :=
  state.rank + 2 * (running state.server).card + state.server.exited.card

theorem Sound.terminated_forked (sound : Sound before origin state)
    (holds : RegistryHolds before origin) {pid : Pid} (member : pid ∈ state.terminated) :
    pid ∈ origin.forked.map Child.pid := by
  rw [← holds.pids]
  rw [sound.terminated] at member
  cases stage : state.stage with
  | terminating i =>
      rw [stage] at member
      exact List.mem_of_mem_take member
  | waiting | closing | returned =>
      rw [stage] at member
      exact member

theorem stays_of_due (holds : RegistryHolds before origin) (sound : Sound before origin state)
    {event : ShutdownEvent} (due : state.Due event) : Stays origin.others event := by
  cases event with
  | exit pid =>
      intro isOther
      rcases List.mem_map.mp (sound.terminated_forked holds due) with ⟨child, isForked, rfl⟩
      exact holds.othersApart child isForked isOther
  | terminate | wait pid | noChild | close => trivial
  | interrupt => exact due.elim

theorem work_exit_lt {pid : Pid} {server : Server} (isRunning : pid ∈ running state.server)
    (done : state.server.exitChild pid = some server) :
    work { state with server } < work state := by
  rcases Server.exitChild_ok done with ⟨_, rfl⟩
  have notExited := (Finset.mem_sdiff.mp isRunning).2
  have fewer : running { state.server with exited := insert pid state.server.exited } =
      (running state.server).erase pid := Finset.sdiff_insert _ _ _
  have less := Finset.card_erase_lt_of_mem isRunning
  change state.rank +
    2 * (running { state.server with exited := insert pid state.server.exited }).card +
      (insert pid state.server.exited).card < work state
  rw [fewer, Finset.card_insert_of_notMem notExited, work]
  omega

theorem work_wait_lt {pid : Pid} (exited : pid ∈ state.server.exited) :
    work { state with server := state.server.waited pid } < work state := by
  have fewer : running (state.server.waited pid) ⊆ running state.server := by
    intro other member
    simp only [running, Server.waited, Finset.mem_sdiff, List.mem_toFinset, List.mem_map,
      List.mem_filter, Finset.mem_erase, decide_eq_true_eq, not_and] at member ⊢
    rcases member with ⟨⟨child, ⟨isForked, different⟩, rfl⟩, unlessWaited⟩
    exact ⟨⟨child, isForked, rfl⟩, unlessWaited different⟩
  have atMost := Finset.card_le_card fewer
  have less := Finset.card_erase_lt_of_mem exited
  change state.rank + 2 * (running (state.server.waited pid)).card +
    (state.server.exited.erase pid).card < work state
  rw [work]
  omega

theorem work_lt_of_rank (forked : following.server.forked = state.server.forked)
    (exited : following.server.exited = state.server.exited)
    (less : following.rank < state.rank) : work following < work state := by
  rw [work, work, running, running, forked, exited]
  omega

theorem work_terminate_lt {i : Nat} (stage : state.stage = .terminating i) :
    work (state.terminate i) < work state := by
  rw [terminate]
  cases here : state.server.parent.clients[i]? with
  | some client =>
      have inRange := (List.getElem?_eq_some_iff.mp here).1
      dsimp only
      refine work_lt_of_rank rfl rfl ?_
      change state.server.parent.clients.length - (i + 1) + 3 < state.rank
      rw [rank, stage]
      dsimp only
      omega
  | none =>
      dsimp only
      refine work_lt_of_rank rfl rfl ?_
      change 2 < state.rank
      rw [rank, stage]
      dsimp only
      omega

theorem exists_exit (holds : RegistryHolds before origin) (sound : Sound before origin state)
    (sent : ∀ i, state.stage ≠ .terminating i)
    (ended : ¬∀ child ∈ state.server.forked, child.pid ∈ state.server.exited) :
    ∃ event following, state.Due event ∧ machine.next state event = some following := by
  push Not at ended
  rcases ended with ⟨child, isForked, notExited⟩
  have all : state.terminated = origin.parent.clients.map PipeInfo.pid := by
    rw [sound.terminated]
    cases stage : state.stage with
    | terminating i => exact absurd stage (sent i)
    | waiting | closing | returned => rfl
  have due : child.pid ∈ state.terminated := by
    rw [all, holds.pids]
    exact List.mem_map_of_mem (sound.forked isForked)
  have done : state.server.exitChild child.pid = some _ :=
    if_pos ⟨Or.inl (List.mem_map_of_mem isForked), notExited⟩
  exact ⟨.exit child.pid, _, due, Option.map_eq_some_iff.mpr ⟨_, done, rfl⟩⟩

theorem work_next_lt {state following : Shutdown} {event : ShutdownEvent}
    (holds : RegistryHolds before origin) (sound : Sound before origin state)
    (due : state.Due event) (step : state.next event = some following) :
    following.work < state.work := by
  cases event with
  | terminate =>
      rcases next_terminate_eq_some.mp step with ⟨i, stage, rfl⟩
      exact work_terminate_lt stage
  | exit pid =>
      rcases next_exit_eq_some.mp step with ⟨server, done, rfl⟩
      rcases Server.exitChild_ok done with ⟨isChild, _⟩
      have notOther : pid ∉ origin.others := stays_of_due holds sound due
      rw [sound.others] at isChild
      have isForked := isChild.resolve_right notOther
      have notExited : pid ∉ state.server.exited := by
        intro exited
        rw [Server.exitChild, if_neg fun possible => possible.2 exited] at done
        cases done
      exact work_exit_lt (Finset.mem_sdiff.mpr ⟨List.mem_toFinset.mpr isForked, notExited⟩) done
  | wait pid =>
      rcases next_wait_eq_some.mp step with ⟨ready, rfl⟩
      exact work_wait_lt ready.2
  | noChild =>
      rcases next_noChild_eq_some.mp step with ⟨ready, rfl⟩
      refine work_lt_of_rank rfl rfl ?_
      rw [rank, rank, ready.1]
      exact Nat.one_lt_two
  | interrupt => exact due.elim
  | close =>
      rcases next_close_eq_some.mp step with ⟨ready, rfl⟩
      refine work_lt_of_rank rfl rfl ?_
      rw [rank, rank, ready]
      exact Nat.one_pos

theorem exists_due {state : Shutdown} (holds : RegistryHolds before origin)
    (sound : Sound before origin state) (unsettled : ¬state.Settled) :
    ∃ event following, state.Due event ∧ state.next event = some following := by
  cases stage : state.stage with
  | terminating i =>
      have step : state.next .terminate = some (state.terminate i) := by
        simp only [next, stage]
      exact ⟨.terminate, _, trivial, step⟩
  | closing => exact ⟨.close, _, trivial, if_pos stage⟩
  | waiting =>
      by_cases ended : ∀ child ∈ state.server.forked, child.pid ∈ state.server.exited
      · rcases state.server.exited.eq_empty_or_nonempty with none | ⟨pid, exited⟩
        · have noneForked : state.server.forked = [] := by
            rw [List.eq_nil_iff_forall_not_mem]
            intro child member
            have exited := ended child member
            rw [none] at exited
            exact Finset.notMem_empty _ exited
          have notInterrupted : state.interrupted = false := by
            by_contra interrupted
            have isOver := sound.interrupted (by simpa using interrupted)
            rw [stage] at isOver
            exact isOver
          by_cases noOthers : state.server.others = ∅
          · exact ⟨.noChild, _, trivial, if_pos ⟨stage, noneForked, noOthers⟩⟩
          · exact absurd ⟨ended, fun _ => noneForked, Or.inr ⟨stage, notInterrupted, noOthers⟩⟩
              unsettled
        · exact ⟨.wait pid, _, trivial, if_pos ⟨stage, exited⟩⟩
      · exact exists_exit holds sound (by simp [stage]) ended
  | returned =>
      by_cases ended : ∀ child ∈ state.server.forked, child.pid ∈ state.server.exited
      · have isOver : state.stage.IsOver := stage ▸ trivial
        apply absurd _ unsettled
        rcases sound.past isOver with interrupted | ⟨noneForked, noOthers⟩
        · refine ⟨ended, fun not => ?_, Or.inl ⟨stage, Or.inl interrupted⟩⟩
          rw [interrupted] at not
          cases not
        · exact ⟨ended, fun _ => noneForked, Or.inl ⟨stage, Or.inr noOthers⟩⟩
      · exact exists_exit holds sound (by simp [stage]) ended

theorem windsDown (holds : RegistryHolds before origin) :
    machine.WindsDown (Sound before origin) Due work Settled where
  preserved := fun _ _ _ sound due step =>
    next_sound holds sound (stays_of_due holds sound due) step
  decreases := fun _ _ _ sound due step => work_next_lt holds sound due step
  moves := fun _ sound unsettled => exists_due holds sound unsettled

/-! ## The server and its daemon -/

def DaemonStays (children : Finset Pid) : Event → Prop
  | .exit pid => pid ∉ children
  | .accept _ | .clean _ | .read _ _ => True

instance (children : Finset Pid) (event : Event) : Decidable (DaemonStays children event) :=
  match event with
  | .exit pid => inferInstanceAs (Decidable (pid ∉ children))
  | .accept _ | .clean _ | .read _ _ => .isTrue trivial

structure HasDaemon (children : Finset Pid) (server : Server) : Prop where
  others : server.others = children
  alive : ∀ pid ∈ children, pid ∉ server.exited

variable {children : Finset Pid}

theorem hasDaemon_next {server next : Server} {event : Event}
    (holds : RegistryHolds before server) (hasDaemon : HasDaemon children server)
    (stays : DaemonStays children event) (step : server.next event = some next) :
    HasDaemon children next := by
  rcases hasDaemon with ⟨others, alive⟩
  cases event with
  | accept attempt =>
      rcases Server.acceptClient_ok step with ⟨_, rfl⟩ | ⟨_, child, free, _, _, _, rfl⟩
      · exact ⟨others, alive⟩
      · exact ⟨others, alive⟩
  | exit pid =>
      rcases Server.exitChild_ok step with ⟨_, rfl⟩
      refine ⟨others, fun other isOther exited => ?_⟩
      rcases Finset.mem_insert.mp exited with rfl | exited
      · exact stays isOther
      · exact alive other isOther exited
  | clean reaped =>
      have cleaned := Server.cleanActiveProcess_ok holds.distinct step
      constructor
      · rw [cleaned.others, others, ← cleaned.exited.1, Finset.sdiff_eq_self_iff_disjoint,
          Finset.disjoint_left]
        exact alive
      · rw [cleaned.exited.2]
        exact fun _ _ => Finset.notMem_empty _
  | read index received =>
      rcases Option.map_eq_some_iff.mp step with ⟨⟨_, deliveries⟩, done, rfl⟩
      rcases Server.scanRead_ok done with ⟨_, _, _, equal⟩
      dsimp only at equal ⊢
      rw [equal]
      exact ⟨others, alive⟩

theorem registryHolds_hasDaemon {buffer : MesgBuffer} {events : List Event} {server : Server}
    (reached : Server.machine.run (Server.boot buffer before children) events = some server)
    (stays : Server.machine.StepsSatisfy (fun _ event => DaemonStays children event)
      (Server.boot buffer before children) events) :
    RegistryHolds before server ∧ HasDaemon children server := by
  apply Machine.run_invariant_of_steps ?_ ?_ stays reached
  · rintro server event next ⟨holds, hasDaemon⟩ stays step
    exact ⟨Server.next_holds holds step, hasDaemon_next holds hasDaemon stays step⟩
  · exact ⟨Server.registryHolds_boot buffer before _, rfl, fun _ _ => Finset.notMem_empty _⟩

/-- From wherever the server breaks its loop off, with the child that `daemonize` left
spinning: only its own clients are told to end, their descriptors are closed, and in whatever
order the processes go on, all clients end, and are waited for unless a `SIGUSR1` interrupts
`wait`. The server returns only after such a signal or if it was started without an
argument. -/
theorem shutdown_run {argc limit : Nat} {opens : Bool} {inherited : Finset Fd} {daemon : Pid}
    {value : Int} {buffer : MesgBuffer} {events : List Event} {steps : List ShutdownEvent}
    {server : Server} (ssock : Fd)
    (called : daemonize argc (.parent daemon) limit opens inherited = .returns value children)
    (free : 2 ≤ argc → opens = true ∧ ∀ fd ∈ inherited, fd < 3 → fd < limit)
    (reached : Server.machine.run (Server.boot buffer before children) events = some server)
    (stays : Server.machine.StepsSatisfy
      (fun _ event => DaemonStays (spinning argc limit opens inherited children) event)
      (Server.boot buffer before children) events)
    (ran : machine.run (start server ssock) steps = some state)
    (stillStays : machine.StepsSatisfy
      (fun _ event => Stays (spinning argc limit opens inherited children) event)
      (start server ssock) steps) :
    Sound before server state ∧
      (state.stage.IsOver → state.interrupted = true ∨ argc < 2) ∧
      ∃ bound,
        (∀ more final, machine.StepsSatisfy Due state more →
          machine.run state more = some final → more.length ≤ bound ∧
            ((∀ event, final.Due event → final.next event = none) → final.Settled ∧
              (final.stage = .returned ↔ final.interrupted = true ∨ argc < 2))) ∧
        ∃ more final, machine.StepsSatisfy Due state more ∧
          machine.run state more = some final ∧ final.Settled := by
  rw [spinning_eq called free] at stays stillStays
  rcases registryHolds_hasDaemon reached stays with ⟨holds, others, alive⟩
  have began := start_sound holds ssock (others ▸ alive)
  have sound : Sound before server state := by
    refine Machine.run_invariant_of_steps ?_ began stillStays ran
    exact fun _ _ _ sound stays step => next_sound holds sound (others ▸ stays) step
  have winds := windsDown holds
  refine ⟨sound, fun past => ?_, work state, ?_, winds.exists_settled sound⟩
  · refine (sound.past past).imp_right fun ended => ?_
    rw [← daemonize_children_eq_empty_iff called, ← others, ← sound.others, ended.2]
  · intro more final due run
    rcases winds.length_add_work_le sound due run with ⟨ends, less⟩
    refine ⟨by omega, fun stuck => ?_⟩
    have settled := winds.settled_of_stuck ends stuck
    have noOthers : final.server.others = ∅ ↔ argc < 2 := by
      rw [ends.others, others, daemonize_children_eq_empty_iff called]
    refine ⟨settled, ?_⟩
    rw [← noOthers]
    rcases settled.stage with ⟨returned, why⟩ | ⟨waiting, notInterrupted, hasOthers⟩
    · exact iff_of_true returned why
    · rw [waiting, notInterrupted]
      exact iff_of_false (by decide) (by simp [hasOthers])

theorem shutdown_run_oneClient :
    ∃ server state more final,
      Server.machine.run (Server.boot .zeroed {0, 1, 2, 3} {50})
        [.accept ⟨4, [], some (5, 6), some (7, 8), true, some 100⟩] = some server ∧
      machine.run (start server 3) [.terminate] = some state ∧
      machine.run state more = some final ∧ final.Settled := by
  have called : daemonize 2 (.parent 50) 1024 true {0, 1, 2} = .returns 0 {50} := rfl
  have runs : (Server.machine.run (Server.boot .zeroed {0, 1, 2, 3} {50})
    [.accept ⟨4, [], some (5, 6), some (7, 8), true, some 100⟩]).isSome := rfl
  have reached := (Option.some_get runs).symm
  have ran : machine.run (start (Option.get _ runs) 3) [.terminate] =
    some ((start (Option.get _ runs) 3).terminate 0) := rfl
  rcases shutdown_run 3 called (by decide) reached (by decide +kernel) ran
      fun _ _ => ⟨trivial, trivial⟩ with
    ⟨_, _, _, _, more, final, _, run, settled⟩
  exact ⟨_, _, more, final, reached, ran, run, settled⟩

end Shutdown

end RaspberryPi.ChatServer
