import Mathlib.Data.List.Basic
import Mathlib.Logic.Function.Basic
import RaspberryPi.Foundation.Machine

/-! # The client registry of the older chat server

`main` of `fork_server.c` and `clean_active_process` of `signals.c`. Both have a
`client_pipe_info`: the former an array of its own, the latter that of `common.c`. -/

namespace RaspberryPi.ForkServer

abbrev Pid := Nat

abbrev Fd := Nat

def maxClient : Nat := 32

def chatRoom : Nat := 4

/-- A `pipeInfo`, without the names that messages put there. -/
structure PipeInfo where
  pid : Pid
  parentToChildWriteFd : Fd
  childToParentReadFd : Fd
  isActive : Bool
deriving DecidableEq

def PipeInfo.zero : PipeInfo := ⟨0, 0, 0, false⟩

inductive Accepted
  /-- `accept` was interrupted or found no connection. -/
  | nothing
  | error
  /-- A pipe, its mode or the child cannot be had. -/
  | unserved
  | client (child : PipeInfo)

inductive ServerEvent
  /-- `SIGUSR2`. -/
  | message
  /-- A child exits. Nobody calls `child_close_handler`, so `SIGCHLD` is ignored. -/
  | exits (pid : Pid)
  /-- The body of the loop; `waitpid` returns these. -/
  | pass (reaped : List Pid) (accepted : Accepted)

structure Server where
  clientNum : Nat
  /-- The `client_pipe_info` of `main`. -/
  localInfo : Nat → PipeInfo
  /-- The `client_pipe_info` of `common.c`. -/
  globalInfo : Nat → PipeInfo
  isWriteFromClient : Bool
  childExitedFlag : Bool
  /-- What was forked and not waited for. -/
  children : List PipeInfo
  /-- Those that have exited. -/
  exited : List Pid
  running : Bool

namespace Server

def start : Server where
  clientNum := 0
  localInfo := fun _ => .zero
  globalInfo := fun _ => .zero
  isWriteFromClient := false
  childExitedFlag := false
  children := []
  exited := []
  running := true

/-! ## `clean_active_process` -/

def shiftDown (table : Nat → PipeInfo) (first : Nat) : Nat → Nat → PipeInfo
  | 0 => table
  | steps + 1 => shiftDown (Function.update table first (table (first + 1))) (first + 1) steps

def removeChild (server : Server) (pid : Pid) : Server :=
  match (List.range server.clientNum).find? fun i => (server.globalInfo i).pid = pid with
  | none => server
  | some i =>
      { server with
        globalInfo := shiftDown server.globalInfo i (server.clientNum - 1 - i)
        clientNum := server.clientNum - 1 }

def waited (server : Server) (pid : Pid) : Server :=
  { server with
    children := server.children.filter fun child => child.pid ≠ pid
    exited := server.exited.erase pid }

def cleanActiveProcess (server : Server) (reaped : List Pid) : Server :=
  reaped.foldl (fun server pid => (server.waited pid).removeChild pid) server

/-! ## `main` -/

def clean (server : Server) (reaped : List Pid) : Server :=
  if server.childExitedFlag then
    { server.cleanActiveProcess reaped with childExitedFlag := false }
  else server

def scanned (server : Server) : List Fd :=
  (List.range server.clientNum).map fun i => (server.localInfo i).childToParentReadFd

def register (server : Server) (child : PipeInfo) : Server :=
  { server with
    localInfo := Function.update server.localInfo server.clientNum child
    children := server.children ++ [child]
    running := server.clientNum < maxClient }

def serve (server : Server) : Accepted → Server
  | .nothing => { server with isWriteFromClient := false }
  | .error | .unserved => { server with running := false }
  | .client child => server.register child

def Enabled (server : Server) : ServerEvent → Prop
  | .message => server.running = true
  | .exits pid => pid ∈ server.children.map PipeInfo.pid ∧ pid ∉ server.exited
  | .pass reaped accepted =>
      server.running = true ∧
        (∀ pid ∈ reaped, server.childExitedFlag = true ∧ pid ∈ server.exited) ∧
        match accepted with
        | .client child =>
            0 < child.pid ∧ child.pid ∉ server.children.map PipeInfo.pid ∧
              child.isActive = true
        | .nothing | .error | .unserved => True

instance (server : Server) (event : ServerEvent) : Decidable (server.Enabled event) := by
  unfold Enabled
  cases event with
  | message => infer_instance
  | exits pid => infer_instance
  | pass reaped accepted => cases accepted <;> infer_instance

def after (server : Server) : ServerEvent → Server
  | .message => { server with isWriteFromClient := true }
  | .exits pid => { server with exited := pid :: server.exited }
  | .pass reaped accepted => (server.clean reaped).serve accepted

def machine : Machine Server ServerEvent := Machine.guarded Enabled after

/-! ## What the registry has to be -/

def slots (server : Server) : List PipeInfo := (List.range server.clientNum).map server.localInfo

structure Registered (server : Server) : Prop where
  counted : server.clientNum = server.children.length
  listed : server.slots.Perm server.children
  sameTable : ∀ i < chatRoom, server.localInfo i = server.globalInfo i
  inside : server.clientNum ≤ chatRoom

/-- A client is put into the array, and a scan reads the pipe of every child. -/
def UsesTable (server : Server) : ServerEvent → Prop
  | .pass reaped (.client _) => (server.clean reaped).clientNum < chatRoom
  | .pass reaped .nothing => (server.clean reaped).isWriteFromClient = true →
      ∀ child ∈ (server.clean reaped).children,
        child.childToParentReadFd ∈ (server.clean reaped).scanned
  | _ => True

def TakesNone (_ : Server) : ServerEvent → Prop
  | .pass _ (.client _) => False
  | _ => True

structure Idle (server : Server) : Prop where
  clientNum : server.clientNum = 0
  flag : server.childExitedFlag = false
  globalInfo : ∀ i < chatRoom, server.globalInfo i = .zero

structure Untouched (server : Server) : Prop where
  children : server.children = []
  localInfo : ∀ i < chatRoom, server.localInfo i = .zero

variable {server following : Server} {event : ServerEvent}

theorem Idle.clean (idle : Idle server) (reaped : List Pid) : server.clean reaped = server := by
  rw [Server.clean, if_neg (by rw [idle.flag]; exact Bool.false_ne_true)]

theorem Idle.next (idle : Idle server) (step : machine.next server event = some following) :
    Idle following := by
  rcases Machine.guarded_next_eq_some.mp step with ⟨enabled, rfl⟩
  cases event with
  | message => exact ⟨idle.clientNum, idle.flag, idle.globalInfo⟩
  | exits pid => exact ⟨idle.clientNum, idle.flag, idle.globalInfo⟩
  | pass reaped accepted =>
      rw [after, idle.clean]
      cases accepted <;> exact ⟨idle.clientNum, idle.flag, idle.globalInfo⟩

theorem registered_iff (idle : Idle server) : Registered server ↔ Untouched server := by
  have slots : server.slots = [] := by
    rw [slots, idle.clientNum]
    rfl
  constructor
  · intro registered
    constructor
    · rw [← List.length_eq_zero_iff, ← registered.counted]
      exact idle.clientNum
    · intro i inside
      rw [registered.sameTable i inside]
      exact idle.globalInfo i inside
  · rintro ⟨none, untouched⟩
    refine ⟨?_, ?_, fun i inside => ?_, ?_⟩
    · rw [idle.clientNum, none]
      rfl
    · rw [slots, none]
    · rw [untouched i inside, idle.globalInfo i inside]
    · rw [idle.clientNum]
      exact Nat.zero_le _

theorem untouched_next (idle : Idle server) (untouched : Untouched server)
    (step : machine.next server event = some following) :
    Untouched following ↔ server.TakesNone event := by
  rcases Machine.guarded_next_eq_some.mp step with ⟨enabled, rfl⟩
  cases event with
  | message => exact iff_of_true ⟨untouched.children, untouched.localInfo⟩ trivial
  | exits pid => exact iff_of_true ⟨untouched.children, untouched.localInfo⟩ trivial
  | pass reaped accepted =>
      rw [after, idle.clean]
      cases accepted with
      | client child =>
          refine iff_of_false (fun none => ?_) id
          exact List.append_ne_nil_of_right_ne_nil _ (List.cons_ne_nil _ _) none.children
      | nothing => exact iff_of_true ⟨untouched.children, untouched.localInfo⟩ trivial
      | error => exact iff_of_true ⟨untouched.children, untouched.localInfo⟩ trivial
      | unserved => exact iff_of_true ⟨untouched.children, untouched.localInfo⟩ trivial

theorem usesTable_of_untouched (idle : Idle server) (untouched : Untouched server) :
    server.UsesTable event := by
  cases event with
  | message => trivial
  | exits pid => trivial
  | pass reaped accepted =>
      cases accepted with
      | client child =>
          rw [UsesTable, idle.clean, idle.clientNum]
          decide
      | nothing =>
          rw [UsesTable, idle.clean, untouched.children]
          exact fun _ child member => absurd member List.not_mem_nil
      | error => trivial
      | unserved => trivial

theorem idle_start : Idle start := ⟨rfl, rfl, fun _ _ => rfl⟩

theorem untouched_start : Untouched start := ⟨rfl, fun _ _ => rfl⟩

/-- The registry is what it has to be in every state, and every step uses it as it has to. -/
def RegisteredThroughout (server : Server) (events : List ServerEvent) : Prop :=
  machine.StatesSatisfy Registered server events ∧ machine.StepsSatisfy UsesTable server events

/-- The registry is right throughout exactly in the runs that take no client in. -/
theorem registeredThroughout_run (events : List ServerEvent) :
    RegisteredThroughout start events ↔ machine.StepsSatisfy TakesNone start events := by
  have exactly : ∀ (state : Server) event following, Idle state → Registered state →
      machine.next state event = some following →
        (Registered following ↔ state.TakesNone event) := by
    intro state event following idle registered step
    rw [registered_iff (idle.next step)]
    exact untouched_next idle ((registered_iff idle).mp registered) step
  have states := Machine.statesSatisfy_iff_stepsSatisfy
    (fun _ _ _ idle step => Idle.next idle step) exactly events idle_start
    ((registered_iff idle_start).mpr untouched_start)
  rw [RegisteredThroughout, states, and_iff_left_iff_imp]
  intro takesNone
  have preserved : ∀ (state : Server) event following, Idle state ∧ Untouched state →
      state.TakesNone event → machine.next state event = some following →
        Idle following ∧ Untouched following := by
    rintro state event following ⟨idle, untouched⟩ none step
    exact ⟨idle.next step, (untouched_next idle untouched step).mpr none⟩
  apply takesNone.imp preserved ?_ ⟨idle_start, untouched_start⟩
  exact fun state event following holds _ _ => usesTable_of_untouched holds.1 holds.2

def oneClient : List ServerEvent :=
  [.pass [] (.client ⟨100, 7, 4, true⟩), .message, .pass [] .nothing]

theorem not_registeredThroughout_oneClient : ¬RegisteredThroughout start oneClient := by
  intro throughout
  have reached : ∃ final, machine.run start oneClient = some final ∧
      final.clientNum = 0 ∧ final.children.length = 1 ∧ final.scanned = [] :=
    ⟨_, rfl, rfl, rfl, rfl⟩
  rcases reached with ⟨final, run, clientNum, children, scanned⟩
  have counted := (throughout.1.final run).counted
  rw [clientNum, children] at counted
  exact absurd counted (by decide)

end Server

end RaspberryPi.ForkServer
