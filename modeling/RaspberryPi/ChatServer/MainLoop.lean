import Mathlib.Data.List.Nodup
import RaspberryPi.Foundation.Machine
import RaspberryPi.ChatServer.Types

/-! # The main loop and its signals

The loop of `main` between its atomic steps, with the two flags that its signal
handlers set, and of each child what matters for them: whether it is between
its `kill` and its `write`, whether it has exited, and what its pipe holds. -/

namespace RaspberryPi.ChatServer

structure ChildProcess where
  pid : Pid
  sending : Bool
  exited : Bool
  queue : Bytes
deriving DecidableEq

namespace ChildProcess

def announced (child : ChildProcess) : ChildProcess := { child with sending := true }

/-- After its `write`, with what that put into the pipe: nothing if it failed. -/
def wrote (record : Bytes) (child : ChildProcess) : ChildProcess :=
  { child with sending := false, queue := child.queue ++ record }

def wasRead (child : ChildProcess) : ChildProcess :=
  { child with queue := child.queue.drop (bufsiz - 1) }

def gone (child : ChildProcess) : ChildProcess := { child with exited := true }

def idle (child : ChildProcess) : Bool := !child.exited && !child.sending

end ChildProcess

inductive Position
  /-- Before `if(child_exited_flag)`. -/
  | loopHead
  /-- In `clean_active_process`, before a `waitpid`. -/
  | cleaning
  /-- After the last `waitpid`, before `child_exited_flag = 0`. -/
  | cleaned
  /-- Before `accept`. -/
  | accepting
  /-- Before `if (parent_sigusr_arrived)`. -/
  | testing
  /-- Before `parent_sigusr_arrived = 0`. -/
  | clearing
  /-- In the scan, with these children still to be read. -/
  | scanning (todo : List Pid)
deriving DecidableEq

def Position.todo : Position → List Pid
  | .scanning todo => todo
  | _ => []

structure MainLoop where
  position : Position
  parentSigusrArrived : Bool
  childExitedFlag : Bool
  children : List ChildProcess

inductive LoopEvent
  | testExited
  | waitpid (pid : Pid)
  | waitpidNone
  | clearExited
  | acceptClient (pid : Pid)
  | acceptFailed
  | acceptNone
  | testSigusr
  | clearSigusr
  | scanRead
  | scanDone
  | kill (pid : Pid)
  | write (pid : Pid) (record : Bytes)
  | exit (pid : Pid)

namespace MainLoop

def boot : MainLoop := ⟨.loopHead, false, false, []⟩

def pids (loop : MainLoop) : List Pid := loop.children.map ChildProcess.pid

def update (loop : MainLoop) (pid : Pid) (change : ChildProcess → ChildProcess) :
    List ChildProcess :=
  loop.children.map fun child => if child.pid = pid then change child else child

def Any (loop : MainLoop) (pid : Pid) (holds : ChildProcess → Bool) : Prop :=
  ∃ child ∈ loop.children, child.pid = pid ∧ holds child = true

instance (loop : MainLoop) (pid : Pid) (holds : ChildProcess → Bool) :
    Decidable (loop.Any pid holds) :=
  inferInstanceAs (Decidable (∃ child ∈ loop.children, _))

def Enabled (loop : MainLoop) : LoopEvent → Prop
  | .testExited => loop.position = .loopHead
  | .waitpid pid => loop.position = .cleaning ∧ loop.Any pid ChildProcess.exited
  | .waitpidNone =>
      loop.position = .cleaning ∧ ∀ child ∈ loop.children, child.exited = false
  | .clearExited => loop.position = .cleaned
  | .acceptClient pid =>
      loop.position = .accepting ∧ pid ∉ loop.pids ∧ loop.children.length < maxClient
  | .acceptFailed | .acceptNone => loop.position = .accepting
  | .testSigusr => loop.position = .testing
  | .clearSigusr => loop.position = .clearing
  | .scanRead => loop.position.todo ≠ []
  | .scanDone => loop.position = .scanning []
  | .kill pid | .exit pid => loop.Any pid ChildProcess.idle
  | .write pid _ => loop.Any pid ChildProcess.sending

instance (loop : MainLoop) (event : LoopEvent) : Decidable (loop.Enabled event) :=
  match event with
  | .testExited | .clearExited | .acceptFailed | .acceptNone | .testSigusr | .clearSigusr
  | .scanDone => inferInstanceAs (Decidable (loop.position = _))
  | .waitpid _ | .waitpidNone | .acceptClient _ => inferInstanceAs (Decidable (_ ∧ _))
  | .scanRead => inferInstanceAs (Decidable (loop.position.todo ≠ []))
  | .kill pid | .exit pid => inferInstanceAs (Decidable (loop.Any pid ChildProcess.idle))
  | .write pid _ => inferInstanceAs (Decidable (loop.Any pid ChildProcess.sending))

def after (loop : MainLoop) : LoopEvent → MainLoop
  | .testExited =>
      { loop with position := if loop.childExitedFlag then .cleaning else .accepting }
  -- the entry goes, and its pipe with it
  | .waitpid pid =>
      { loop with children := loop.children.filter fun child => decide (child.pid ≠ pid) }
  | .waitpidNone => { loop with position := .cleaned }
  | .clearExited => { loop with childExitedFlag := false, position := .accepting }
  | .acceptClient pid =>
      { loop with
        children := loop.children ++ [⟨pid, false, false, []⟩]
        position := .loopHead }
  | .acceptFailed => { loop with position := .loopHead }
  | .acceptNone => { loop with position := .testing }
  | .testSigusr =>
      { loop with position := if loop.parentSigusrArrived then .clearing else .loopHead }
  | .clearSigusr => { loop with parentSigusrArrived := false, position := .scanning loop.pids }
  | .scanRead =>
      { loop with
        children := match loop.position.todo with
          | pid :: _ => loop.update pid ChildProcess.wasRead
          | [] => loop.children
        position := .scanning loop.position.todo.tail }
  | .scanDone => { loop with position := .loopHead }
  -- the handlers of the two signals run at once
  | .kill pid =>
      { loop with
        children := loop.update pid ChildProcess.announced
        parentSigusrArrived := true }
  | .write pid record =>
      { loop with children := loop.update pid (ChildProcess.wrote record) }
  | .exit pid =>
      { loop with
        children := loop.update pid ChildProcess.gone
        childExitedFlag := true }

def machine : Machine MainLoop LoopEvent := Machine.guarded Enabled after

theorem next_eq_some {loop following : MainLoop} {event : LoopEvent} :
    machine.next loop event = some following ↔
      loop.Enabled event ∧ loop.after event = following :=
  Machine.guarded_next_eq_some

theorem exists_of_scanRead {loop : MainLoop} (enabled : loop.Enabled .scanRead) :
    ∃ pid rest, loop.position.todo = pid :: rest ∧
      (loop.after .scanRead).children = loop.update pid ChildProcess.wasRead := by
  cases todo : loop.position.todo with
  | nil => exact (enabled todo).elim
  | cons pid rest => exact ⟨pid, rest, rfl, by simp only [after, todo]⟩

theorem exists_of_mem_update {loop : MainLoop} {pid : Pid}
    {change : ChildProcess → ChildProcess} {child : ChildProcess}
    (member : child ∈ loop.update pid change) :
    ∃ old ∈ loop.children,
      old.pid = pid ∧ child = change old ∨ old.pid ≠ pid ∧ child = old := by
  rcases List.mem_map.mp member with ⟨old, wasMember, equal⟩
  refine ⟨old, wasMember, ?_⟩
  by_cases same : old.pid = pid
  · rw [if_pos same] at equal
    exact Or.inl ⟨same, equal.symm⟩
  · rw [if_neg same] at equal
    exact Or.inr ⟨same, equal.symm⟩

theorem mem_update {loop : MainLoop} {child : ChildProcess} (change : ChildProcess → ChildProcess)
    (member : child ∈ loop.children) : change child ∈ loop.update child.pid change := by
  have image := List.mem_map_of_mem (f := fun other : ChildProcess =>
    if other.pid = child.pid then change other else other) member
  rwa [if_pos rfl] at image

theorem exists_of_exists_update {loop : MainLoop} {pid : Pid}
    {change : ChildProcess → ChildProcess} {holds : ChildProcess → Prop}
    (keeps : ∀ child, holds (change child) → holds child)
    (found : ∃ child ∈ loop.update pid change, holds child) :
    ∃ child ∈ loop.children, holds child := by
  rcases found with ⟨child, member, property⟩
  rcases exists_of_mem_update member with ⟨old, wasMember, ⟨_, rfl⟩ | ⟨_, rfl⟩⟩
  · exact ⟨old, wasMember, keeps old property⟩
  · exact ⟨child, wasMember, property⟩

theorem exists_update {loop : MainLoop} {change : ChildProcess → ChildProcess}
    {holds : ChildProcess → Prop} (pid : Pid)
    (keeps : ∀ child, holds child → holds (change child))
    (found : ∃ child ∈ loop.children, holds child) :
    ∃ child ∈ loop.update pid change, holds child := by
  rcases found with ⟨child, member, property⟩
  refine ⟨_, List.mem_map_of_mem member, ?_⟩
  by_cases same : child.pid = pid
  · rw [if_pos same]
    exact keeps child property
  · rwa [if_neg same]

theorem map_pid_update (loop : MainLoop) (pid : Pid) (change : ChildProcess → ChildProcess)
    (keeps : ∀ child, (change child).pid = child.pid) :
    (loop.update pid change).map ChildProcess.pid = loop.pids := by
  rw [update, pids, List.map_map]
  apply List.map_congr_left
  intro child _
  by_cases same : child.pid = pid
  · simp [same, keeps]
  · simp [same]

structure Sound (loop : MainLoop) : Prop where
  distinct : loop.pids.Nodup
  todoDistinct : loop.position.todo.Nodup

theorem Any.all {loop : MainLoop} {pid : Pid} {holds : ChildProcess → Bool}
    (sound : Sound loop) (found : loop.Any pid holds) {child : ChildProcess}
    (member : child ∈ loop.children) (samePid : child.pid = pid) : holds child = true := by
  rcases found with ⟨other, otherMember, otherPid, property⟩
  have same : child = other :=
    List.inj_on_of_nodup_map sound.distinct member otherMember (samePid.trans otherPid.symm)
  rwa [same]

theorem sound_boot : Sound boot := ⟨List.nodup_nil, List.nodup_nil⟩

theorem distinct_after {loop : MainLoop} {event : LoopEvent}
    (distinct : loop.pids.Nodup) (enabled : loop.Enabled event) :
    (loop.after event).pids.Nodup := by
  cases event with
  | waitpid pid => exact distinct.sublist (List.filter_sublist.map _)
  | acceptClient pid =>
      simp only [after, pids, List.map_append]
      rw [List.nodup_append']
      exact ⟨distinct, List.nodup_singleton _, by simpa [pids] using enabled.2.1⟩
  | scanRead =>
      rcases exists_of_scanRead enabled with ⟨pid, _, _, children⟩
      rw [pids, children, map_pid_update]
      · exact distinct
      · exact fun _ => rfl
  | kill pid | write pid record | exit pid =>
      simp only [after, pids]
      rw [map_pid_update]
      · exact distinct
      · exact fun _ => rfl
  | testExited | waitpidNone | clearExited | acceptFailed | acceptNone | testSigusr
  | clearSigusr | scanDone => exact distinct

theorem sound_after {loop : MainLoop} {event : LoopEvent} (sound : Sound loop)
    (enabled : loop.Enabled event) : Sound (loop.after event) := by
  refine ⟨distinct_after sound.distinct enabled, ?_⟩
  cases event with
  | clearSigusr => exact sound.distinct
  | scanRead => exact sound.todoDistinct.tail
  | testExited | testSigusr =>
      simp only [after]
      split_ifs <;> exact List.nodup_nil
  | waitpid pid | kill pid | write pid record | exit pid => exact sound.todoDistinct
  | waitpidNone | clearExited | acceptClient pid | acceptFailed | acceptNone
  | scanDone => exact List.nodup_nil

theorem sound_next (loop : MainLoop) (event : LoopEvent) (following : MainLoop)
    (sound : Sound loop) (step : machine.next loop event = some following) :
    Sound following := by
  rcases next_eq_some.mp step with ⟨enabled, rfl⟩
  exact sound_after sound enabled

end MainLoop

end RaspberryPi.ChatServer
