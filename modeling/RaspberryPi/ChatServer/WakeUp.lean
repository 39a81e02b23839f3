import RaspberryPi.ChatServer.MainLoop

/-! # Wake-ups from child to parent

A child announces a record before it writes it, so the parent may look at the
pipe too early and forget the announcement. -/

namespace RaspberryPi.ChatServer

namespace MainLoop

def Pending (loop : MainLoop) (pid : Pid) : Prop :=
  loop.parentSigusrArrived = true ∨ pid ∈ loop.position.todo

/-- Bytes in a pipe, unless its child is about to write more, are pending. -/
def NoLostWakeUp (loop : MainLoop) : Prop :=
  ∀ child ∈ loop.children, child.queue ≠ [] → child.sending = false → loop.Pending child.pid

/-- What a write leaves queued is pending when it happens, and a scan leaves
nothing behind that nobody announces. -/
def KeepsWakeUp (loop : MainLoop) : LoopEvent → Prop
  | .write pid record => ∀ child ∈ loop.children, child.pid = pid →
      loop.Pending pid ∨ child.queue = [] ∧ record = []
  | .scanRead => ∀ child ∈ loop.children, loop.position.todo.head? = some child.pid →
      loop.parentSigusrArrived = true ∨ child.sending = true ∨ child.queue.length < bufsiz
  | _ => True

/-- Outside a scan only the flag keeps pipes pending, and steps that leave it
alone and put nothing into a pipe keep the law. -/
theorem NoLostWakeUp.outsideScan {loop following : MainLoop} (kept : loop.NoLostWakeUp)
    (outside : loop.position.todo = [])
    (flag : following.parentSigusrArrived = loop.parentSigusrArrived)
    (children : ∀ child ∈ following.children, child.queue ≠ [] → child ∈ loop.children) :
    following.NoLostWakeUp := by
  intro child member waiting notSending
  rcases kept child (children child member waiting) waiting notSending with arrived | inTodo
  · exact Or.inl (flag.trans arrived)
  · rw [outside] at inTodo
    exact (List.not_mem_nil inTodo).elim

theorem write_keeps_iff {loop : MainLoop} {pid : Pid} {record : Bytes}
    (kept : loop.NoLostWakeUp) :
    (loop.after (.write pid record)).NoLostWakeUp ↔ loop.KeepsWakeUp (.write pid record) := by
  constructor
  · intro holds child member samePid
    subst samePid
    have written : child.wrote record ∈ (loop.after (.write child.pid record)).children :=
      mem_update (ChildProcess.wrote record) member
    by_cases empty : child.queue ++ record = []
    · exact Or.inr (List.append_eq_nil_iff.mp empty)
    · exact Or.inl (holds (child.wrote record) written empty rfl)
  · intro keeps child member waiting notSending
    rcases exists_of_mem_update member with ⟨old, wasMember, ⟨samePid, rfl⟩ | ⟨_, rfl⟩⟩
    · rcases keeps old wasMember samePid with pending | empty
      · exact samePid ▸ pending
      · exact (waiting (List.append_eq_nil_iff.mpr empty)).elim
    · exact kept child wasMember waiting notSending

theorem scanRead_keeps_iff {loop : MainLoop} (sound : Sound loop) (kept : loop.NoLostWakeUp)
    (enabled : loop.Enabled .scanRead) :
    (loop.after .scanRead).NoLostWakeUp ↔ loop.KeepsWakeUp .scanRead := by
  rcases exists_of_scanRead enabled with ⟨pid, rest, todo, children⟩
  have notAgain : pid ∉ rest := (List.nodup_cons.mp (todo ▸ sound.todoDistinct)).1
  have pendingAfter : ∀ other, (loop.after .scanRead).Pending other ↔
      loop.parentSigusrArrived = true ∨ other ∈ rest := by
    intro other
    simp only [Pending, after, todo]
    rfl
  simp only [NoLostWakeUp, KeepsWakeUp, children, pendingAfter, todo, List.head?_cons,
    Option.some.injEq]
  constructor
  · intro holds child member samePid
    subst samePid
    have read := holds _ (mem_update ChildProcess.wasRead member)
    by_cases drained : child.queue.length < bufsiz
    · exact Or.inr (Or.inr drained)
    · have left : child.wasRead.queue ≠ [] := mt drop_bufsiz_eq_nil_iff.mp drained
      cases sending : child.sending with
      | true => exact Or.inr (Or.inl rfl)
      | false => exact Or.inl ((read left sending).resolve_right notAgain)
  · intro keeps child member waiting notSending
    rcases exists_of_mem_update member with ⟨old, wasMember, ⟨samePid, rfl⟩ | ⟨other, rfl⟩⟩
    · rcases keeps old wasMember samePid.symm with arrived | sending | drained
      · exact Or.inl arrived
      · rw [ChildProcess.wasRead, sending] at notSending
        cases notSending
      · exact (waiting (drop_bufsiz_eq_nil_iff.mpr drained)).elim
    · rcases kept child wasMember waiting notSending with arrived | inTodo
      · exact Or.inl arrived
      · rw [todo] at inTodo
        exact Or.inr (List.mem_of_ne_of_mem other inTodo)

theorem noLostWakeUp_after_iff {loop : MainLoop} {event : LoopEvent} (sound : Sound loop)
    (kept : loop.NoLostWakeUp) (enabled : loop.Enabled event) :
    (loop.after event).NoLostWakeUp ↔ loop.KeepsWakeUp event := by
  cases event with
  | write pid record => exact write_keeps_iff kept
  | scanRead => exact scanRead_keeps_iff sound kept enabled
  | clearSigusr =>
      refine iff_of_true (fun child member _ _ => ?_) trivial
      exact Or.inr (List.mem_map_of_mem member)
  | kill pid => exact iff_of_true (fun child _ _ _ => Or.inl rfl) trivial
  | waitpid pid =>
      refine iff_of_true (fun child member waiting notSending => ?_) trivial
      exact kept child (List.mem_of_mem_filter member) waiting notSending
  | exit pid =>
      refine iff_of_true (fun child member waiting notSending => ?_) trivial
      rcases exists_of_mem_update member with ⟨old, wasMember, ⟨_, rfl⟩ | ⟨_, rfl⟩⟩
      · exact kept old wasMember waiting notSending
      · exact kept child wasMember waiting notSending
  | acceptClient pid =>
      refine iff_of_true (kept.outsideScan ?_ rfl fun child member waiting => ?_) trivial
      · exact congrArg Position.todo enabled.1
      · rcases List.mem_append.mp member with wasMember | added
        · exact wasMember
        · rw [List.mem_singleton.mp added] at waiting
          exact (waiting rfl).elim
  | waitpidNone =>
      refine iff_of_true (kept.outsideScan ?_ rfl fun child member _ => member) trivial
      exact congrArg Position.todo enabled.1
  | testExited | testSigusr | clearExited | acceptFailed | acceptNone | scanDone =>
      refine iff_of_true (kept.outsideScan ?_ rfl fun child member _ => member) trivial
      exact congrArg Position.todo enabled

/-- No wake-up is lost in any state of a run exactly if every step of it meets
the condition, for any number of children and any interleaving. -/
theorem noLostWakeUp_run (events : List LoopEvent) :
    machine.StatesSatisfy NoLostWakeUp boot events ↔
      machine.StepsSatisfy KeepsWakeUp boot events := by
  refine Machine.statesSatisfy_iff_stepsSatisfy sound_next ?_ events sound_boot ?_
  · intro loop event following sound kept step
    rcases next_eq_some.mp step with ⟨enabled, rfl⟩
    exact noLostWakeUp_after_iff sound kept enabled
  · exact fun child member => (List.not_mem_nil member).elim

/-- The parent scans between a child's `kill` and its `write`. -/
theorem not_noLostWakeUp_scanBeforeWrite :
    ¬∀ (events : List LoopEvent) (loop : MainLoop),
      machine.run boot events = some loop → loop.NoLostWakeUp := by
  intro always
  have reached : machine.run boot
      [.testExited, .acceptClient 100, .kill 100, .testExited, .acceptNone, .testSigusr,
        .clearSigusr, .scanRead, .scanDone, .write 100 [49, 48, 48, 58, 97, 0]] = some _ := rfl
  rcases always _ _ reached _ List.mem_cons_self (by decide) rfl with arrived | inTodo
  · exact absurd arrived (by decide)
  · exact absurd inTodo (by decide)

end MainLoop

end RaspberryPi.ChatServer
