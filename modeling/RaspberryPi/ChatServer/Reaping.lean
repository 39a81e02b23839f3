import RaspberryPi.ChatServer.MainLoop

/-! # Exits and the reaping of children

`clean_active_process` runs before the scan and `child_exited_flag` is cleared
after it, so an exit and a last record can both be overlooked. -/

namespace RaspberryPi.ChatServer

namespace MainLoop

/-! ## Exits -/

def Unreaped (loop : MainLoop) : Prop := ∃ child ∈ loop.children, child.exited = true

/-- An exited child is still to be waited for. -/
def NoLostExit (loop : MainLoop) : Prop :=
  loop.Unreaped → loop.childExitedFlag = true ∨ loop.position = .cleaning

def ExitInTime (loop : MainLoop) : LoopEvent → Prop
  | .exit _ => loop.position ≠ .cleaned
  | _ => True

instance (loop : MainLoop) (event : LoopEvent) : Decidable (loop.ExitInTime event) :=
  match event with
  | .exit _ => inferInstanceAs (Decidable (loop.position ≠ .cleaned))
  | .testExited | .waitpid _ | .waitpidNone | .clearExited | .acceptClient _ | .acceptFailed
  | .acceptNone | .testSigusr | .clearSigusr | .scanRead | .scanDone | .kill _
  | .write _ _ => .isTrue trivial

def ClearedReaped (loop : MainLoop) : LoopEvent → Prop
  | .clearExited => ¬loop.Unreaped
  | _ => True

theorem NoLostExit.mono {loop following : MainLoop} (kept : loop.NoLostExit)
    (unreaped : following.Unreaped → loop.Unreaped)
    (flag : following.childExitedFlag = loop.childExitedFlag)
    (position : loop.position = .cleaning → following.position = .cleaning) :
    following.NoLostExit := by
  intro exited
  rcases kept (unreaped exited) with set | cleaning
  · exact Or.inl (flag.trans set)
  · exact Or.inr (position cleaning)

theorem noLostExit_after_iff {loop : MainLoop} {event : LoopEvent} (kept : loop.NoLostExit)
    (enabled : loop.Enabled event) :
    (loop.after event).NoLostExit ↔ loop.ClearedReaped event := by
  cases event with
  | clearExited =>
      constructor
      · intro holds exited
        rcases holds exited with set | cleaning
        · cases set
        · cases cleaning
      · exact fun none exited => (none exited).elim
  | exit pid => exact iff_of_true (fun _ => Or.inl rfl) trivial
  | waitpid pid => exact iff_of_true (fun _ => Or.inr enabled.1) trivial
  | waitpidNone =>
      refine iff_of_true (fun ⟨child, member, exited⟩ => ?_) trivial
      rw [enabled.2 child member] at exited
      cases exited
  | acceptClient pid =>
      refine iff_of_true (kept.mono ?_ rfl fun cleaning => ?_) trivial
      · rintro ⟨child, member, exited⟩
        rcases List.mem_append.mp member with wasMember | added
        · exact ⟨child, wasMember, exited⟩
        · rw [List.mem_singleton.mp added] at exited
          cases exited
      · exact absurd (enabled.1.symm.trans cleaning) (by decide)
  | kill pid | write pid record =>
      refine iff_of_true (kept.mono ?_ rfl id) trivial
      exact exists_of_exists_update fun _ exited => exited
  | scanRead =>
      rcases exists_of_scanRead enabled with ⟨pid, rest, todo, children⟩
      refine iff_of_true (kept.mono ?_ rfl fun cleaning => ?_) trivial
      · rw [Unreaped, children]
        exact exists_of_exists_update fun _ exited => exited
      · rw [cleaning] at todo
        cases todo
  | testExited | testSigusr | clearSigusr | acceptFailed | acceptNone | scanDone =>
      refine iff_of_true (kept.mono id rfl fun cleaning => ?_) trivial
      exact absurd ((show loop.position = _ from enabled).symm.trans cleaning) (by decide)

def ExitOverlooked (loop : MainLoop) : Prop := loop.position = .cleaned ∧ loop.Unreaped

theorem exitOverlooked_after {loop : MainLoop} {event : LoopEvent}
    (enabled : loop.Enabled event) (reaped : loop.ClearedReaped event)
    (overlooked : loop.ExitOverlooked) : (loop.after event).ExitOverlooked := by
  rcases overlooked with ⟨cleaned, exited⟩
  cases event with
  | clearExited => exact (reaped exited).elim
  | kill pid | write pid record => exact ⟨cleaned, exists_update pid (fun _ => id) exited⟩
  | exit pid => exact ⟨cleaned, exists_update pid (fun _ _ => rfl) exited⟩
  | waitpid pid | waitpidNone | acceptClient pid =>
      exact absurd (cleaned.symm.trans enabled.1) (by decide)
  | scanRead =>
      rw [Enabled, cleaned] at enabled
      exact (enabled rfl).elim
  | testExited | testSigusr | clearSigusr | acceptFailed | acceptNone | scanDone =>
      exact absurd (cleaned.symm.trans enabled) (by decide)

theorem exitOverlooked_of_after {loop : MainLoop} {event : LoopEvent}
    (enabled : loop.Enabled event) (inTime : loop.ExitInTime event)
    (overlooked : (loop.after event).ExitOverlooked) : loop.ExitOverlooked := by
  rcases overlooked with ⟨cleaned, exited⟩
  cases event with
  | waitpidNone =>
      rcases exited with ⟨child, member, exited⟩
      rw [enabled.2 child member] at exited
      cases exited
  | kill pid | write pid record =>
      refine ⟨cleaned, exists_of_exists_update ?_ exited⟩
      exact fun _ wasExited => wasExited
  | exit pid => exact (inTime cleaned).elim
  | waitpid pid => exact absurd (enabled.1.symm.trans cleaned) (by decide)
  | testExited | testSigusr =>
      simp only [after] at cleaned
      split_ifs at cleaned
  | clearExited | acceptClient pid | acceptFailed | acceptNone | clearSigusr | scanRead
  | scanDone => cases cleaned

theorem noLostExit_boot : NoLostExit boot := fun ⟨_, member, _⟩ => (List.not_mem_nil member).elim

theorem noLostExit_iff_clearedReaped (events : List LoopEvent) :
    machine.StatesSatisfy NoLostExit boot events ↔
      machine.StepsSatisfy ClearedReaped boot events := by
  refine Machine.statesSatisfy_iff_stepsSatisfy_of_exactly ?_ events noLostExit_boot
  intro loop event following kept step
  rcases next_eq_some.mp step with ⟨enabled, rfl⟩
  exact noLostExit_after_iff kept enabled

theorem clearedReaped_of_exitInTime {events : List LoopEvent}
    (inTime : machine.StepsSatisfy ExitInTime boot events) :
    machine.StepsSatisfy ClearedReaped boot events := by
  have preserved : ∀ (loop : MainLoop) (event : LoopEvent) (following : MainLoop),
      ¬loop.ExitOverlooked → loop.ExitInTime event →
      machine.next loop event = some following → ¬following.ExitOverlooked := by
    intro loop event following none inTime step overlooked
    rcases next_eq_some.mp step with ⟨enabled, rfl⟩
    exact none (exitOverlooked_of_after enabled inTime overlooked)
  refine Machine.StepsSatisfy.imp preserved ?_ (fun overlooked => nomatch overlooked.1) inTime
  intro loop event following none _ step
  rcases next_eq_some.mp step with ⟨enabled, _⟩
  cases event with
  | clearExited => exact fun exited => none ⟨enabled, exited⟩
  | _ => trivial

theorem exitInTime_of_clearedReaped {events : List LoopEvent} {loop : MainLoop}
    (reaped : machine.StepsSatisfy ClearedReaped boot events)
    (reached : machine.run boot events = some loop) (done : loop.position ≠ .cleaned) :
    machine.StepsSatisfy ExitInTime boot events := by
  have none : ¬loop.ExitOverlooked := fun overlooked => done overlooked.1
  refine reaped.of_escaped ?_ ?_ reached none
  · intro loop event following step _ late
    rcases next_eq_some.mp step with ⟨enabled, rfl⟩
    cases event with
    | exit pid =>
        rcases enabled with ⟨child, member, samePid, _⟩
        refine ⟨not_not.mp late, child.gone, ?_, rfl⟩
        exact samePid ▸ mem_update ChildProcess.gone member
    | _ => exact (late trivial).elim
  · intro loop event following step reaped overlooked
    rcases next_eq_some.mp step with ⟨enabled, rfl⟩
    exact exitOverlooked_after enabled reaped overlooked

/-- A run in which no child exits between the last `waitpid` and the clear loses
no exit, and one that ends elsewhere and loses none is such a run. -/
theorem noLostExit_run (events : List LoopEvent) :
    (machine.StepsSatisfy ExitInTime boot events →
        machine.StatesSatisfy NoLostExit boot events) ∧
      ∀ loop, machine.run boot events = some loop → loop.position ≠ .cleaned →
        machine.StatesSatisfy NoLostExit boot events →
        machine.StepsSatisfy ExitInTime boot events := by
  constructor
  · intro inTime
    exact (noLostExit_iff_clearedReaped events).mpr (clearedReaped_of_exitInTime inTime)
  · intro loop reached done kept
    have reaped := (noLostExit_iff_clearedReaped events).mp kept
    exact exitInTime_of_clearedReaped reaped reached done

def exits : List LoopEvent :=
  [.testExited, .acceptClient 100, .testExited, .acceptClient 101, .exit 100, .testExited,
    .waitpid 100, .waitpidNone]

theorem noLostExit_run_exits :
    ∃ loop, machine.run boot (exits ++ [.clearExited]) = some loop ∧ loop.NoLostExit := by
  have reached : machine.run boot (exits ++ [.clearExited]) = some _ := rfl
  exact ⟨_, reached, ((noLostExit_run _).1 (by decide)).final reached⟩

theorem not_noLostExit_beforeClear :
    ¬∀ (events : List LoopEvent) (loop : MainLoop),
      machine.run boot events = some loop → loop.NoLostExit := by
  intro always
  have reached : machine.run boot (exits ++ [.exit 101, .clearExited]) = some _ := rfl
  rcases always _ _ reached ⟨_, List.mem_cons_self, rfl⟩ with set | cleaning
  · cases set
  · cases cleaning

/-! ## Last records -/

/-- The pipe of a child that is removed holds no unread bytes. -/
def Drained (loop : MainLoop) : LoopEvent → Prop
  | .waitpid pid => ∀ child ∈ loop.children, child.pid = pid → child.queue = []
  | _ => True

instance (loop : MainLoop) (event : LoopEvent) : Decidable (loop.Drained event) :=
  match event with
  | .waitpid _ => inferInstanceAs (Decidable (∀ child ∈ loop.children, _ → _))
  | .testExited | .waitpidNone | .clearExited | .acceptClient _ | .acceptFailed | .acceptNone
  | .testSigusr | .clearSigusr | .scanRead | .scanDone | .kill _ | .write _ _
  | .exit _ => .isTrue trivial

/-- When the cleaning starts, the scan has emptied the pipes of the children that
have exited, and no child exits during it with bytes unread. -/
def ReadBeforeCleaning (loop : MainLoop) : LoopEvent → Prop
  | .testExited => loop.childExitedFlag = true →
      ∀ child ∈ loop.children, child.exited = true → child.queue = []
  | .exit pid => loop.position = .cleaning →
      ∀ child ∈ loop.children, child.pid = pid → child.queue = []
  | _ => True

instance (loop : MainLoop) (event : LoopEvent) : Decidable (loop.ReadBeforeCleaning event) :=
  match event with
  | .testExited | .exit _ => inferInstanceAs (Decidable (_ → ∀ child ∈ loop.children, _ → _))
  | .waitpid _ | .waitpidNone | .clearExited | .acceptClient _ | .acceptFailed | .acceptNone
  | .testSigusr | .clearSigusr | .scanRead | .scanDone | .kill _
  | .write _ _ => .isTrue trivial

def RecordOverlooked (loop : MainLoop) : Prop :=
  loop.position = .cleaning ∧
    ∃ child ∈ loop.children, child.exited = true ∧ child.queue ≠ []

def Silent (loop : MainLoop) : Prop :=
  ∀ child ∈ loop.children, child.exited = true → child.sending = false

theorem recordOverlooked_after {loop : MainLoop} {event : LoopEvent}
    (enabled : loop.Enabled event) (drained : loop.Drained event)
    (overlooked : loop.RecordOverlooked) : (loop.after event).RecordOverlooked := by
  rcases overlooked with ⟨cleaning, found⟩
  cases event with
  | waitpid pid =>
      rcases found with ⟨child, member, exited, unread⟩
      refine ⟨cleaning, child, List.mem_filter.mpr ⟨member, ?_⟩, exited, unread⟩
      exact decide_eq_true fun samePid => unread (drained child member samePid)
  | waitpidNone =>
      rcases found with ⟨child, member, exited, _⟩
      rw [enabled.2 child member] at exited
      cases exited
  | kill pid => exact ⟨cleaning, exists_update pid (fun _ => id) found⟩
  | write pid record =>
      refine ⟨cleaning, exists_update pid (fun child holds => ⟨holds.1, ?_⟩) found⟩
      exact fun empty => holds.2 (List.append_eq_nil_iff.mp empty).1
  | exit pid => exact ⟨cleaning, exists_update pid (fun _ holds => ⟨rfl, holds.2⟩) found⟩
  | acceptClient pid => exact absurd (cleaning.symm.trans enabled.1) (by decide)
  | scanRead =>
      rw [Enabled, cleaning] at enabled
      exact (enabled rfl).elim
  | testExited | clearExited | testSigusr | clearSigusr | acceptFailed | acceptNone
  | scanDone => exact absurd (cleaning.symm.trans enabled) (by decide)

theorem recordOverlooked_of_after {loop : MainLoop} {event : LoopEvent} (sound : Sound loop)
    (silent : loop.Silent) (enabled : loop.Enabled event) (read : loop.ReadBeforeCleaning event)
    (overlooked : (loop.after event).RecordOverlooked) : loop.RecordOverlooked := by
  rcases overlooked with ⟨cleaning, found⟩
  cases event with
  | testExited =>
      rcases found with ⟨child, member, exited, unread⟩
      by_cases flag : loop.childExitedFlag = true
      · exact (unread (read flag child member exited)).elim
      · simp only [after, if_neg flag] at cleaning
        cases cleaning
  | waitpid pid =>
      rcases found with ⟨child, member, holds⟩
      exact ⟨cleaning, child, List.mem_of_mem_filter member, holds⟩
  | exit pid =>
      rcases found with ⟨child, member, exited, unread⟩
      rcases exists_of_mem_update member with ⟨old, wasMember, ⟨samePid, rfl⟩ | ⟨_, rfl⟩⟩
      · exact (unread (read cleaning old wasMember samePid)).elim
      · exact ⟨cleaning, child, wasMember, exited, unread⟩
  | kill pid =>
      refine ⟨cleaning, exists_of_exists_update ?_ found⟩
      exact fun _ held => held
  | write pid record =>
      rcases found with ⟨child, member, exited, unread⟩
      rcases exists_of_mem_update member with ⟨old, wasMember, ⟨samePid, rfl⟩ | ⟨_, rfl⟩⟩
      · have sending := Any.all sound enabled wasMember samePid
        exact absurd (sending.symm.trans (silent old wasMember exited)) (by decide)
      · exact ⟨cleaning, child, wasMember, exited, unread⟩
  | testSigusr =>
      simp only [after] at cleaning
      split_ifs at cleaning
  | waitpidNone | clearExited | acceptClient pid | acceptFailed | acceptNone | clearSigusr
  | scanRead | scanDone => cases cleaning

theorem silent_after {loop : MainLoop} {event : LoopEvent} (sound : Sound loop)
    (silent : loop.Silent) (enabled : loop.Enabled event) : (loop.after event).Silent := by
  intro child member exited
  cases event with
  | waitpid pid => exact silent child (List.mem_of_mem_filter member) exited
  | acceptClient pid =>
      rcases List.mem_append.mp member with wasMember | added
      · exact silent child wasMember exited
      · rw [List.mem_singleton.mp added]
  | scanRead =>
      rcases exists_of_scanRead enabled with ⟨pid, _, _, children⟩
      rw [children] at member
      rcases exists_of_mem_update member with ⟨old, wasMember, ⟨_, rfl⟩ | ⟨_, rfl⟩⟩
      · exact silent old wasMember exited
      · exact silent child wasMember exited
  | kill pid =>
      rcases exists_of_mem_update member with ⟨old, wasMember, ⟨samePid, rfl⟩ | ⟨_, rfl⟩⟩
      · have idle := Any.all sound enabled wasMember samePid
        simp [ChildProcess.idle, show old.exited = true from exited] at idle
      · exact silent child wasMember exited
  | write pid record =>
      rcases exists_of_mem_update member with ⟨old, wasMember, ⟨_, rfl⟩ | ⟨_, rfl⟩⟩
      · rfl
      · exact silent child wasMember exited
  | exit pid =>
      rcases exists_of_mem_update member with ⟨old, wasMember, ⟨samePid, rfl⟩ | ⟨_, rfl⟩⟩
      · have idle := Any.all sound enabled wasMember samePid
        simp only [ChildProcess.idle, Bool.and_eq_true, Bool.not_eq_true'] at idle
        exact idle.2
      · exact silent child wasMember exited
  | testExited | waitpidNone | clearExited | acceptFailed | acceptNone | testSigusr
  | clearSigusr | scanDone => exact silent child member exited

structure ReadFirst (loop : MainLoop) : Prop where
  sound : Sound loop
  silent : loop.Silent
  noneOverlooked : ¬loop.RecordOverlooked

theorem readFirst_boot : ReadFirst boot where
  sound := sound_boot
  silent := fun _ member => (List.not_mem_nil member).elim
  noneOverlooked := fun overlooked => nomatch overlooked.1

theorem readFirst_next (loop : MainLoop) (event : LoopEvent) (following : MainLoop)
    (first : ReadFirst loop) (read : loop.ReadBeforeCleaning event)
    (step : machine.next loop event = some following) : ReadFirst following := by
  rcases next_eq_some.mp step with ⟨enabled, rfl⟩
  refine ⟨sound_after first.sound enabled, silent_after first.sound first.silent enabled, ?_⟩
  exact fun overlooked => first.noneOverlooked
    (recordOverlooked_of_after first.sound first.silent enabled read overlooked)

theorem drained_of_readBeforeCleaning {events : List LoopEvent}
    (read : machine.StepsSatisfy ReadBeforeCleaning boot events) :
    machine.StepsSatisfy Drained boot events := by
  refine Machine.StepsSatisfy.imp readFirst_next ?_ readFirst_boot read
  intro loop event following first _ step
  rcases next_eq_some.mp step with ⟨enabled, _⟩
  cases event with
  | waitpid pid =>
      intro child member samePid
      by_contra unread
      have exited := Any.all first.sound enabled.2 member samePid
      exact first.noneOverlooked ⟨enabled.1, child, member, exited, unread⟩
  | _ => trivial

theorem readBeforeCleaning_of_drained {events : List LoopEvent} {loop : MainLoop}
    (drained : machine.StepsSatisfy Drained boot events)
    (reached : machine.run boot events = some loop) (done : loop.position ≠ .cleaning) :
    machine.StepsSatisfy ReadBeforeCleaning boot events := by
  have none : ¬loop.RecordOverlooked := fun overlooked => done overlooked.1
  refine drained.of_escaped ?_ ?_ reached none
  · intro loop event following step _ unread
    rcases next_eq_some.mp step with ⟨enabled, rfl⟩
    cases event with
    | testExited =>
        simp only [ReadBeforeCleaning, not_forall] at unread
        rcases unread with ⟨flag, child, member, exited, unread⟩
        exact ⟨if_pos flag, child, member, exited, unread⟩
    | exit pid =>
        simp only [ReadBeforeCleaning, not_forall] at unread
        rcases unread with ⟨cleaning, child, member, samePid, unread⟩
        refine ⟨cleaning, child.gone, ?_, rfl, unread⟩
        exact samePid ▸ mem_update ChildProcess.gone member
    | _ => exact (unread trivial).elim
  · intro loop event following step drained overlooked
    rcases next_eq_some.mp step with ⟨enabled, rfl⟩
    exact recordOverlooked_after enabled drained overlooked

/-- A run that reads the pipes of exited children before it cleans discards
nothing, and one that does not end in the cleaning and discards nothing is such
a run. -/
theorem drained_run (events : List LoopEvent) :
    (machine.StepsSatisfy ReadBeforeCleaning boot events →
        machine.StepsSatisfy Drained boot events) ∧
      ∀ loop, machine.run boot events = some loop → loop.position ≠ .cleaning →
        machine.StepsSatisfy Drained boot events →
        machine.StepsSatisfy ReadBeforeCleaning boot events := by
  constructor
  · exact drained_of_readBeforeCleaning
  · exact fun loop reached done drained => readBeforeCleaning_of_drained drained reached done

def sends : List LoopEvent :=
  [.testExited, .acceptClient 100, .kill 100, .write 100 [49, 48, 48, 58, 97, 0]]

theorem drained_run_scanned :
    machine.StepsSatisfy Drained boot
      (sends ++ [.testExited, .acceptNone, .testSigusr, .clearSigusr, .scanRead, .scanDone,
        .exit 100, .testExited, .waitpid 100]) :=
  (drained_run _).1 (by decide)

theorem not_drained_exitAtOnce :
    ¬∀ events : List LoopEvent, machine.StepsSatisfy Drained boot events := by
  intro always
  have steps := always (sends ++ [.exit 100, .testExited, .waitpid 100])
  exact absurd steps (by decide)

end MainLoop

end RaspberryPi.ChatServer
