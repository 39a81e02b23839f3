import Mathlib.Algebra.GroupWithZero.Nat
import Mathlib.Algebra.Order.BigOperators.Group.Finset
import RaspberryPi.Foundation.Progress

/-! # Critical sections

Threads that lock one mutex, take the steps of their body on what they share, and
unlock it. In whatever order they go on, no body is broken up: the threads do what
they would do one after another, in the order in which they lock the mutex. -/

namespace RaspberryPi

inductive Place (Shared : Type u)
  | outside
  /-- It holds the mutex, and has these steps left. -/
  | inside (left : List (Shared → Shared))
  | done

structure Threads (Thread : Type v) (Shared : Type u) where
  shared : Shared
  /-- Who holds the mutex. -/
  owner : Option Thread
  place : Thread → Place Shared
  /-- Who has locked the mutex, in that order. -/
  order : List Thread

inductive ThreadEvent (Thread : Type v)
  | lock (thread : Thread)
  | step (thread : Thread)
  | unlock (thread : Thread)

def applySteps {Shared : Type u} (steps : List (Shared → Shared)) (shared : Shared) : Shared :=
  steps.foldl (fun shared step => step shared) shared

namespace Threads

variable {Thread : Type v} {Shared : Type u} [DecidableEq Thread]

def start (shared : Shared) : Threads Thread Shared :=
  ⟨shared, none, fun _ => .outside, []⟩

variable (body : Thread → List (Shared → Shared))

def lock (threads : Threads Thread Shared) (thread : Thread) : Threads Thread Shared :=
  { threads with
    owner := some thread
    place := Function.update threads.place thread (.inside (body thread))
    order := threads.order ++ [thread] }

def take (threads : Threads Thread Shared) (thread : Thread) (step : Shared → Shared)
    (left : List (Shared → Shared)) : Threads Thread Shared :=
  { threads with
    shared := step threads.shared
    place := Function.update threads.place thread (.inside left) }

def unlock (threads : Threads Thread Shared) (thread : Thread) : Threads Thread Shared :=
  { threads with
    owner := none
    place := Function.update threads.place thread .done }

def next (threads : Threads Thread Shared) : ThreadEvent Thread → Option (Threads Thread Shared)
  | .lock thread =>
      match threads.owner, threads.place thread with
      | none, .outside => some (threads.lock body thread)
      | none, .inside _ | none, .done | some _, _ => none
  | .step thread =>
      match threads.place thread with
      | .inside (step :: left) => some (threads.take thread step left)
      | .inside [] | .outside | .done => none
  | .unlock thread =>
      match threads.place thread with
      | .inside [] => some (threads.unlock thread)
      | .inside (_ :: _) | .outside | .done => none

def machine : Machine (Threads Thread Shared) (ThreadEvent Thread) := ⟨next body⟩

def serial (order : List Thread) (shared : Shared) : Shared :=
  order.foldl (fun shared thread => applySteps (body thread) shared) shared

/-- What will be shared once the holder of the mutex has taken its steps. -/
def finish (threads : Threads Thread Shared) : Shared :=
  match threads.owner with
  | none => threads.shared
  | some thread =>
      match threads.place thread with
      | .inside left => applySteps left threads.shared
      | .outside | .done => threads.shared

/-- Only the holder of the mutex is inside, and no body is broken up. -/
structure Serialized (shared : Shared) (threads : Threads Thread Shared) : Prop where
  alone : ∀ thread left, threads.place thread = .inside left → threads.owner = some thread
  holder : ∀ thread, threads.owner = some thread → ∃ left, threads.place thread = .inside left
  finish : threads.finish = serial body threads.order shared
  once : threads.order.Nodup
  locked : ∀ thread, thread ∈ threads.order ↔ threads.place thread ≠ .outside

variable {body} {shared : Shared} {threads following : Threads Thread Shared} {thread : Thread}

omit [DecidableEq Thread] in
theorem serialized_start (shared : Shared) :
    Serialized body shared (start shared : Threads Thread Shared) where
  alone := fun _ _ inside => nomatch inside
  holder := fun _ owner => nomatch owner
  finish := rfl
  once := List.nodup_nil
  locked := fun _ => iff_of_false List.not_mem_nil fun outside => outside rfl

theorem next_lock (step : threads.next body (.lock thread) = some following) :
    threads.owner = none ∧ threads.place thread = .outside ∧
      following = threads.lock body thread := by
  simp only [next] at step
  split at step
  · cases step
    exact ⟨by assumption, by assumption, rfl⟩
  · cases step
  · cases step
  · cases step

theorem next_step (step : threads.next body (.step thread) = some following) :
    ∃ first left, threads.place thread = .inside (first :: left) ∧
      following = threads.take thread first left := by
  simp only [next] at step
  split at step
  · cases step
    exact ⟨_, _, by assumption, rfl⟩
  · cases step
  · cases step
  · cases step

theorem next_unlock (step : threads.next body (.unlock thread) = some following) :
    threads.place thread = .inside [] ∧ following = threads.unlock thread := by
  simp only [next] at step
  split at step
  · cases step
    exact ⟨by assumption, rfl⟩
  · cases step
  · cases step
  · cases step

omit [DecidableEq Thread] in
theorem finish_of_inside {left : List (Shared → Shared)} (owner : threads.owner = some thread)
    (inside : threads.place thread = .inside left) :
    threads.finish = applySteps left threads.shared := by
  rw [finish, owner]
  dsimp only
  rw [inside]

theorem locked_update (locked : ∀ thread, thread ∈ threads.order ↔ threads.place thread ≠ .outside)
    {place : Place Shared} (before : threads.place thread ≠ .outside) (after : place ≠ .outside)
    (other : Thread) :
    other ∈ threads.order ↔ Function.update threads.place thread place other ≠ .outside := by
  by_cases same : other = thread
  · rw [same, Function.update_self]
    exact iff_of_true ((locked thread).mpr before) after
  · rw [Function.update_of_ne same]
    exact locked other

theorem serialized_lock (serialized : Serialized body shared threads)
    (free : threads.owner = none) (outside : threads.place thread = .outside) :
    Serialized body shared (threads.lock body thread) := by
  have absent : thread ∉ threads.order := fun member =>
    (serialized.locked thread).mp member outside
  have here : (threads.lock body thread).place thread = .inside (body thread) :=
    Function.update_self ..
  constructor
  · intro other left inside
    by_cases same : other = thread
    · rw [same]
      rfl
    · have before : threads.place other = .inside left :=
        (Function.update_of_ne same ..).symm.trans inside
      have owner := serialized.alone other left before
      rw [free] at owner
      cases owner
  · rintro other owner
    cases owner
    exact ⟨_, here⟩
  · have whole := serialized.finish
    rw [finish, free] at whole
    dsimp only at whole
    rw [finish_of_inside rfl here, serial]
    change applySteps (body thread) threads.shared = (threads.order ++ [thread]).foldl _ shared
    rw [List.foldl_append, whole]
    rfl
  · exact List.nodup_append'.mpr ⟨serialized.once, List.nodup_singleton _,
      List.disjoint_singleton.mpr absent⟩
  · intro other
    change other ∈ threads.order ++ [thread] ↔ _
    rw [List.mem_append, List.mem_singleton]
    by_cases same : other = thread
    · rw [same, here]
      exact iff_of_true (Or.inr rfl) fun impossible => nomatch impossible
    · have kept : (threads.lock body thread).place other = threads.place other :=
        Function.update_of_ne same ..
      rw [kept, ← serialized.locked other, or_iff_left same]

theorem serialized_take {step : Shared → Shared} {left : List (Shared → Shared)}
    (serialized : Serialized body shared threads)
    (inside : threads.place thread = .inside (step :: left)) :
    Serialized body shared (threads.take thread step left) := by
  have owner := serialized.alone thread _ inside
  have here : (threads.take thread step left).place thread = .inside left :=
    Function.update_self ..
  constructor
  · intro other rest within
    by_cases same : other = thread
    · rw [same]
      exact owner
    · exact serialized.alone other rest ((Function.update_of_ne same ..).symm.trans within)
  · intro other holds
    have same : thread = other := Option.some.inj (owner.symm.trans holds)
    exact ⟨left, same ▸ here⟩
  · have before := serialized.finish
    rw [finish_of_inside owner inside] at before
    have holds : (threads.take thread step left).owner = some thread := owner
    rw [finish_of_inside holds here]
    exact before
  · exact serialized.once
  · apply locked_update serialized.locked
    · rw [inside]
      exact fun impossible => nomatch impossible
    · exact fun impossible => nomatch impossible

theorem serialized_unlock (serialized : Serialized body shared threads)
    (inside : threads.place thread = .inside []) :
    Serialized body shared (threads.unlock thread) := by
  have owner := serialized.alone thread _ inside
  have here : (threads.unlock thread).place thread = .done := Function.update_self ..
  constructor
  · intro other rest within
    by_cases same : other = thread
    · rw [same, here] at within
      cases within
    · have before := serialized.alone other rest ((Function.update_of_ne same ..).symm.trans within)
      exact absurd (Option.some.inj (before.symm.trans owner)) same
  · rintro other impossible
    cases impossible
  · have before := serialized.finish
    rw [finish_of_inside owner inside] at before
    exact before
  · exact serialized.once
  · apply locked_update serialized.locked
    · rw [inside]
      exact fun impossible => nomatch impossible
    · exact fun impossible => nomatch impossible

theorem serialized_next {event : ThreadEvent Thread} (serialized : Serialized body shared threads)
    (taken : threads.next body event = some following) : Serialized body shared following := by
  cases event with
  | lock thread =>
      rcases next_lock taken with ⟨free, outside, rfl⟩
      exact serialized_lock serialized free outside
  | step thread =>
      rcases next_step taken with ⟨first, left, inside, rfl⟩
      exact serialized_take serialized inside
  | unlock thread =>
      rcases next_unlock taken with ⟨inside, rfl⟩
      exact serialized_unlock serialized inside

theorem serialized_of_run {events : List (ThreadEvent Thread)}
    (reached : (machine body).run (start shared) events = some threads) :
    Serialized body shared threads := by
  apply Machine.run_invariant ?_ (serialized_start shared) reached
  exact fun _ _ _ serialized taken => serialized_next serialized taken

def AllDone (threads : Threads Thread Shared) : Prop := ∀ thread, threads.place thread = .done

omit [DecidableEq Thread] in
/-- In the end the threads have run one after another, each once. -/
theorem Serialized.shared_eq (serialized : Serialized body shared threads)
    (done : threads.AllDone) :
    threads.shared = serial body threads.order shared ∧ ∀ thread, thread ∈ threads.order := by
  have free : threads.owner = none := by
    rw [Option.eq_none_iff_forall_ne_some]
    intro thread owner
    rcases serialized.holder thread owner with ⟨left, inside⟩
    rw [done thread] at inside
    cases inside
  constructor
  · have whole := serialized.finish
    rw [Threads.finish, free] at whole
    exact whole
  · intro thread
    rw [serialized.locked, done thread]
    exact fun impossible => nomatch impossible

/-! ## The threads come to their end -/

section Progress

variable [Fintype Thread]

def weight (body : Thread → List (Shared → Shared)) (thread : Thread) : Place Shared → Nat
  | .outside => (body thread).length + 2
  | .inside left => left.length + 1
  | .done => 0

def work (body : Thread → List (Shared → Shared)) (threads : Threads Thread Shared) : Nat :=
  ∑ thread, weight body thread (threads.place thread)

theorem work_update_lt {place : Place Shared}
    (moved : following.place = Function.update threads.place thread place)
    (less : weight body thread place < weight body thread (threads.place thread)) :
    work body following < work body threads := by
  apply Finset.sum_lt_sum
  · intro other _
    rw [moved]
    by_cases same : other = thread
    · rw [same, Function.update_self]
      exact less.le
    · rw [Function.update_of_ne same]
  · refine ⟨thread, Finset.mem_univ _, ?_⟩
    rw [moved, Function.update_self]
    exact less

theorem windsDown (shared : Shared) :
    (machine body).WindsDown (Serialized body shared) (fun _ _ => True) (work body) AllDone where
  preserved := fun _ _ _ serialized _ taken => serialized_next serialized taken
  decreases := by
    intro threads event following serialized _ taken
    cases event with
    | lock thread =>
        rcases next_lock taken with ⟨free, outside, rfl⟩
        apply work_update_lt rfl
        rw [outside, weight, weight]
        omega
    | step thread =>
        have taken : threads.next body (.step thread) = some following := taken
        rcases next_step taken with ⟨first, left, inside, rfl⟩
        apply work_update_lt rfl
        rw [inside, weight, weight, List.length_cons]
        omega
    | unlock thread =>
        have taken : threads.next body (.unlock thread) = some following := taken
        rcases next_unlock taken with ⟨inside, rfl⟩
        apply work_update_lt rfl
        rw [inside, weight, weight]
        omega
  moves := by
    intro threads serialized unfinished
    cases owner : threads.owner with
    | some thread =>
        rcases serialized.holder thread owner with ⟨left, inside⟩
        cases left with
        | nil =>
            have taken : threads.next body (.unlock thread) = some (threads.unlock thread) := by
              simp only [next, inside]
            exact ⟨.unlock thread, _, trivial, taken⟩
        | cons step left =>
            have taken : threads.next body (.step thread) =
                some (threads.take thread step left) := by
              simp only [next, inside]
            exact ⟨.step thread, _, trivial, taken⟩
    | none =>
        rcases not_forall.mp unfinished with ⟨thread, notDone⟩
        cases place : threads.place thread with
        | outside =>
            have taken : threads.next body (.lock thread) = some (threads.lock body thread) := by
              simp only [next, owner, place]
            exact ⟨.lock thread, _, trivial, taken⟩
        | inside left =>
            have holds := serialized.alone thread left place
            rw [owner] at holds
            cases holds
        | done => exact absurd place notDone

end Progress

end Threads

end RaspberryPi
