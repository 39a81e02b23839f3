import Mathlib.Data.Finset.Dedup
import Mathlib.Data.Finset.SDiff
import Mathlib.Data.List.Nodup
import RaspberryPi.Foundation.Machine
import RaspberryPi.ChatServer.Types

/-! # Who holds the ends of the pipes

`fork` copies every open descriptor of the parent, also those of the clients
that connected earlier. A child closes the two ends of its own pipes that it
does not use, and its loop takes an end of file for the end of the parent. -/

namespace RaspberryPi.ChatServer

inductive End
  | parentRead
  | parentWrite
  | childRead
  | childWrite
deriving DecidableEq

/-- The ends that `main` keeps and `client_work` closes. -/
def End.keptByParent : End → Bool
  | parentWrite | childRead => true
  | parentRead | childWrite => false

/-- Connections are numbered in the order in which they are accepted. -/
structure PipeEnd where
  connection : Nat
  which : End
deriving DecidableEq

namespace PipeEnd

def created (connection : Nat) : Finset PipeEnd :=
  {⟨connection, .parentRead⟩, ⟨connection, .parentWrite⟩,
    ⟨connection, .childRead⟩, ⟨connection, .childWrite⟩}

def kept (connection : Nat) : Finset PipeEnd :=
  {⟨connection, .parentWrite⟩, ⟨connection, .childRead⟩}

theorem mem_created {pipeEnd : PipeEnd} {connection : Nat} :
    pipeEnd ∈ created connection ↔ pipeEnd.connection = connection := by
  rcases pipeEnd with ⟨other, _ | _ | _ | _⟩ <;> simp [created]

theorem mem_kept {pipeEnd : PipeEnd} {connection : Nat} :
    pipeEnd ∈ kept connection ↔
      pipeEnd.connection = connection ∧ pipeEnd.which.keptByParent = true := by
  rcases pipeEnd with ⟨other, _ | _ | _ | _⟩ <;> simp [kept, End.keptByParent]

end PipeEnd

inductive ChildStage
  /-- Forked; its handler is not set up and its two closes are still to come. -/
  | starting
  /-- Before `if (child_sigusr_arrived)`. -/
  | testing
  /-- The flag is cleared, and the `read` of the parent's pipe comes next. -/
  | reading
  | exited
deriving DecidableEq

structure ForkedChild where
  /-- Its copy of `active_children`, taken by `fork`. -/
  activeChildren : List Nat
  ends : Finset PipeEnd
  stage : ChildStage
  childSigusrArrived : Bool
  /-- The bytes in its pipe from the parent. -/
  queue : Bytes
  /-- The loop went round although the parent had closed that pipe and nothing
  was left in it. -/
  overlooked : Bool

structure Ownership where
  accepted : Nat
  running : Bool
  activeChildren : List Nat
  parentEnds : Finset PipeEnd
  child : Nat → ForkedChild

inductive OwnershipEvent
  | accept
  | start (connection : Nat)
  | deliver (connection : Nat) (mesg : Bytes)
  | test (connection : Nat)
  | read (connection : Nat)
  | exit (connection : Nat)
  | reap (connection : Nat)
  | shutdown
  | die

namespace ForkedChild

def none : ForkedChild := ⟨[], ∅, .exited, false, [], false⟩

def exit (child : ForkedChild) : ForkedChild := { child with ends := ∅, stage := .exited }

/-- `kill(pid, SIGTERM)`, which no child handles. -/
def terminate (child : ForkedChild) : ForkedChild := child.exit

def start (connection : Nat) (child : ForkedChild) : ForkedChild :=
  { child with ends := child.ends \ PipeEnd.kept connection, stage := .testing }

/-- The signal sets the flag only once `client_work` has set up its handler. -/
def deliver (mesg : Bytes) (child : ForkedChild) : ForkedChild :=
  { child with
    queue := child.queue ++ mesg
    childSigusrArrived := child.childSigusrArrived || child.stage != .starting }

def test (parentClosed : Bool) (child : ForkedChild) : ForkedChild :=
  if child.childSigusrArrived then
    { child with childSigusrArrived := false, stage := .reading }
  else { child with overlooked := child.overlooked || parentClosed && child.queue.isEmpty }

/-- The nonblocking `read`: bytes, an end of file, or `EAGAIN`. -/
def read (parentClosed endOfFile : Bool) (child : ForkedChild) : ForkedChild :=
  if child.queue ≠ [] then
    { child with queue := child.queue.drop (bufsiz - 1), stage := .testing }
  else if endOfFile then child.exit
  else { child with stage := .testing, overlooked := child.overlooked || parentClosed }

end ForkedChild

namespace Ownership

def boot : Ownership := ⟨0, true, [], ∅, fun _ => .none⟩

def ParentClosed (state : Ownership) (connection : Nat) : Prop :=
  ⟨connection, .parentWrite⟩ ∉ state.parentEnds

def EndOfFile (state : Ownership) (connection : Nat) : Prop :=
  state.ParentClosed connection ∧
    ∀ other < state.accepted, ⟨connection, .parentWrite⟩ ∉ (state.child other).ends

instance (state : Ownership) (connection : Nat) : Decidable (state.ParentClosed connection) :=
  inferInstanceAs (Decidable (¬_))

instance (state : Ownership) (connection : Nat) : Decidable (state.EndOfFile connection) :=
  inferInstanceAs (Decidable (_ ∧ _))

def Enabled (state : Ownership) : OwnershipEvent → Prop
  | .accept => state.running = true ∧ state.activeChildren.length < maxClient
  | .start connection =>
      connection < state.accepted ∧ (state.child connection).stage = .starting
  | .deliver connection mesg => state.running = true ∧ connection ∈ state.activeChildren ∧
      (state.child connection).stage ≠ .exited ∧ mesg ≠ []
  | .test connection =>
      connection < state.accepted ∧ (state.child connection).stage = .testing
  | .read connection =>
      connection < state.accepted ∧ (state.child connection).stage = .reading
  | .exit connection => connection < state.accepted ∧
      ((state.child connection).stage = .testing ∨ (state.child connection).stage = .reading)
  | .reap connection => state.running = true ∧ connection ∈ state.activeChildren ∧
      (state.child connection).stage = .exited
  | .shutdown | .die => state.running = true

instance (state : Ownership) (event : OwnershipEvent) : Decidable (state.Enabled event) := by
  cases event <;> unfold Enabled <;> infer_instance

def update (state : Ownership) (connection : Nat) (step : ForkedChild → ForkedChild) :
    Ownership :=
  { state with
    child := Function.update state.child connection (step (state.child connection)) }

/-- `pipe`, `pipe`, `fork` and the parent's branch after it. -/
def accept (state : Ownership) : Ownership :=
  let connection := state.accepted
  let child : ForkedChild :=
    ⟨state.activeChildren, state.parentEnds ∪ PipeEnd.created connection, .starting, false, [],
      false⟩
  { state with
    accepted := connection + 1
    activeChildren := state.activeChildren ++ [connection]
    parentEnds := state.parentEnds ∪ PipeEnd.kept connection
    child := Function.update state.child connection child }

def reap (state : Ownership) (connection : Nat) : Ownership :=
  { state with
    activeChildren := state.activeChildren.erase connection
    parentEnds := state.parentEnds \ PipeEnd.kept connection }

def shutdown (state : Ownership) : Ownership :=
  { state with
    running := false
    parentEnds := ∅
    child := fun connection =>
      if connection ∈ state.activeChildren then (state.child connection).terminate
      else state.child connection }

def die (state : Ownership) : Ownership := { state with running := false, parentEnds := ∅ }

def after (state : Ownership) : OwnershipEvent → Ownership
  | .accept => state.accept
  | .start connection => state.update connection (.start connection)
  | .deliver connection mesg => state.update connection (.deliver mesg)
  | .test connection => state.update connection (.test (state.ParentClosed connection))
  | .read connection => state.update connection
      (.read (state.ParentClosed connection) (state.EndOfFile connection))
  | .exit connection => state.update connection .exit
  | .reap connection => state.reap connection
  | .shutdown => state.shutdown
  | .die => state.die

def machine : Machine Ownership OwnershipEvent := .guarded Enabled after

theorem next_eq_some {state following : Ownership} {event : OwnershipEvent} :
    machine.next state event = some following ↔
      state.Enabled event ∧ state.after event = following :=
  Machine.guarded_next_eq_some

@[simp] theorem child_update_self (state : Ownership) (connection : Nat)
    (step : ForkedChild → ForkedChild) :
    (state.update connection step).child connection = step (state.child connection) :=
  Function.update_self ..

theorem child_update_of_ne (state : Ownership) {connection other : Nat}
    (step : ForkedChild → ForkedChild) (different : other ≠ connection) :
    (state.update connection step).child other = state.child other :=
  Function.update_of_ne different ..

@[simp] theorem child_accept_self (state : Ownership) :
    (state.accept).child state.accepted =
      ⟨state.activeChildren, state.parentEnds ∪ PipeEnd.created state.accepted, .starting,
        false, [], false⟩ :=
  Function.update_self ..

theorem child_accept_of_lt {state : Ownership} {other : Nat} (older : other < state.accepted) :
    (state.accept).child other = state.child other :=
  Function.update_of_ne older.ne ..

/-! ## What a child inherits -/

/-- What a child may hold of the ends that are the parent's to keep: those of
the clients that were listed when it was forked, and its own until it starts. -/
def Inherits (connection : Nat) (child : ForkedChild) : Prop :=
  ∀ pipeEnd : PipeEnd, pipeEnd.which.keptByParent = true →
    (pipeEnd ∈ child.ends ↔ child.stage ≠ .exited ∧
      (pipeEnd.connection ∈ child.activeChildren ∨
        pipeEnd.connection = connection ∧ child.stage = .starting))

structure Tables (state : Ownership) : Prop where
  below : ∀ connection ∈ state.activeChildren, connection < state.accepted
  distinct : state.activeChildren.Nodup
  parentEnds : ∀ pipeEnd, pipeEnd ∈ state.parentEnds ↔ state.running = true ∧
    pipeEnd.connection ∈ state.activeChildren ∧ pipeEnd.which.keptByParent = true
  listed : state.running = true → ∀ connection < state.accepted,
    (state.child connection).stage ≠ .exited → connection ∈ state.activeChildren
  earlier : ∀ connection < state.accepted,
    ∀ other ∈ (state.child connection).activeChildren, other < connection
  inherits : ∀ connection < state.accepted, Inherits connection (state.child connection)
  startingCopied : ∀ connection other, connection < other → other < state.accepted →
    (state.child connection).stage = .starting →
      connection ∈ (state.child other).activeChildren

theorem tables_boot : Tables boot := by
  constructor <;> simp [boot]

structure Tables.Keeps (connection : Nat) (child next : ForkedChild) : Prop where
  sameCopy : next.activeChildren = child.activeChildren
  notRestarted : next.stage = .starting → child.stage = .starting
  notRevived : next.stage ≠ .exited → child.stage ≠ .exited
  inherits : Inherits connection child → Inherits connection next

theorem Tables.update {state : Ownership} {connection : Nat} {step : ForkedChild → ForkedChild}
    (tables : Tables state)
    (keeps : Keeps connection (state.child connection) (step (state.child connection))) :
    Tables (state.update connection step) := by
  have either : ∀ other, other = connection ∧
        (state.update connection step).child other = step (state.child connection) ∨
      (state.update connection step).child other = state.child other := by
    intro other
    by_cases same : other = connection
    · subst same
      exact Or.inl ⟨rfl, child_update_self ..⟩
    · exact Or.inr (child_update_of_ne state step same)
  constructor
  · exact tables.below
  · exact tables.distinct
  · exact tables.parentEnds
  · intro running other older alive
    rcases either other with ⟨rfl, equal⟩ | equal
    · rw [equal] at alive
      exact tables.listed running other older (keeps.notRevived alive)
    · rw [equal] at alive
      exact tables.listed running other older alive
  · intro other older
    rcases either other with ⟨rfl, equal⟩ | equal
    · rw [equal, keeps.sameCopy]
      exact tables.earlier other older
    · rw [equal]
      exact tables.earlier other older
  · intro other older
    rcases either other with ⟨rfl, equal⟩ | equal
    · rw [equal]
      exact keeps.inherits (tables.inherits other older)
    · rw [equal]
      exact tables.inherits other older
  · intro first second order older starting
    have startingBefore : (state.child first).stage = .starting := by
      rcases either first with ⟨rfl, equal⟩ | equal
      · exact keeps.notRestarted (equal ▸ starting)
      · exact equal ▸ starting
    have copied := tables.startingCopied first second order older startingBefore
    rcases either second with ⟨rfl, equal⟩ | equal
    · rwa [equal, keeps.sameCopy]
    · rwa [equal]

theorem keeps_start {connection : Nat} {child : ForkedChild} (starting : child.stage = .starting)
    (earlier : ∀ other ∈ child.activeChildren, other < connection) :
    Tables.Keeps connection child (child.start connection) := by
  constructor
  · rfl
  · exact fun _ => starting
  · intro _ exited
    cases starting.symm.trans exited
  · intro inherits pipeEnd kept
    simp only [ForkedChild.start, Finset.mem_sdiff, inherits pipeEnd kept, starting,
      PipeEnd.mem_kept]
    constructor
    · intro holds
      rcases holds with ⟨⟨_, copied | own⟩, other⟩
      · exact ⟨by decide, Or.inl copied⟩
      · exact (other ⟨own.1, kept⟩).elim
    · intro holds
      rcases holds with ⟨_, copied | own⟩
      · refine ⟨⟨by decide, Or.inl copied⟩, fun own => ?_⟩
        exact (earlier _ copied).ne own.1
      · cases own.2

theorem keeps_exit (connection : Nat) (child : ForkedChild) :
    Tables.Keeps connection child child.exit := by
  constructor
  · rfl
  · exact fun starting => nomatch starting
  · exact fun alive => (alive rfl).elim
  · intro _ pipeEnd _
    simp [ForkedChild.exit]

theorem keeps_of_sameEnds {connection : Nat} {child next : ForkedChild}
    (sameCopy : next.activeChildren = child.activeChildren) (sameEnds : next.ends = child.ends)
    (starting : next.stage = .starting ↔ child.stage = .starting)
    (exited : next.stage = .exited ↔ child.stage = .exited) :
    Tables.Keeps connection child next := by
  constructor
  · exact sameCopy
  · exact starting.mp
  · exact mt exited.mpr
  · intro inherits pipeEnd kept
    rw [sameEnds, sameCopy, inherits pipeEnd kept, Ne, Ne, starting, exited]

theorem keeps_deliver (connection : Nat) (mesg : Bytes) (child : ForkedChild) :
    Tables.Keeps connection child (child.deliver mesg) :=
  keeps_of_sameEnds rfl rfl Iff.rfl Iff.rfl

theorem keeps_test {connection : Nat} (parentClosed : Bool) {child : ForkedChild}
    (testing : child.stage = .testing) :
    Tables.Keeps connection child (child.test parentClosed) := by
  rw [ForkedChild.test]
  split_ifs
  · refine keeps_of_sameEnds rfl rfl ?_ ?_ <;> simp [testing]
  · exact keeps_of_sameEnds rfl rfl Iff.rfl Iff.rfl

theorem keeps_read {connection : Nat} (parentClosed endOfFile : Bool) {child : ForkedChild}
    (reading : child.stage = .reading) :
    Tables.Keeps connection child (child.read parentClosed endOfFile) := by
  rw [ForkedChild.read]
  split_ifs
  · refine keeps_of_sameEnds rfl rfl ?_ ?_ <;> simp [reading]
  · exact keeps_exit connection child
  · refine keeps_of_sameEnds rfl rfl ?_ ?_ <;> simp [reading]

theorem Tables.accept {state : Ownership} (tables : Tables state) (running : state.running = true) :
    Tables state.accept := by
  have either : ∀ other < state.accepted + 1, other = state.accepted ∨ other < state.accepted := by
    omega
  constructor
  · intro other listed
    rcases List.mem_append.mp listed with before | new
    · exact Nat.lt_succ_of_lt (tables.below other before)
    · exact List.mem_singleton.mp new ▸ Nat.lt_succ_self _
  · refine List.nodup_append'.mpr ⟨tables.distinct, List.nodup_singleton _, fun other old new => ?_⟩
    exact (tables.below other old).ne (List.mem_singleton.mp new)
  · intro pipeEnd
    simp only [Ownership.accept, Finset.mem_union, tables.parentEnds, PipeEnd.mem_kept,
      List.mem_append, List.mem_singleton, running, true_and]
    rw [or_and_right]
  · intro _ other older alive
    rcases either other older with rfl | older
    · exact List.mem_append_right _ (List.mem_singleton.mpr rfl)
    · rw [child_accept_of_lt older] at alive
      exact List.mem_append_left _ (tables.listed running other older alive)
  · intro other older
    rcases either other older with rfl | older
    · rw [child_accept_self]
      exact tables.below
    · rw [child_accept_of_lt older]
      exact tables.earlier other older
  · intro other older
    rcases either other older with rfl | older
    · rw [child_accept_self]
      intro pipeEnd kept
      simp [tables.parentEnds, PipeEnd.mem_created, running, kept]
    · rw [child_accept_of_lt older]
      exact tables.inherits other older
  · intro first second order older starting
    rcases either second older with rfl | older
    · rw [child_accept_of_lt order] at starting
      rw [child_accept_self]
      refine tables.listed running first order fun exited => ?_
      cases starting.symm.trans exited
    · rw [child_accept_of_lt (order.trans older)] at starting
      rw [child_accept_of_lt older]
      exact tables.startingCopied first second order older starting

theorem Tables.reap {state : Ownership} {connection : Nat} (tables : Tables state)
    (exited : (state.child connection).stage = .exited) : Tables (state.reap connection) := by
  constructor
  · exact fun other listed => tables.below other (List.mem_of_mem_erase listed)
  · exact tables.distinct.erase _
  · intro pipeEnd
    simp only [Ownership.reap, Finset.mem_sdiff, tables.parentEnds, PipeEnd.mem_kept,
      tables.distinct.mem_erase_iff]
    tauto
  · intro running other older alive
    refine (tables.distinct.mem_erase_iff).mpr ⟨?_, tables.listed running other older alive⟩
    rintro rfl
    exact alive exited
  · exact tables.earlier
  · exact tables.inherits
  · exact tables.startingCopied

theorem Tables.die {state : Ownership} (tables : Tables state) : Tables state.die := by
  constructor
  · exact tables.below
  · exact tables.distinct
  · simp [Ownership.die]
  · exact fun running => nomatch running
  · exact tables.earlier
  · exact tables.inherits
  · exact tables.startingCopied

theorem Tables.shutdown {state : Ownership} (tables : Tables state) : Tables state.shutdown := by
  have either : ∀ other, (state.shutdown).child other = (state.child other).exit ∨
      (state.shutdown).child other = state.child other := by
    intro other
    by_cases listed : other ∈ state.activeChildren
    · exact Or.inl (if_pos listed)
    · exact Or.inr (if_neg listed)
  have sameCopy : ∀ other, ((state.shutdown).child other).activeChildren =
      (state.child other).activeChildren := by
    intro other
    rcases either other with equal | equal
    · rw [equal]
      rfl
    · rw [equal]
  constructor
  · exact tables.below
  · exact tables.distinct
  · simp [Ownership.shutdown]
  · exact fun running => nomatch running
  · intro other older
    rw [sameCopy]
    exact tables.earlier other older
  · intro other older
    rcases either other with equal | equal
    · rw [equal]
      exact (keeps_exit other _).inherits (tables.inherits other older)
    · rw [equal]
      exact tables.inherits other older
  · intro first second order older starting
    rw [sameCopy]
    rcases either first with equal | equal
    · rw [equal] at starting
      cases starting
    · rw [equal] at starting
      exact tables.startingCopied first second order older starting

theorem Tables.after {state : Ownership} {event : OwnershipEvent} (tables : Tables state)
    (enabled : state.Enabled event) : Tables (state.after event) := by
  cases event with
  | accept => exact tables.accept enabled.1
  | start connection =>
      exact tables.update (keeps_start enabled.2 (tables.earlier connection enabled.1))
  | deliver connection mesg => exact tables.update (keeps_deliver connection mesg _)
  | test connection => exact tables.update (keeps_test _ enabled.2)
  | read connection => exact tables.update (keeps_read _ _ enabled.2)
  | exit connection => exact tables.update (keeps_exit connection _)
  | reap connection => exact tables.reap enabled.2.2
  | shutdown => exact tables.shutdown
  | die => exact tables.die

/-! ## The parent alone keeps its ends -/

/-- Once its `client_work` has started, nobody but the parent holds the ends of
a client that the parent keeps. -/
def ParentOnly (state : Ownership) : Prop :=
  ∀ connection < state.accepted, (state.child connection).stage ≠ .starting →
    ∀ other < state.accepted, ∀ pipeEnd ∈ PipeEnd.kept connection,
      pipeEnd ∉ (state.child other).ends

def SeesClosing (state : Ownership) : Prop :=
  ∀ connection < state.accepted, (state.child connection).overlooked = false

/-- Connections overlap only before the earlier child starts, and a child that
reaches its test after the closing finds its flag set. -/
def OneAtATime (state : Ownership) : OwnershipEvent → Prop
  | .accept => ∀ connection ∈ state.activeChildren, (state.child connection).stage = .starting
  | .start connection =>
      ∀ other < state.accepted, (state.child other).stage ≠ .exited → other ≤ connection
  | .test connection => state.ParentClosed connection → (state.child connection).queue = [] →
      (state.child connection).childSigusrArrived = true
  | _ => True

theorem ParentOnly.update {state : Ownership} {connection : Nat}
    {step : ForkedChild → ForkedChild} (only : ParentOnly state)
    (fewer : (step (state.child connection)).ends ⊆ (state.child connection).ends)
    (started : (step (state.child connection)).stage ≠ .starting →
      (state.child connection).stage ≠ .starting) : ParentOnly (state.update connection step) := by
  intro owner ownerOlder ownerStarted other older pipeEnd kept held
  have startedBefore : (state.child owner).stage ≠ .starting := by
    by_cases same : owner = connection
    · subst same
      rw [child_update_self] at ownerStarted
      exact started ownerStarted
    · rwa [child_update_of_ne state step same] at ownerStarted
  have heldBefore : pipeEnd ∈ (state.child other).ends := by
    by_cases same : other = connection
    · subst same
      rw [child_update_self] at held
      exact fewer held
    · rwa [child_update_of_ne state step same] at held
  exact only owner ownerOlder startedBefore other older pipeEnd kept heldBefore

theorem parentOnly_accept_iff {state : Ownership} (tables : Tables state)
    (running : state.running = true) (only : ParentOnly state) :
    ParentOnly state.accept ↔ state.OneAtATime .accept := by
  constructor
  · intro holds connection listed
    by_contra started
    have older := tables.below connection listed
    refine holds connection (Nat.lt_succ_of_lt older) ?_ state.accepted (Nat.lt_succ_self _)
      ⟨connection, .parentWrite⟩ (by simp [PipeEnd.kept]) ?_
    · rwa [child_accept_of_lt older]
    · rw [child_accept_self]
      exact Finset.mem_union_left _ ((tables.parentEnds _).mpr ⟨running, listed, rfl⟩)
  · intro starting owner ownerOlder ownerStarted other older pipeEnd kept held
    have connection := (PipeEnd.mem_kept.mp kept).1
    rcases Nat.lt_succ_iff_lt_or_eq.mp ownerOlder with ownerOlder | rfl
    · rw [child_accept_of_lt ownerOlder] at ownerStarted
      rcases Nat.lt_succ_iff_lt_or_eq.mp older with older | rfl
      · rw [child_accept_of_lt older] at held
        exact only owner ownerOlder ownerStarted other older pipeEnd kept held
      · rw [child_accept_self] at held
        rcases Finset.mem_union.mp held with inherited | own
        · have listed := ((tables.parentEnds pipeEnd).mp inherited).2.1
          exact ownerStarted (starting owner (connection ▸ listed))
        · exact ownerOlder.ne (connection.symm.trans (PipeEnd.mem_created.mp own))
    · rw [child_accept_self] at ownerStarted
      exact ownerStarted rfl

theorem parentOnly_start_iff {state : Ownership} {connection : Nat} (tables : Tables state)
    (older : connection < state.accepted) (starting : (state.child connection).stage = .starting)
    (only : ParentOnly state) :
    ParentOnly (state.update connection (.start connection)) ↔
      state.OneAtATime (.start connection) := by
  constructor
  · intro holds other otherOlder alive
    by_contra later
    rw [not_le] at later
    refine holds connection older ?_ other otherOlder ⟨connection, .parentWrite⟩
      (by simp [PipeEnd.kept]) ?_
    · rw [child_update_self]
      exact ChildStage.noConfusion
    · rw [child_update_of_ne _ _ later.ne', tables.inherits other otherOlder _ rfl]
      have copied := tables.startingCopied connection other later otherOlder starting
      exact ⟨alive, Or.inl copied⟩
  · intro latest owner ownerOlder ownerStarted other otherOlder pipeEnd kept held
    rcases PipeEnd.mem_kept.mp kept with ⟨rfl, isKept⟩
    have heldBefore : pipeEnd ∈ (state.child other).ends ∧
        (other = connection → pipeEnd ∉ PipeEnd.kept connection) := by
      by_cases same : other = connection
      · subst same
        rw [child_update_self] at held
        exact ⟨(Finset.mem_sdiff.mp held).1, fun _ => (Finset.mem_sdiff.mp held).2⟩
      · rw [child_update_of_ne _ _ same] at held
        exact ⟨held, fun equal => (same equal).elim⟩
    by_cases same : pipeEnd.connection = connection
    · -- its own child has closed the end, and no later child is running
      subst same
      rcases (tables.inherits other otherOlder pipeEnd isKept).mp heldBefore.1 with
        ⟨alive, copied | own⟩
      · have order := tables.earlier other otherOlder _ copied
        exact absurd (latest other otherOlder alive) (not_le.mpr order)
      · exact heldBefore.2 own.1.symm kept
    · rw [child_update_of_ne _ _ same] at ownerStarted
      exact only _ ownerOlder ownerStarted other otherOlder pipeEnd kept heldBefore.1

theorem parentOnly_shutdown {state : Ownership} (tables : Tables state)
    (running : state.running = true) : ParentOnly state.shutdown := by
  intro owner _ _ other older pipeEnd kept held
  have exited : ((state.shutdown).child other).stage = .exited := by
    by_cases listed : other ∈ state.activeChildren
    · simp [shutdown, listed, ForkedChild.terminate, ForkedChild.exit]
    · have gone : (state.child other).stage = .exited := by
        by_contra alive
        exact listed (tables.listed running other older alive)
      simp [shutdown, listed, gone]
  have inherits := tables.shutdown.inherits other older pipeEnd (PipeEnd.mem_kept.mp kept).2
  exact (inherits.mp held).1 exited

theorem SeesClosing.update {state : Ownership} {connection : Nat}
    {step : ForkedChild → ForkedChild} (sees : SeesClosing state)
    (kept : (step (state.child connection)).overlooked = false) :
    SeesClosing (state.update connection step) := by
  intro other older
  by_cases same : other = connection
  · subst same
    rwa [child_update_self]
  · rw [child_update_of_ne state step same]
    exact sees other older

theorem SeesClosing.accept {state : Ownership} (sees : SeesClosing state) :
    SeesClosing state.accept := by
  intro other older
  rcases Nat.lt_succ_iff_lt_or_eq.mp older with older | rfl
  · rw [child_accept_of_lt older]
    exact sees other older
  · rw [child_accept_self]

theorem SeesClosing.shutdown {state : Ownership} (sees : SeesClosing state) :
    SeesClosing state.shutdown := by
  intro other older
  have before := sees other older
  by_cases listed : other ∈ state.activeChildren
  · simpa [Ownership.shutdown, listed, ForkedChild.terminate, ForkedChild.exit] using before
  · simpa [Ownership.shutdown, listed] using before

theorem overlooked_test_iff {child : ForkedChild} (parentClosed : Bool)
    (before : child.overlooked = false) :
    (child.test parentClosed).overlooked = false ↔
      (parentClosed = true → child.queue = [] → child.childSigusrArrived = true) := by
  cases arrived : child.childSigusrArrived <;> simp [ForkedChild.test, arrived, before]

/-- When nobody else holds the write end, the closing by the parent is an end of file. -/
theorem ParentOnly.endOfFile {state : Ownership} {connection : Nat} (only : ParentOnly state)
    (older : connection < state.accepted) (started : (state.child connection).stage ≠ .starting)
    (closed : state.ParentClosed connection) : state.EndOfFile connection := by
  refine ⟨closed, fun other otherOlder => ?_⟩
  exact only connection older started other otherOlder _ (by simp [PipeEnd.kept])

structure Sole (state : Ownership) : Prop where
  parentOnly : ParentOnly state
  seesClosing : SeesClosing state

theorem sole_test_iff {state : Ownership} {connection : Nat} (sole : Sole state)
    (enabled : state.Enabled (.test connection)) :
    Sole (state.after (.test connection)) ↔ state.OneAtATime (.test connection) := by
  have overlooked := overlooked_test_iff (state.ParentClosed connection)
    (sole.seesClosing connection enabled.1)
  simp only [decide_eq_true_eq] at overlooked
  constructor
  · intro holds
    have seen := holds.seesClosing connection enabled.1
    simp only [after, child_update_self] at seen
    exact overlooked.mp seen
  · intro flagged
    constructor
    · apply sole.parentOnly.update
      · rw [ForkedChild.test]
        split_ifs <;> exact Finset.Subset.refl _
      · intro _ starting
        cases starting.symm.trans enabled.2
    · exact sole.seesClosing.update (overlooked.mpr flagged)

theorem sole_read {state : Ownership} {connection : Nat} (sole : Sole state)
    (enabled : state.Enabled (.read connection)) : Sole (state.after (.read connection)) := by
  have started : (state.child connection).stage ≠ .starting := by
    intro starting
    cases starting.symm.trans enabled.2
  constructor
  · apply sole.parentOnly.update
    · rw [ForkedChild.read]
      split_ifs
      · exact Finset.Subset.refl _
      · exact Finset.empty_subset _
      · exact Finset.Subset.refl _
    · exact fun _ => started
  · apply sole.seesClosing.update
    have before := sole.seesClosing connection enabled.1
    rw [ForkedChild.read]
    split_ifs with waiting endOfFile
    · exact before
    · exact before
    · have stillOpen : ¬state.ParentClosed connection := by
        intro closed
        exact endOfFile (decide_eq_true (sole.parentOnly.endOfFile enabled.1 started closed))
      simp [before, stillOpen]

theorem sole_after_iff {state : Ownership} {event : OwnershipEvent} (tables : Tables state)
    (sole : Sole state) (enabled : state.Enabled event) :
    Sole (state.after event) ↔ state.OneAtATime event := by
  have only := sole.parentOnly
  have sees := sole.seesClosing
  cases event with
  | accept =>
      have decided := parentOnly_accept_iff tables enabled.1 only
      exact ⟨fun holds => decided.mp holds.parentOnly, fun met => ⟨decided.mpr met, sees.accept⟩⟩
  | start connection =>
      have decided := parentOnly_start_iff tables enabled.1 enabled.2 only
      refine ⟨fun holds => decided.mp holds.parentOnly, fun met => ⟨decided.mpr met, ?_⟩⟩
      exact sees.update (sees connection enabled.1)
  | deliver connection mesg =>
      refine iff_of_true ⟨only.update ?_ id, sees.update ?_⟩ trivial
      · exact Finset.Subset.refl _
      · exact sees connection (tables.below connection enabled.2.1)
  | test connection => exact sole_test_iff sole enabled
  | read connection => exact iff_of_true (sole_read sole enabled) trivial
  | exit connection =>
      refine iff_of_true ⟨only.update ?_ fun _ starting => ?_, sees.update ?_⟩ trivial
      · exact Finset.empty_subset _
      · rcases enabled.2 with testing | reading
        · cases starting.symm.trans testing
        · cases starting.symm.trans reading
      · exact sees connection enabled.1
  | reap connection => exact iff_of_true ⟨only, sees⟩ trivial
  | shutdown => exact iff_of_true ⟨parentOnly_shutdown tables enabled, sees.shutdown⟩ trivial
  | die => exact iff_of_true ⟨only, sees⟩ trivial

/-- In every state of a run the parent alone holds its ends and the children see
it close them, exactly if every step of the run meets the condition. -/
theorem sole_run (events : List OwnershipEvent) :
    machine.StatesSatisfy Sole boot events ↔ machine.StepsSatisfy OneAtATime boot events := by
  apply Machine.statesSatisfy_iff_stepsSatisfy ?_ ?_ events tables_boot
  · constructor
    · exact fun _ none => absurd none (Nat.not_lt_zero _)
    · exact fun _ none => absurd none (Nat.not_lt_zero _)
  · intro state event following tables step
    rcases next_eq_some.mp step with ⟨enabled, rfl⟩
    exact tables.after enabled
  · intro state event following tables sole step
    rcases next_eq_some.mp step with ⟨enabled, rfl⟩
    exact sole_after_iff tables sole enabled

/-- The second child inherits the ends of the first, and a child whose parent
has died waits for a signal that nobody sends. -/
theorem not_sole_second :
    (¬∀ (events : List OwnershipEvent) (state : Ownership),
      machine.run boot events = some state → ParentOnly state) ∧
    ¬∀ (events : List OwnershipEvent) (state : Ownership),
      machine.run boot events = some state → SeesClosing state := by
  constructor
  · intro always
    have reached : machine.run boot [.accept, .start 0, .accept] = some _ := rfl
    exact always _ _ reached 0 (by decide) (by decide) 1 (by decide) ⟨0, .parentWrite⟩
      (by decide) (by decide)
  · intro always
    have reached : machine.run boot [.accept, .start 0, .die, .test 0] = some _ := rfl
    exact absurd (always _ _ reached 0 (by decide)) (by decide)

end Ownership

end RaspberryPi.ChatServer
