import Mathlib.Data.Finset.Insert
import Mathlib.Data.Finset.Union
import Mathlib.Data.List.Nodup
import RaspberryPi.Foundation.Machine

/-! # The descriptor sets of the streaming server

The `select` loop of `v4l2_tcp_server.c`. `fdmax` bounds the loop over the
descriptors while accepted clients raise it and closed clients lower it, and
`read_fds` is a copy of what `master_set` was when `select` returned. -/

namespace RaspberryPi.Streaming

abbrev Fd := Nat

def fdSetsize : Nat := 1024

inductive SelectPosition
  | selecting
  /-- Before the body of the `for` loop for this descriptor. -/
  | scanning (fd : Fd)
deriving DecidableEq

structure SelectLoop where
  listener : Fd
  masterSet : Finset Fd
  readFds : Finset Fd
  fdmax : Fd
  position : SelectPosition
  /-- The open client sockets. -/
  clients : Finset Fd
  /-- What the current or last pass has handled. -/
  handled : List Fd
  /-- The sockets that this pass has accepted. -/
  fresh : Finset Fd
  /-- Sockets that were read in the pass that had accepted them. -/
  early : Finset Fd

/-- The arguments `fd` name the descriptor that the loop has come to. -/
inductive SelectEvent
  | select (ready : Finset Fd)
  | skip (fd : Fd)
  | accept (newfd : Fd)
  | acceptFails
  | frame (fd : Fd)
  | clientFails (fd : Fd)
  | passDone (fd : Fd)

/-- `while (FD_ISSET(fdmax, &master_set) == 0) fdmax--`; no result once `fdmax`
is negative. -/
def lowerFdmax (masterSet : Finset Fd) : Fd → Option Fd
  | 0 => if 0 ∈ masterSet then some 0 else none
  | fdmax + 1 =>
      if fdmax + 1 ∈ masterSet then some (fdmax + 1) else lowerFdmax masterSet fdmax

/-- The loop stops at the greatest descriptor that it can reach. -/
theorem lowerFdmax_eq {masterSet : Finset Fd} {fdmax fd : Fd} (member : fd ∈ masterSet)
    (below : fd ≤ fdmax) :
    ∃ greatest, lowerFdmax masterSet fdmax = some greatest ∧ greatest ∈ masterSet ∧
      ∀ other ∈ masterSet, other ≤ fdmax → other ≤ greatest := by
  induction fdmax with
  | zero =>
      obtain rfl := Nat.le_zero.mp below
      exact ⟨0, if_pos member, member, fun _ _ bound => bound⟩
  | succ fdmax induction =>
      rw [lowerFdmax]
      by_cases isSet : fdmax + 1 ∈ masterSet
      · exact ⟨fdmax + 1, if_pos isSet, isSet, fun _ _ bound => bound⟩
      · have lower : ∀ other ∈ masterSet, other ≤ fdmax + 1 → other ≤ fdmax := by
          intro other otherMember bound
          rcases Nat.le_succ_iff.mp bound with le | rfl
          · exact le
          · exact (isSet otherMember).elim
        rcases induction (lower fd member below) with ⟨greatest, found, isMember, bounds⟩
        rw [if_neg isSet]
        exact ⟨greatest, found, isMember, fun other otherMember bound =>
          bounds other otherMember (lower other otherMember bound)⟩

namespace SelectLoop

def start (listener : Fd) : SelectLoop where
  listener := listener
  masterSet := {listener}
  readFds := ∅
  fdmax := listener
  position := .selecting
  clients := ∅
  handled := []
  fresh := ∅
  early := ∅

def Visits (loop : SelectLoop) (fd : Fd) : Prop :=
  loop.position = .scanning fd ∧ fd ≤ loop.fdmax

def Unused (loop : SelectLoop) (newfd : Fd) : Prop :=
  newfd < fdSetsize ∧ newfd ≠ loop.listener ∧ newfd ∉ loop.clients

def Enabled (loop : SelectLoop) : SelectEvent → Prop
  | .select ready => loop.position = .selecting ∧ ready ⊆ loop.masterSet
  | .skip fd => loop.Visits fd ∧ fd ∉ loop.readFds
  | .accept newfd =>
      loop.Visits loop.listener ∧ loop.listener ∈ loop.readFds ∧ loop.Unused newfd
  | .acceptFails => loop.Visits loop.listener ∧ loop.listener ∈ loop.readFds
  | .frame fd | .clientFails fd => loop.Visits fd ∧ fd ∈ loop.readFds ∧ fd ≠ loop.listener
  | .passDone fd => loop.position = .scanning fd ∧ loop.fdmax < fd

instance (loop : SelectLoop) (fd : Fd) : Decidable (loop.Visits fd) :=
  inferInstanceAs (Decidable (_ ∧ _))

instance (loop : SelectLoop) (newfd : Fd) : Decidable (loop.Unused newfd) :=
  inferInstanceAs (Decidable (_ ∧ _))

instance (loop : SelectLoop) (event : SelectEvent) : Decidable (loop.Enabled event) := by
  cases event <;> unfold Enabled <;> infer_instance

def handle (loop : SelectLoop) (fd : Fd) : SelectLoop :=
  { loop with position := .scanning (fd + 1), handled := loop.handled ++ [fd] }

def receive (loop : SelectLoop) (fd : Fd) : SelectLoop :=
  { loop.handle fd with early := if fd ∈ loop.fresh then insert fd loop.early else loop.early }

def addClient (loop : SelectLoop) (newfd : Fd) : SelectLoop :=
  { loop with
    masterSet := insert newfd loop.masterSet
    fdmax := if newfd > loop.fdmax then newfd else loop.fdmax
    clients := insert newfd loop.clients
    fresh := insert newfd loop.fresh }

/-- `client_cleanup`; no result when the search for a lower `fdmax` does not end. -/
def cleanup (loop : SelectLoop) (fd : Fd) : Option SelectLoop :=
  let masterSet := loop.masterSet.erase fd
  let clients := loop.clients.erase fd
  if fd = loop.fdmax then
    (lowerFdmax masterSet loop.fdmax).map fun fdmax => { loop with masterSet, clients, fdmax }
  else some { loop with masterSet, clients }

def after (loop : SelectLoop) : SelectEvent → Option SelectLoop
  | .select ready =>
      some { loop with readFds := ready, position := .scanning 0, handled := [], fresh := ∅ }
  | .skip fd => some { loop with position := .scanning (fd + 1) }
  | .accept newfd => some ((loop.handle loop.listener).addClient newfd)
  | .acceptFails => some (loop.handle loop.listener)
  | .frame fd => some (loop.receive fd)
  | .clientFails fd => (loop.receive fd).cleanup fd
  | .passDone _ => some { loop with position := .selecting }

def machine : Machine SelectLoop SelectEvent where
  next loop event := if loop.Enabled event then loop.after event else none

/-- What holds besides while a pass is under way: the reported sockets ahead are
still open, and no accepted socket has the number of one of them. -/
structure Ahead (loop : SelectLoop) (fd : Fd) : Prop where
  isSet : ∀ ready ∈ loop.readFds, fd ≤ ready → ready ∈ loop.masterSet
  handled : ∀ ready, ready ∈ loop.handled ↔ ready ∈ loop.readFds ∧ ready < fd
  fresh : ∀ newfd ∈ loop.fresh, newfd ∈ loop.readFds → newfd < fd

structure Sound (loop : SelectLoop) : Prop where
  exactly : loop.masterSet = insert loop.listener loop.clients
  notClient : loop.listener ∉ loop.clients
  fdmaxIsSet : loop.fdmax ∈ loop.masterSet
  fdmaxBounds : ∀ fd ∈ loop.masterSet, fd ≤ loop.fdmax
  once : loop.handled.Nodup
  notEarly : loop.early = ∅
  scanning : ∀ fd, loop.position = .scanning fd → loop.Ahead fd
  selecting : loop.position = .selecting → ∀ ready, ready ∈ loop.handled ↔ ready ∈ loop.readFds

theorem sound_start (listener : Fd) : Sound (start listener) := by
  constructor <;> simp [start]

variable {loop following : SelectLoop} {fd newfd : Fd}

theorem Sound.goOn {readFds fresh : Finset Fd} {handled : List Fd} (sound : Sound loop)
    (once : handled.Nodup)
    (ahead : Ahead { loop with readFds, fresh, handled, position := .scanning fd } fd) :
    Sound { loop with readFds, fresh, handled, position := .scanning fd } := by
  constructor
  · exact sound.exactly
  · exact sound.notClient
  · exact sound.fdmaxIsSet
  · exact sound.fdmaxBounds
  · exact once
  · exact sound.notEarly
  · intro other scanning
    cases scanning
    exact ahead
  · exact fun selecting => nomatch selecting

theorem Sound.handle (sound : Sound loop) (visits : loop.Visits fd) (ready : fd ∈ loop.readFds) :
    Sound (loop.handle fd) := by
  have ahead := sound.scanning fd visits.1
  have notYet : fd ∉ loop.handled := fun done => Nat.lt_irrefl fd ((ahead.handled fd).mp done).2
  have once : (loop.handled ++ [fd]).Nodup := List.nodup_append'.mpr ⟨sound.once,
    List.nodup_singleton _, List.disjoint_singleton.mpr notYet⟩
  apply sound.goOn once
  constructor
  · exact fun other member later => ahead.isSet other member (Nat.le_of_succ_le later)
  · intro other
    rw [List.mem_append, ahead.handled, List.mem_singleton, Nat.lt_succ_iff_lt_or_eq]
    constructor
    · rintro (⟨member, earlier⟩ | rfl)
      · exact ⟨member, Or.inl earlier⟩
      · exact ⟨ready, Or.inr rfl⟩
    · intro holds
      rcases holds with ⟨member, earlier | same⟩
      · exact Or.inl ⟨member, earlier⟩
      · exact Or.inr same
  · exact fun other member reported => Nat.lt_succ_of_lt (ahead.fresh other member reported)

theorem Sound.skip (sound : Sound loop) (visits : loop.Visits fd) (idle : fd ∉ loop.readFds) :
    Sound { loop with position := .scanning (fd + 1) } := by
  have ahead := sound.scanning fd visits.1
  apply sound.goOn sound.once
  constructor
  · exact fun other member later => ahead.isSet other member (Nat.le_of_succ_le later)
  · intro other
    rw [ahead.handled, Nat.lt_succ_iff_lt_or_eq]
    apply and_congr_right
    intro member
    refine ⟨Or.inl, fun order => order.resolve_right ?_⟩
    rintro rfl
    exact idle member
  · exact fun other member reported => Nat.lt_succ_of_lt (ahead.fresh other member reported)

theorem Sound.passDone (sound : Sound loop) (scanning : loop.position = .scanning fd)
    (beyond : loop.fdmax < fd) : Sound { loop with position := .selecting } := by
  have ahead := sound.scanning fd scanning
  constructor
  · exact sound.exactly
  · exact sound.notClient
  · exact sound.fdmaxIsSet
  · exact sound.fdmaxBounds
  · exact sound.once
  · exact sound.notEarly
  · exact fun _ scanning => nomatch scanning
  · intro _ ready
    refine (ahead.handled ready).trans ⟨And.left, fun member => ⟨member, ?_⟩⟩
    by_contra later
    have isSet := ahead.isSet ready member (Nat.not_lt.mp later)
    exact later (Nat.lt_of_le_of_lt (sound.fdmaxBounds ready isSet) beyond)

theorem Sound.receive_eq (sound : Sound loop) (visits : loop.Visits fd)
    (ready : fd ∈ loop.readFds) : loop.receive fd = loop.handle fd := by
  have notFresh : fd ∉ loop.fresh := by
    intro fresh
    exact Nat.lt_irrefl fd ((sound.scanning fd visits.1).fresh fd fresh ready)
  rw [receive, if_neg notFresh]
  rfl

theorem Sound.addClient (sound : Sound loop) (scanning : loop.position = .scanning fd)
    (unused : loop.Unused newfd) : Sound (loop.addClient newfd) := by
  have ahead := sound.scanning fd scanning
  have bound : loop.fdmax ≤ (loop.addClient newfd).fdmax ∧ newfd ≤ (loop.addClient newfd).fdmax ∧
      ((loop.addClient newfd).fdmax = newfd ∨ (loop.addClient newfd).fdmax = loop.fdmax) := by
    simp only [SelectLoop.addClient]
    split_ifs with higher
    · exact ⟨Nat.le_of_lt higher, Nat.le_refl _, Or.inl rfl⟩
    · exact ⟨Nat.le_refl _, Nat.not_lt.mp higher, Or.inr rfl⟩
  have notSet : newfd ∉ loop.masterSet := by
    rw [sound.exactly, Finset.mem_insert]
    rintro (same | open')
    · exact unused.2.1 same
    · exact unused.2.2 open'
  constructor
  · exact (congrArg (insert newfd) sound.exactly).trans (Finset.insert_comm ..)
  · intro member
    rcases Finset.mem_insert.mp member with same | open'
    · exact unused.2.1 same.symm
    · exact sound.notClient open'
  · rcases bound.2.2 with raised | same
    · rw [raised]
      exact Finset.mem_insert_self _ _
    · rw [same]
      exact Finset.mem_insert_of_mem sound.fdmaxIsSet
  · intro other member
    rcases Finset.mem_insert.mp member with rfl | member
    · exact bound.2.1
    · exact (sound.fdmaxBounds other member).trans bound.1
  · exact sound.once
  · exact sound.notEarly
  · intro other scanningOther
    obtain rfl : fd = other := by
      simpa using scanning.symm.trans scanningOther
    constructor
    · exact fun ready member later =>
        Finset.mem_insert_of_mem (ahead.isSet ready member later)
    · exact ahead.handled
    · intro accepted member reported
      rcases Finset.mem_insert.mp member with rfl | member
      · by_contra later
        exact notSet (ahead.isSet accepted reported (Nat.not_lt.mp later))
      · exact ahead.fresh accepted member reported
  · exact fun selecting => nomatch scanning.symm.trans selecting

/-- Closing a client always ends, with the greatest open descriptor as `fdmax`. -/
theorem Sound.cleanup (sound : Sound loop) (scanning : loop.position = .scanning (fd + 1))
    (client : fd ≠ loop.listener) :
    ∃ following, loop.cleanup fd = some following ∧ Sound following := by
  have ahead := sound.scanning (fd + 1) scanning
  have listenerLeft : loop.listener ∈ loop.masterSet.erase fd := by
    rw [Finset.mem_erase, sound.exactly]
    exact ⟨client.symm, Finset.mem_insert_self _ _⟩
  have exactly : loop.masterSet.erase fd = insert loop.listener (loop.clients.erase fd) := by
    rw [sound.exactly, Finset.erase_insert_of_ne client.symm]
  have closed : ∀ fdmax, fdmax ∈ loop.masterSet.erase fd →
      (∀ other ∈ loop.masterSet.erase fd, other ≤ fdmax) →
      Sound { loop with
        masterSet := loop.masterSet.erase fd, clients := loop.clients.erase fd, fdmax } := by
    intro fdmax isSet bounds
    constructor
    · exact exactly
    · exact fun member => sound.notClient (Finset.mem_of_mem_erase member)
    · exact isSet
    · exact bounds
    · exact sound.once
    · exact sound.notEarly
    · intro other scanningOther
      obtain rfl : fd + 1 = other := by
        simpa using scanning.symm.trans scanningOther
      refine ⟨fun ready member later => ?_, ahead.handled, ahead.fresh⟩
      exact Finset.mem_erase.mpr ⟨Nat.ne_of_gt later, ahead.isSet ready member later⟩
    · exact fun selecting => nomatch scanning.symm.trans selecting
  have below : ∀ other ∈ loop.masterSet.erase fd, other ≤ loop.fdmax :=
    fun other member => sound.fdmaxBounds other (Finset.mem_of_mem_erase member)
  rw [SelectLoop.cleanup]
  by_cases last : fd = loop.fdmax
  · rcases lowerFdmax_eq listenerLeft (below _ listenerLeft) with
      ⟨greatest, found, isSet, bounds⟩
    rw [if_pos last, found]
    refine ⟨_, rfl, closed greatest isSet ?_⟩
    exact fun other member => bounds other member (below other member)
  · rw [if_neg last]
    exact ⟨_, rfl, closed loop.fdmax (Finset.mem_erase.mpr ⟨Ne.symm last, sound.fdmaxIsSet⟩) below⟩

theorem Sound.after {event : SelectEvent} (sound : Sound loop) (enabled : loop.Enabled event) :
    ∃ following, loop.after event = some following ∧ Sound following := by
  cases event with
  | select ready =>
      refine ⟨_, rfl, sound.goOn List.nodup_nil ⟨fun fd member _ => enabled.2 member, ?_, ?_⟩⟩
      · simp
      · simp
  | skip fd => exact ⟨_, rfl, sound.skip enabled.1 enabled.2⟩
  | accept newfd =>
      have handled := sound.handle enabled.1 enabled.2.1
      exact ⟨_, rfl, handled.addClient rfl enabled.2.2⟩
  | acceptFails => exact ⟨_, rfl, sound.handle enabled.1 enabled.2⟩
  | frame fd =>
      refine ⟨_, rfl, ?_⟩
      rw [sound.receive_eq enabled.1 enabled.2.1]
      exact sound.handle enabled.1 enabled.2.1
  | clientFails fd =>
      rw [SelectLoop.after, sound.receive_eq enabled.1 enabled.2.1]
      exact (sound.handle enabled.1 enabled.2.1).cleanup rfl enabled.2.2
  | passDone fd => exact ⟨_, rfl, sound.passDone enabled.1 enabled.2⟩

end SelectLoop

end RaspberryPi.Streaming
