import Mathlib.Data.List.GetD
import RaspberryPi.Epoll.ClientList

/-! # The batches of the epoll chat server

What `epoll_wait` has returned is at the front of `events`. The loop goes through
as many entries as there are descriptors, so it gets to entries of earlier
calls, and it ends at the first `read` that returns no bytes. -/

namespace RaspberryPi.Epoll.Server

structure Batch where
  returned : List EpollEvent
  /-- The values of `i` that the body has run for. -/
  visited : List Nat
  /-- Those of them where it got to `accept` or `read`. -/
  acted : List Nat

namespace Batch

def empty : Batch := ⟨[], [], []⟩

def act (batch : Batch) (i : Nat) : Batch :=
  { batch with visited := batch.visited ++ [i], acted := batch.acted ++ [i] }

def observe (batch : Batch) : ServerEvent → Batch
  | .wait ready => ⟨ready, [], []⟩
  | .accept i _ _ | .acceptFails i | .read i _ | .readFails i _ => batch.act i
  | .skip i => { batch with visited := batch.visited ++ [i] }
  | .endPass | .elsewhere _ _ => batch

end Batch

def Over (server : Server) : Prop := ∀ i, ¬server.Visits i

def Inert (server : Server) (i : Nat) : Prop :=
  (server.events i).fd ≠ server.ssock ∧
    ((server.events i).epollin = false ∨ (server.events i).fd < 0)

/-- Where the loop gets to an entry left over, nothing happens for it, and a `read` that
returns no bytes is for the last event of the batch. -/
def KeepsBatch (state : Server × Batch) : ServerEvent → Prop
  | .accept i _ _ | .acceptFails i | .skip i =>
      state.2.returned.length ≤ i → state.1.Inert i
  | .read i data =>
      (state.2.returned.length ≤ i → state.1.Inert i) ∧
        (data = [] → i + 1 = state.2.returned.length)
  | .readFails i _ =>
      (state.2.returned.length ≤ i → state.1.Inert i) ∧ i + 1 = state.2.returned.length
  | .wait _ | .endPass | .elsewhere _ _ => True

structure Follows (server : Server) (batch : Batch) : Prop where
  sound : Sound server
  fits : batch.returned.length ≤ maxEvent
  counted : batch.returned.length ≤ server.nfds
  stored : ∀ i (inside : i < batch.returned.length), server.events i = batch.returned[i]
  inOrder : batch.visited = List.range batch.visited.length
  position : ∀ i, server.position = .scanning i → batch.visited.length = i

variable {server following : Server} {batch : Batch} {event : ServerEvent} {i : Nat}

/-! ## What a step can do -/

theorem not_inert_of_reads (reads : server.Reads i) : ¬server.Inert i := by
  intro inert
  rcases reads with ⟨visits, other, readable, positive⟩
  rcases inert.2 with unreadable | negative
  · rw [readable] at unreadable
    exact Bool.noConfusion unreadable
  · exact Int.not_lt.mpr positive negative

theorem Over.of_position (position : ∀ i, server.position ≠ .scanning i) : server.Over :=
  fun i visits => position i visits.1

theorem PassEnds.isOver (ends : server.PassEnds) : server.Over := by
  intro i visits
  rw [PassEnds, visits.1] at ends
  exact Nat.not_lt.mpr ends visits.2

structure Passed (server following : Server) (i : Nat) (position : Position) : Prop where
  visits : server.Visits i
  position : following.position = position
  events : following.events = server.events
  nfds : server.nfds ≤ following.nfds

inductive BatchStep (server : Server) (batch : Batch) (event : ServerEvent)
    (following : Server) : Prop
  | fetched (ready : List EpollEvent) (observed : batch.observe event = ⟨ready, [], []⟩)
      (fits : ready.length ≤ maxEvent)
      (counted : Sound server → ready.length ≤ following.nfds)
      (stored : ∀ i (inside : i < ready.length), following.events i = ready[i])
      (position : following.position = .scanning 0)
      (keeps : KeepsBatch (server, batch) event)
  | acted (i : Nat) (passed : Passed server following i (.scanning (i + 1)))
      (observed : batch.observe event = batch.act i)
      (keeps : KeepsBatch (server, batch) event ↔ i < batch.returned.length)
  | ended (i : Nat) (passed : Passed server following i .broken)
      (observed : batch.observe event = batch.act i)
      (keeps : KeepsBatch (server, batch) event ↔ i + 1 = batch.returned.length)
  | skipped (i : Nat) (passed : Passed server following i (.scanning (i + 1)))
      (observed : batch.observe event = { batch with visited := batch.visited ++ [i] })
      (keeps : KeepsBatch (server, batch) event)
  | between (observed : batch.observe event = batch)
      (same : ∀ i < maxEvent, following.events i = server.events i)
      (nfds : following.nfds = server.nfds)
      (overs : following.Over ↔ server.Over)
      (position : ∀ i, following.position = .scanning i → server.position = .scanning i)
      (keeps : KeepsBatch (server, batch) event)

theorem ready_le (sound : Sound server) {ready : List EpollEvent}
    (distinct : (ready.map EpollEvent.fd).Nodup)
    (registered : ∀ entry ∈ ready, entry.fd ∈ server.ssock :: server.sockets) :
    ready.length ≤ server.nfds := by
  have included : ready.map EpollEvent.fd ⊆ server.ssock :: server.sockets := by
    intro fd member
    rcases List.mem_map.mp member with ⟨entry, inside, rfl⟩
    exact registered entry inside
  have fewer := (distinct.subperm included).length_le
  rw [List.length_map, List.length_cons, ← sound.counts] at fewer
  exact fewer

theorem passed_fill (visits : server.Visits i) (n : Int) (fd : Fd) (mesg : Bytes) (left : Bool) :
    Passed server ((server.fill fd mesg left).afterRead i n) i
      (if n > 0 then .scanning (i + 1) else .broken) := by
  rw [afterRead_eq]
  exact ⟨visits, rfl, rfl, Nat.le_refl _⟩

theorem active_keeps (active : ¬server.Inert i) :
    (batch.returned.length ≤ i → server.Inert i) ↔ i < batch.returned.length := by
  constructor
  · exact fun inert => Nat.not_le.mp fun left => active (inert left)
  · exact fun inside left => absurd inside (Nat.not_lt.mpr left)

theorem active_keeps_last (active : ¬server.Inert i) :
    ((batch.returned.length ≤ i → server.Inert i) ∧ i + 1 = batch.returned.length) ↔
      i + 1 = batch.returned.length := by
  rw [active_keeps active]
  constructor
  · exact And.right
  · intro last
    exact ⟨by omega, last⟩

theorem batchStep (batch : Batch) (step : machine.next server event = some following) :
    BatchStep server batch event following := by
  rcases Machine.guarded_next_eq_some.mp step with ⟨enabled, rfl⟩
  cases event with
  | wait ready =>
      rcases enabled with ⟨position, fits, distinct, registered⟩
      refine .fetched ready rfl fits (fun sound => ready_le sound distinct registered) ?_ rfl
        trivial
      intro i inside
      exact List.getD_eq_getElem _ _ inside
  | accept i csock address =>
      have active : ¬server.Inert i := fun inert => inert.1 enabled.2.1
      refine .acted i ⟨enabled.1, rfl, rfl, Nat.le_succ _⟩ rfl (active_keeps active)
  | acceptFails i =>
      have active : ¬server.Inert i := fun inert => inert.1 enabled.2
      refine .acted i ⟨enabled.1, rfl, rfl, Nat.le_refl _⟩ rfl (active_keeps active)
  | skip i =>
      exact .skipped i ⟨enabled.1, rfl, rfl, Nat.le_refl _⟩ rfl fun _ => enabled.2
  | read i data =>
      have active := not_inert_of_reads enabled.1
      have passed := passed_fill enabled.1.1 data.length (server.events i).fd data data.isEmpty
      by_cases nothing : data = []
      · subst nothing
        refine .ended i passed rfl (Iff.trans ?_ (active_keeps_last active))
        exact and_congr_right fun _ => ⟨fun last => last rfl, fun last _ => last⟩
      · have positive : (data.length : Int) > 0 := by
          have := List.length_pos_of_ne_nil nothing
          omega
        rw [if_pos positive] at passed
        refine .acted i passed rfl (Iff.trans ?_ (active_keeps active))
        exact ⟨And.left, fun inert => ⟨inert, fun empty => absurd empty nothing⟩⟩
  | readFails i reset =>
      have active := not_inert_of_reads enabled
      have passed := passed_fill enabled.1 (-1) (server.events i).fd [] reset
      exact .ended i passed rfl (active_keeps_last active)
  | endPass =>
      have atHead : ∀ i, (server.after .endPass).position ≠ .scanning i := by
        intro i
        change (if server.mesg.head? = some 113 then Position.closed else .waiting) ≠ _
        split
        · exact Position.noConfusion
        · exact Position.noConfusion
      refine .between rfl (fun _ _ => rfl) rfl ?_ (fun i scanning => absurd scanning (atHead i))
        trivial
      exact ⟨fun _ => PassEnds.isOver enabled, fun _ => Over.of_position atHead⟩
  | elsewhere socklist events =>
      exact .between rfl (fun i inside => if_pos inside) rfl Iff.rfl (fun _ => id) trivial

/-! ## Steps and runs -/

theorem Follows.passed {position : Position} (follows : Follows server batch)
    (passed : Passed server following i position) (sound : Sound following)
    (acted : List Nat) (scanning : ∀ j, position = .scanning j → j = i + 1) :
    Follows following ⟨batch.returned, batch.visited ++ [i], acted⟩ := by
  have place : batch.visited.length = i := follows.position i passed.visits.1
  have length : (batch.visited ++ [i]).length = i + 1 := by
    rw [List.length_append, place]
    rfl
  constructor
  · exact sound
  · exact follows.fits
  · exact Nat.le_trans follows.counted passed.nfds
  · intro j inside
    rw [passed.events]
    exact follows.stored j inside
  · change batch.visited ++ [i] = List.range (batch.visited ++ [i]).length
    rw [length, List.range_succ, ← place, ← follows.inOrder]
  · intro j at_
    change (batch.visited ++ [i]).length = j
    rw [length, scanning j (passed.position.symm.trans at_)]

theorem Follows.next (follows : Follows server batch)
    (step : machine.next server event = some following) :
    Follows following (batch.observe event) := by
  have sound := follows.sound.next step
  cases batchStep batch step with
  | fetched ready observed fits counted stored position =>
      rw [observed]
      refine ⟨sound, fits, counted follows.sound, stored, rfl, fun i scanning => ?_⟩
      exact Position.scanning.inj (position.symm.trans scanning)
  | acted i passed observed =>
      rw [observed]
      exact follows.passed passed sound _ fun j same => (Position.scanning.inj same).symm
  | ended i passed observed =>
      rw [observed]
      exact follows.passed passed sound _ fun j same => nomatch same
  | skipped i passed observed =>
      rw [observed]
      exact follows.passed passed sound _ fun j same => (Position.scanning.inj same).symm
  | between observed same nfds overs position =>
      rw [observed]
      refine ⟨sound, follows.fits, ?_, ?_, follows.inOrder, fun i at_ =>
        follows.position i (position i at_)⟩
      · rw [nfds]
        exact follows.counted
      · intro i inside
        rw [same i (Nat.lt_of_lt_of_le inside follows.fits)]
        exact follows.stored i inside

end RaspberryPi.Epoll.Server
