import Mathlib.Logic.Function.Basic
import RaspberryPi.Foundation.Decimal
import RaspberryPi.Foundation.Machine

/-! # The epoll chat server

`main` of `new_epoll_server.c`. An event of the machine is one call of
`epoll_wait`, one round of the loop that goes through `events`, or the end of
that loop. An array is the memory from its first cell on: cells that were never
written, and those beyond the array, hold what they hold. -/

namespace RaspberryPi.Epoll

abbrev Fd := Int

def maxEvent : Nat := 32

def bufsiz : Nat := 8192

structure EpollEvent where
  fd : Fd
  /-- `EPOLLIN` is among its `events`. -/
  epollin : Bool
deriving DecidableEq

inductive Position
  /-- The head of the outer loop, before `epoll_wait`. -/
  | waiting
  | scanning (i : Nat)
  /-- After the `break`. -/
  | broken
  | closed
deriving DecidableEq

structure Server where
  ssock : Fd
  epfd : Fd
  /-- Other descriptors that have been open from the beginning. -/
  inherited : List Fd
  nfds : Nat
  socklist : Nat → Fd
  events : Nat → EpollEvent
  /-- What was put into the buffer last. -/
  mesg : Bytes
  position : Position
  /-- What `accept` has returned and `close` has not closed. -/
  sockets : List Fd
  /-- Those of them whose `read` has not told that the client has left. -/
  connected : List Fd

inductive ServerEvent
  /-- `epoll_wait` stores these; none after a timeout. -/
  | wait (ready : List EpollEvent)
  | accept (i : Nat) (csock : Fd) (address : Bytes)
  | acceptFails (i : Nat)
  /-- Neither the listener nor input. -/
  | skip (i : Nat)
  /-- No bytes: the end of the file. -/
  | read (i : Nat) (data : Bytes)
  /-- `read` returns -1, because the client has reset the connection or not. -/
  | readFails (i : Nat) (reset : Bool)
  /-- The condition of the outer loop. -/
  | endPass
  /-- The cells beyond the arrays belong to others, who may change them. -/
  | elsewhere (socklist : Nat → Fd) (events : Nat → EpollEvent)

def inetNtop (address : Bytes) : Bytes :=
  ((address.map fun byte => CString.decimal byte.toNat).intersperse [46]).flatten

namespace Server

def start (ssock epfd : Fd) (inherited : List Fd) (socklist : Nat → Fd)
    (events : Nat → EpollEvent) (mesg : Bytes) : Server where
  ssock := ssock
  epfd := epfd
  inherited := inherited
  nfds := 1
  socklist := socklist
  events := events
  mesg := mesg
  position := .waiting
  sockets := []
  connected := []

def IsOpen (server : Server) (fd : Fd) : Prop := fd ∈ server.inherited ∨ fd ∈ server.sockets

/-- Descriptors that `accept` may return. Zero is taken, by the listener if by no other. -/
def Unused (server : Server) (csock : Fd) : Prop :=
  0 < csock ∧ csock ≠ server.ssock ∧ csock ≠ server.epfd ∧ ¬server.IsOpen csock

def Visits (server : Server) (i : Nat) : Prop :=
  server.position = .scanning i ∧ i < server.nfds

def Reads (server : Server) (i : Nat) : Prop :=
  server.Visits i ∧ (server.events i).fd ≠ server.ssock ∧ (server.events i).epollin = true ∧
    0 ≤ (server.events i).fd

def PassEnds (server : Server) : Prop :=
  match server.position with
  | .scanning i => server.nfds ≤ i
  | .broken => True
  | .waiting | .closed => False

def Enabled (server : Server) : ServerEvent → Prop
  | .wait ready =>
      server.position = .waiting ∧ ready.length ≤ maxEvent ∧ (ready.map EpollEvent.fd).Nodup ∧
        ∀ entry ∈ ready, entry.fd ∈ server.ssock :: server.sockets
  | .accept i csock address =>
      server.Visits i ∧ (server.events i).fd = server.ssock ∧ server.Unused csock ∧
        address.length = 4
  | .acceptFails i => server.Visits i ∧ (server.events i).fd = server.ssock
  | .skip i =>
      server.Visits i ∧ (server.events i).fd ≠ server.ssock ∧
        ((server.events i).epollin = false ∨ (server.events i).fd < 0)
  | .read i data =>
      server.Reads i ∧ data.length ≤ bufsiz ∧ server.IsOpen (server.events i).fd ∧
        (data ≠ [] → (server.events i).fd ∈ server.inherited ++ server.connected)
  | .readFails i _ => server.Reads i
  | .endPass => server.PassEnds
  | .elsewhere _ _ => True

instance (server : Server) (fd : Fd) : Decidable (server.IsOpen fd) :=
  inferInstanceAs (Decidable (_ ∨ _))

instance (server : Server) (csock : Fd) : Decidable (server.Unused csock) :=
  inferInstanceAs (Decidable (_ ∧ _))

instance (server : Server) (i : Nat) : Decidable (server.Visits i) :=
  inferInstanceAs (Decidable (_ ∧ _))

instance (server : Server) (i : Nat) : Decidable (server.Reads i) :=
  inferInstanceAs (Decidable (_ ∧ _))

instance (server : Server) : Decidable server.PassEnds := by
  unfold PassEnds
  split <;> infer_instance

instance (server : Server) (event : ServerEvent) : Decidable (server.Enabled event) := by
  cases event <;> unfold Enabled <;> infer_instance

/-- The loop that is to close the gap of `fd`; the flag goes up where it is found. -/
def shiftDown (fd : Fd) (nfds : Nat) (socklist : Nat → Fd) : Nat → Fd :=
  ((List.range nfds).foldl (fun (flag, list) j =>
    if flag || list j = fd then (true, Function.update list j (list (j + 1))) else (false, list))
    (false, socklist)).2

/-- `close`, `epoll_ctl(..., EPOLL_CTL_DEL, ...)`, `nfds--` and the loop. -/
def removeClient (server : Server) (fd : Fd) : Server :=
  { server with
    nfds := server.nfds - 1
    socklist := shiftDown fd (server.nfds - 1) server.socklist
    sockets := server.sockets.erase fd }

/-- What follows once `read` has returned `n`, but for what the broadcast writes. -/
def afterRead (server : Server) (i : Nat) (n : Int) : Server :=
  if n > 0 then
    if n ≤ 0 then { server.removeClient (server.events i).fd with position := .scanning (i + 1) }
    else { server with position := .scanning (i + 1) }
  else { server with position := .broken }

def fill (server : Server) (fd : Fd) (mesg : Bytes) (left : Bool) : Server :=
  { server with
    mesg := mesg
    connected := if left then server.connected.erase fd else server.connected }

def addClient (server : Server) (csock : Fd) : Server :=
  { server with
    socklist := Function.update server.socklist (server.nfds - 1) csock
    nfds := server.nfds + 1
    sockets := server.sockets ++ [csock]
    connected := server.connected ++ [csock] }

def after (server : Server) : ServerEvent → Server
  | .wait ready =>
      { server with
        events := fun k => ready.getD k (server.events k)
        position := .scanning 0 }
  | .accept i csock address =>
      { server.addClient csock with mesg := inetNtop address, position := .scanning (i + 1) }
  | .acceptFails i | .skip i => { server with position := .scanning (i + 1) }
  | .read i data =>
      (server.fill (server.events i).fd data data.isEmpty).afterRead i data.length
  | .readFails i reset => (server.fill (server.events i).fd [] reset).afterRead i (-1)
  | .endPass =>
      { server with position := if server.mesg.head? = some 113 then .closed else .waiting }
  | .elsewhere socklist events =>
      { server with
        socklist := fun j => if j < maxEvent then server.socklist j else socklist j
        events := fun i => if i < maxEvent then server.events i else events i }

def machine : Machine Server ServerEvent := Machine.guarded Enabled after

/-- The descriptors that the loop over `socklist` writes a message to. -/
def broadcast (server : Server) : List Fd :=
  ((List.range server.nfds).map server.socklist).filter (· ≠ server.ssock)

def reached (server : Server) : List Fd := server.broadcast.filter server.IsOpen

/-! ## The branch that closes a client is never taken -/

theorem afterRead_eq (server : Server) (i : Nat) (n : Int) :
    server.afterRead i n =
      { server with position := if n > 0 then .scanning (i + 1) else .broken } := by
  rw [afterRead]
  by_cases positive : n > 0
  · rw [if_pos positive, if_neg (by omega), if_pos positive]
  · rw [if_neg positive, if_neg positive]

end Server

end RaspberryPi.Epoll
