import Mathlib.Data.List.Nodup
import RaspberryPi.Epoll.Server

/-! # The select echo server

`main` of `select_server.c`. It answers a client once and then closes the
connection. An event of the machine is one system call, or one place where the
code goes on without any. -/

namespace RaspberryPi.Select

open Epoll (Fd inetNtop bufsiz)

def capacity : Nat := 5

inductive Position
  /-- The head of the outer loop, before the sets are made. -/
  | head
  /-- After `select`, before the test of the listener. -/
  | listener
  | scanning (startIndex : Nat)
  /-- The condition of the outer loop. -/
  | condition
  | closed
deriving DecidableEq

structure Server where
  ssock : Fd
  /-- Other descriptors that have been open from the beginning. -/
  inherited : List Fd
  readfd : List Fd
  maxfd : Int
  clientIndex : Int
  /-- The memory around the array; the cells outside belong to others. -/
  clientFd : Int → Fd
  /-- What was put into the buffer last. -/
  mesg : Bytes
  position : Position
  /-- What `accept` has returned and `close` has not closed. -/
  sockets : List Fd

inductive ServerEvent
  /-- `select` leaves these in the set. -/
  | select (ready : List Fd)
  /-- It leaves the set as it is. -/
  | selectFails
  | noConnection
  | accept (csock : Fd) (address : Bytes)
  | acceptFails
  /-- Not in the set. -/
  | skip (startIndex : Nat)
  /-- No bytes: the end of the file. -/
  | read (startIndex : Nat) (data : Bytes)
  /-- `read` returns -1, because the client has reset the connection or not. -/
  | readFails (startIndex : Nat) (reset : Bool)
  | endScan
  | endPass
  /-- Others change their cells. -/
  | elsewhere (cells : Int → Fd)

namespace Server

def start (ssock : Fd) (inherited : List Fd) (cells : Int → Fd) (mesg : Bytes) : Server where
  ssock := ssock
  inherited := inherited
  readfd := []
  maxfd := ssock
  clientIndex := 0
  clientFd := fun j => if 0 ≤ j ∧ j < capacity then 0 else cells j
  mesg := mesg
  position := .head
  sockets := []

def listed (server : Server) : List Fd :=
  (List.range server.clientIndex.toNat).map fun j : Nat => server.clientFd j

/-- `FD_SET` of the listener and the clients, and the bound for `select`. -/
def watch (server : Server) : Server :=
  { server with
    readfd := server.listed.foldl (fun readfd fd => readfd.insert fd)
      (server.readfd.insert server.ssock)
    maxfd := server.listed.foldl (fun maxfd fd => if fd > maxfd then fd else maxfd)
      server.maxfd + 1 }

def IsOpen (server : Server) (fd : Fd) : Prop :=
  fd = server.ssock ∨ fd ∈ server.inherited ∨ fd ∈ server.sockets

def Visits (server : Server) (startIndex : Nat) : Prop :=
  server.position = .scanning startIndex ∧ startIndex < server.clientIndex

def Reads (server : Server) (startIndex : Nat) : Prop :=
  server.Visits startIndex ∧ server.clientFd startIndex ∈ server.readfd

def ScanEnds (server : Server) : Prop :=
  match server.position with
  | .scanning startIndex => server.clientIndex ≤ startIndex
  | .head | .listener | .condition | .closed => False

def Enabled (server : Server) : ServerEvent → Prop
  | .select ready =>
      server.position = .head ∧
        (∀ fd ∈ server.watch.readfd, fd < server.watch.maxfd → server.IsOpen fd) ∧
        ∀ fd ∈ ready, fd ∈ server.watch.readfd ∧ fd < server.watch.maxfd
  | .selectFails => server.position = .head
  | .noConnection => server.position = .listener ∧ server.ssock ∉ server.readfd
  | .accept csock address =>
      server.position = .listener ∧ server.ssock ∈ server.readfd ∧ 0 ≤ csock ∧
        ¬server.IsOpen csock ∧ address.length = 4
  | .acceptFails => server.position = .listener ∧ server.ssock ∈ server.readfd
  | .skip startIndex =>
      server.Visits startIndex ∧ server.clientFd startIndex ∉ server.readfd
  | .read startIndex data =>
      server.Reads startIndex ∧ data.length ≤ bufsiz ∧
        server.IsOpen (server.clientFd startIndex)
  | .readFails startIndex _ => server.Reads startIndex
  | .endScan => server.ScanEnds
  | .endPass => server.position = .condition
  | .elsewhere _ => True

instance (server : Server) (fd : Fd) : Decidable (server.IsOpen fd) :=
  inferInstanceAs (Decidable (_ ∨ _))

instance (server : Server) (startIndex : Nat) : Decidable (server.Visits startIndex) :=
  inferInstanceAs (Decidable (_ ∧ _))

instance (server : Server) (startIndex : Nat) : Decidable (server.Reads startIndex) :=
  inferInstanceAs (Decidable (_ ∧ _))

instance (server : Server) : Decidable server.ScanEnds := by
  unfold ScanEnds
  split <;> infer_instance

instance (server : Server) (event : ServerEvent) : Decidable (server.Enabled event) := by
  cases event <;> unfold Enabled <;> infer_instance

/-- What `main` does with a connection. It goes on to the condition of the loop, past the
test whether `client_index` is 5, as it returns past it when there is none. -/
def addClient (server : Server) (csock : Fd) (address : Bytes) : Server :=
  { server with
    mesg := inetNtop address
    readfd := server.readfd.insert csock
    clientFd := Function.update server.clientFd server.clientIndex csock
    clientIndex := server.clientIndex + 1
    sockets := server.sockets ++ [csock]
    position := .condition }

def answer (server : Server) (fd : Fd) : Server :=
  { server with
    sockets := server.sockets.erase fd
    readfd := server.readfd.filter (· ≠ fd)
    clientIndex := server.clientIndex - 1 }

def fill (server : Server) (mesg : Bytes) : Server := { server with mesg := mesg }

def afterRead (server : Server) (startIndex : Nat) (n : Int) : Server :=
  if n > 0 then
    { server.answer (server.clientFd startIndex) with position := .scanning (startIndex + 1) }
  else { server with position := .scanning (startIndex + 1) }

def after (server : Server) : ServerEvent → Server
  | .select ready => { server.watch with readfd := ready, position := .listener }
  | .selectFails => { server.watch with position := .listener }
  | .noConnection => { server with position := .scanning 0 }
  | .accept csock address => server.addClient csock address
  | .acceptFails => { server with position := .closed }
  | .skip startIndex => { server with position := .scanning (startIndex + 1) }
  | .read startIndex data => (server.fill data).afterRead startIndex data.length
  | .readFails startIndex _ => (server.fill []).afterRead startIndex (-1)
  | .endScan => { server with position := .condition }
  | .endPass =>
      { server with position := if server.mesg.head? = some 113 then .closed else .head }
  | .elsewhere cells =>
      { server with
        clientFd := fun j => if 0 ≤ j ∧ j < capacity then server.clientFd j else cells j }

def machine : Machine Server ServerEvent := Machine.guarded Enabled after

end Server

end RaspberryPi.Select
