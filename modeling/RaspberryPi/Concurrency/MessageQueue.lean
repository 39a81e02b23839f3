import Mathlib.Algebra.GroupWithZero.Nat
import RaspberryPi.Foundation.CString
import RaspberryPi.Foundation.Progress

/-! # A message queue

`msg_server.c` and any number of `msg_client.c`. The server prints messages of type 1
and removes the queue for one of type 2; a client sends one of each. A queue holds
`limit` bytes of text. -/

namespace RaspberryPi.MessageQueue

open CString

structure Msgbuf where
  mtype : Nat
  mtext : Bytes
deriving DecidableEq

def bufsiz : Nat := 8192

def msgText : Bytes := ascii ['h', 'e', 'l', 'l', 'o', ' ', 'w', 'o', 'r', 'l', 'd', '\n']

def hello : Msgbuf := ⟨1, msgText ++ [0]⟩

def quit : Msgbuf := ⟨2, List.replicate bufsiz 0⟩

inductive ServerPosition
  /-- Before `msgrcv`. -/
  | receiving
  /-- Before `msgctl`. -/
  | removing
  | returned (value : Int)
deriving DecidableEq

inductive ClientPosition
  /-- Before the first `msgsnd`. -/
  | first
  | second
  | returned (value : Int)
deriving DecidableEq

structure System where
  /-- The messages that wait; nothing once the queue is removed. -/
  queue : Option (List Msgbuf)
  server : ServerPosition
  clients : List ClientPosition
  output : Bytes
  /-- What was put into the queue, and what was taken out. -/
  sent : List Msgbuf
  received : List Msgbuf

inductive SystemEvent
  /-- A client is started and calls `msgget`. -/
  | start
  | msgsnd (index : Nat)
  | msgrcv
  | msgctl
deriving DecidableEq

namespace System

def boot : System := ⟨some [], .receiving, [], [], [], []⟩

def start (system : System) : System :=
  match system.queue with
  | none => { system with clients := system.clients ++ [.returned (-1)] }
  | some _ => { system with clients := system.clients ++ [.first] }

def used (waiting : List Msgbuf) : Nat := (waiting.map fun message => message.mtext.length).sum

/-- `msgsnd` by a client, which gets to `after` when the message is in the queue. -/
def deliver (limit : Nat) (system : System) (index : Nat) (message : Msgbuf)
    (after : ClientPosition) : Option System :=
  match system.queue with
  | none => some { system with clients := system.clients.set index (.returned (-1)) }
  | some waiting =>
      if used waiting + message.mtext.length ≤ limit then
        some { system with
          queue := some (waiting ++ [message])
          clients := system.clients.set index after
          sent := system.sent ++ [message] }
      else none

def msgsnd (limit : Nat) (system : System) (index : Nat) : Option System :=
  match system.clients[index]? with
  | some .first => system.deliver limit index hello .second
  | some .second => system.deliver limit index quit (.returned 0)
  | some (.returned _) | none => none

def handle (system : System) (message : Msgbuf) : System :=
  if message.mtext = [] then { system with server := .returned 0 }
  else if message.mtype = 1 then { system with output := system.output ++ message.mtext }
  else if message.mtype = 2 then { system with server := .removing }
  else system

def msgrcv (system : System) : Option System :=
  match system.queue with
  | none => some { system with server := .returned 0 }
  | some [] => none
  | some (message :: waiting) =>
      some ({ system with
        queue := some waiting
        received := system.received ++ [message] }.handle message)

def msgctl (system : System) : System :=
  match system.queue with
  | none => { system with server := .returned (-1) }
  | some _ => { system with queue := none, server := .receiving }

def next (limit : Nat) (system : System) : SystemEvent → Option System
  | .start => some system.start
  | .msgsnd index => system.msgsnd limit index
  | .msgrcv => if system.server = .receiving then system.msgrcv else none
  | .msgctl => if system.server = .removing then some system.msgctl else none

def machine (limit : Nat) : Machine System SystemEvent := ⟨next limit⟩

/-! ## What the server has done -/

inductive Phase (system : System) : Prop
  | listening (waiting : List Msgbuf) (server : system.server = .receiving)
      (queue : system.queue = some waiting) (account : system.sent = system.received ++ waiting)
      (greetings : ∀ message ∈ system.received, message = hello)
  | ending (waiting hellos : List Msgbuf) (server : system.server = .removing)
      (queue : system.queue = some waiting) (account : system.sent = system.received ++ waiting)
      (ended : system.received = hellos ++ [quit]) (greetings : ∀ message ∈ hellos, message = hello)
  | closed (hellos : List Msgbuf)
      (server : system.server = .receiving ∨ system.server = .returned 0)
      (queue : system.queue = none) (account : system.received <+: system.sent)
      (ended : system.received = hellos ++ [quit]) (greetings : ∀ message ∈ hellos, message = hello)

def beforeQuit (messages : List Msgbuf) : List Msgbuf :=
  messages.takeWhile fun message => message ≠ quit

structure Sound (system : System) : Prop where
  phase : system.Phase
  known : ∀ message ∈ system.sent, message = hello ∨ message = quit
  output : system.output = (beforeQuit system.received).flatMap Msgbuf.mtext
  /-- Whoever sends `quit` has sent `hello` before. -/
  first : system.sent.head? ≠ some quit
  begun : ClientPosition.second ∈ system.clients → system.sent ≠ []
  quits : ClientPosition.returned 0 ∈ system.clients → quit ∈ system.sent
  /-- Nobody fails while there is a queue. -/
  failed : system.queue ≠ none →
    ∀ value, ClientPosition.returned value ∈ system.clients → value = 0

variable {system following : System} {limit index : Nat} {message : Msgbuf}

theorem hello_ne_quit : hello ≠ quit := fun same => by
  have types := congrArg Msgbuf.mtype same
  exact absurd types (by decide)

theorem beforeQuit_hellos {hellos : List Msgbuf} (greetings : ∀ message ∈ hellos, message = hello)
    (rest : List Msgbuf) : beforeQuit (hellos ++ rest) = hellos ++ beforeQuit rest := by
  apply List.takeWhile_append_of_pos
  intro message member
  rw [greetings message member]
  exact decide_eq_true hello_ne_quit

theorem beforeQuit_ended {hellos : List Msgbuf}
    (greetings : ∀ message ∈ hellos, message = hello) :
    beforeQuit (hellos ++ [quit]) = hellos := by
  rw [beforeQuit_hellos greetings, beforeQuit, List.takeWhile_cons_of_neg (by simp),
    List.append_nil]

theorem beforeQuit_all {hellos : List Msgbuf}
    (greetings : ∀ message ∈ hellos, message = hello) : beforeQuit hellos = hellos := by
  have same := beforeQuit_hellos greetings []
  have none : beforeQuit [] = [] := rfl
  rwa [none, List.append_nil] at same

theorem sound_boot : boot.Sound where
  phase := .listening [] rfl rfl rfl fun _ member => absurd member List.not_mem_nil
  known := fun _ member => absurd member List.not_mem_nil
  output := rfl
  first := by decide
  begun := fun member => absurd member List.not_mem_nil
  quits := fun member => absurd member List.not_mem_nil
  failed := fun _ _ member => absurd member List.not_mem_nil

theorem Phase.clients (phase : system.Phase) (clients : List ClientPosition) :
    Phase { system with clients } := by
  cases phase with
  | listening waiting server queue account greetings =>
      exact .listening waiting server queue account greetings
  | ending waiting hellos server queue account ended greetings =>
      exact .ending waiting hellos server queue account ended greetings
  | closed hellos server queue account ended greetings =>
      exact .closed hellos server queue account ended greetings

theorem Sound.clients (sound : system.Sound) {clients : List ClientPosition}
    (begun : ClientPosition.second ∈ clients → ClientPosition.second ∈ system.clients)
    (quits : ClientPosition.returned 0 ∈ clients → ClientPosition.returned 0 ∈ system.clients)
    (failed : system.queue ≠ none → ∀ value, ClientPosition.returned value ∈ clients →
      ClientPosition.returned value ∈ system.clients) :
    Sound { system with clients } where
  phase := sound.phase.clients clients
  known := sound.known
  output := sound.output
  first := sound.first
  begun := fun member => sound.begun (begun member)
  quits := fun member => sound.quits (quits member)
  failed := fun queue value member => sound.failed queue value (failed queue value member)

theorem sound_start (sound : system.Sound) : system.start.Sound := by
  rw [start]
  cases queue : system.queue with
  | none =>
      dsimp only
      rw [← queue]
      apply sound.clients
      · simp
      · simp
      · exact fun exists_ => absurd queue exists_
  | some waiting =>
      dsimp only
      rw [← queue]
      apply sound.clients
      · simp
      · simp
      · simp

theorem sound_enqueue (sound : system.Sound) {waiting : List Msgbuf} {after : ClientPosition}
    (queue : system.queue = some waiting) (known : message = hello ∨ message = quit)
    (first : message = quit → system.sent ≠ [])
    (quits : after = .returned 0 → message = quit)
    (failed : ∀ value, after = .returned value → value = 0) :
    Sound { system with
      queue := some (waiting ++ [message])
      clients := system.clients.set index after
      sent := system.sent ++ [message] } where
  phase := by
    cases sound.phase with
    | listening others server here account greetings =>
        cases here.symm.trans queue
        refine .listening (waiting ++ [message]) server rfl ?_ greetings
        change system.sent ++ [message] = system.received ++ (waiting ++ [message])
        rw [account, List.append_assoc]
    | ending others hellos server here account ended greetings =>
        cases here.symm.trans queue
        refine .ending (waiting ++ [message]) hellos server rfl ?_ ended greetings
        change system.sent ++ [message] = system.received ++ (waiting ++ [message])
        rw [account, List.append_assoc]
    | closed hellos server gone => cases gone.symm.trans queue
  known := by
    intro other member
    rcases List.mem_append.mp member with earlier | latest
    · exact sound.known other earlier
    · rw [List.mem_singleton.mp latest]
      exact known
  output := sound.output
  first := by
    cases sent : system.sent with
    | nil =>
        intro isQuit
        have isQuit : some message = some quit := isQuit
        exact first (Option.some.inj isQuit) sent
    | cons head rest =>
        have kept := sound.first
        rw [sent] at kept
        exact kept
  begun := fun _ => List.append_ne_nil_of_right_ne_nil _ (List.cons_ne_nil _ _)
  quits := by
    intro member
    rcases List.mem_or_eq_of_mem_set member with earlier | same
    · exact List.mem_append_left _ (sound.quits earlier)
    · rw [quits same.symm]
      exact List.mem_append_right _ (List.mem_singleton_self _)
  failed := by
    intro _ value member
    rcases List.mem_or_eq_of_mem_set member with earlier | same
    · have exists_ : system.queue ≠ none := by
        rw [queue]
        exact Option.some_ne_none _
      exact sound.failed exists_ value earlier
    · exact failed value same.symm

theorem sound_deliver (sound : system.Sound) {after : ClientPosition}
    (known : message = hello ∨ message = quit) (first : message = quit → system.sent ≠ [])
    (quits : after = .returned 0 → message = quit)
    (failed : ∀ value, after = .returned value → value = 0)
    (done : system.deliver limit index message after = some following) : following.Sound := by
  rw [deliver] at done
  cases queue : system.queue with
  | none =>
      rw [queue] at done
      cases done
      rw [← queue]
      apply sound.clients
      · intro member
        rcases List.mem_or_eq_of_mem_set member with earlier | same
        · exact earlier
        · cases same
      · intro member
        rcases List.mem_or_eq_of_mem_set member with earlier | same
        · exact earlier
        · exact absurd same (by decide)
      · exact fun exists_ => absurd queue exists_
  | some waiting =>
      simp only [queue] at done
      split_ifs at done
      cases done
      exact sound_enqueue sound queue known first quits failed

theorem sound_msgsnd (sound : system.Sound)
    (done : system.msgsnd limit index = some following) : following.Sound := by
  rw [msgsnd] at done
  cases position : system.clients[index]? with
  | none =>
      rw [position] at done
      cases done
  | some client =>
      rw [position] at done
      cases client with
      | first =>
          have done : system.deliver limit index hello .second = some following := done
          refine sound_deliver sound (Or.inl rfl) (fun same => absurd same hello_ne_quit) ?_ ?_ done
          · exact fun impossible => nomatch impossible
          · exact fun _ impossible => nomatch impossible
      | second =>
          have done : system.deliver limit index quit (.returned 0) = some following := done
          have begun := sound.begun (List.mem_of_getElem? position)
          refine sound_deliver sound (Or.inr rfl) (fun _ => begun) (fun _ => rfl) ?_ done
          exact fun value same => (ClientPosition.returned.inj same).symm
      | returned value => cases done

theorem sound_dequeue (sound : system.Sound) (server : system.server = .receiving)
    {waiting : List Msgbuf} (queue : system.queue = some (message :: waiting)) :
    Sound ({ system with
      queue := some waiting
      received := system.received ++ [message] }.handle message) := by
  have exists_ : system.queue ≠ none := by
    rw [queue]
    exact Option.some_ne_none _
  have clients := sound.failed exists_
  cases sound.phase with
  | closed hellos _ gone => cases gone.symm.trans queue
  | ending others hellos removing => cases server.symm.trans removing
  | listening others _ here account greetings =>
      cases here.symm.trans queue
      have output := sound.output
      rw [beforeQuit_all greetings] at output
      have account : system.sent = system.received ++ [message] ++ waiting := by
        rw [account, List.append_assoc]
        rfl
      have member : message ∈ system.sent := by
        rw [account]
        simp
      rcases sound.known message member with rfl | rfl
      · have all : ∀ other ∈ system.received ++ [hello], other = hello := by
          intro other isReceived
          rcases List.mem_append.mp isReceived with earlier | latest
          · exact greetings other earlier
          · exact List.mem_singleton.mp latest
        refine ⟨.listening waiting server rfl account all, sound.known, ?_, sound.first,
          sound.begun, sound.quits, fun _ => clients⟩
        change system.output ++ hello.mtext = (beforeQuit (system.received ++ [hello])).flatMap _
        rw [beforeQuit_all all, List.flatMap_append, output]
        rfl
      · refine ⟨.ending waiting system.received rfl rfl account rfl greetings, sound.known, ?_,
          sound.first, sound.begun, sound.quits, fun _ => clients⟩
        change system.output = (beforeQuit (system.received ++ [quit])).flatMap _
        rw [beforeQuit_ended greetings, output]

theorem sound_msgrcv (sound : system.Sound) (server : system.server = .receiving)
    (done : system.msgrcv = some following) : following.Sound := by
  rw [msgrcv] at done
  cases queue : system.queue with
  | none =>
      rw [queue] at done
      cases done
      cases sound.phase with
      | listening _ _ here => cases here.symm.trans queue
      | ending _ _ removing => cases server.symm.trans removing
      | closed hellos _ _ account ended greetings =>
          refine ⟨.closed hellos (Or.inr rfl) rfl account ended greetings, sound.known,
            sound.output, sound.first, sound.begun, sound.quits, ?_⟩
          exact fun exists_ => absurd rfl exists_
  | some messages =>
      rw [queue] at done
      cases messages with
      | nil => cases done
      | cons message waiting =>
          cases done
          exact sound_dequeue sound server queue

theorem sound_msgctl (sound : system.Sound) (server : system.server = .removing) :
    system.msgctl.Sound := by
  cases sound.phase with
  | listening _ receiving => cases server.symm.trans receiving
  | closed _ elsewhere =>
      rw [server] at elsewhere
      rcases elsewhere with impossible | impossible
      · cases impossible
      · cases impossible
  | ending waiting hellos _ queue account ended greetings =>
      have gone : system.msgctl = { system with queue := none, server := .receiving } := by
        rw [msgctl, queue]
      rw [gone]
      have fewer : system.received <+: system.sent := ⟨waiting, account.symm⟩
      refine ⟨.closed hellos (Or.inl rfl) rfl fewer ended greetings, sound.known, sound.output,
        sound.first, sound.begun, sound.quits, ?_⟩
      exact fun exists_ => absurd rfl exists_

theorem sound_next {event : SystemEvent} (sound : system.Sound)
    (step : system.next limit event = some following) : following.Sound := by
  cases event with
  | start =>
      cases step
      exact sound_start sound
  | msgsnd index => exact sound_msgsnd sound step
  | msgrcv =>
      rcases Option.ite_none_right_eq_some.mp step with ⟨server, done⟩
      exact sound_msgrcv sound server done
  | msgctl =>
      rcases Option.ite_none_right_eq_some.mp step with ⟨server, done⟩
      cases done
      exact sound_msgctl sound server

/-! ## The programs come to their end -/

def Due (_ : System) : SystemEvent → Prop
  | .start => False
  | .msgsnd _ | .msgrcv | .msgctl => True

/-- Every client has returned, and so has the server, unless there was no client. -/
structure Settled (system : System) : Prop where
  clients : ∀ position ∈ system.clients, ∃ value, position = .returned value
  server : system.clients = [] ∨ system.server = .returned 0

def clientWork : ClientPosition → Nat
  | .first => 4
  | .second => 2
  | .returned _ => 0

def serverWork (system : System) : Nat :=
  match system.server, system.queue with
  | .receiving, some waiting => waiting.length + 3
  | .removing, some waiting => waiting.length + 2
  | .receiving, none | .removing, none => 1
  | .returned _, _ => 0

def work (system : System) : Nat :=
  (system.clients.map clientWork).sum + system.serverWork

theorem sum_map_set {clients : List ClientPosition} {position : ClientPosition}
    (here : clients[index]? = some position) (after : ClientPosition) :
    ((clients.set index after).map clientWork).sum + clientWork position =
      (clients.map clientWork).sum + clientWork after := by
  induction clients generalizing index with
  | nil => cases here
  | cons head rest induction =>
      cases index with
      | zero =>
          cases here
          simp only [List.set_cons_zero, List.map_cons, List.sum_cons]
          omega
      | succ index =>
          have same := induction here
          simp only [List.set_cons_succ, List.map_cons, List.sum_cons]
          omega

theorem serverWork_enqueue_le (message : Msgbuf) (clients : List ClientPosition)
    (sent : List Msgbuf) {waiting : List Msgbuf} (queue : system.queue = some waiting) :
    serverWork { system with queue := some (waiting ++ [message]), clients, sent } ≤
      system.serverWork + 1 := by
  rw [serverWork, serverWork, queue]
  cases system.server with
  | receiving => simp
  | removing => simp
  | returned value => simp

theorem work_deliver_lt {position after : ClientPosition}
    (here : system.clients[index]? = some position)
    (nearer : clientWork after + 2 ≤ clientWork position)
    (done : system.deliver limit index message after = some following) :
    following.work < system.work := by
  rw [deliver] at done
  cases queue : system.queue with
  | none =>
      rw [queue] at done
      cases done
      have moved := sum_map_set here (.returned (-1))
      have failed : clientWork (.returned (-1)) = 0 := rfl
      rw [← queue]
      change ((system.clients.set index (.returned (-1))).map clientWork).sum +
        system.serverWork < system.work
      rw [work]
      omega
  | some waiting =>
      simp only [queue] at done
      split_ifs at done
      cases done
      have moved := sum_map_set here after
      have more := serverWork_enqueue_le message (system.clients.set index after)
        (system.sent ++ [message]) queue
      rw [work, work]
      dsimp only
      omega

theorem work_msgrcv_lt (sound : system.Sound) (server : system.server = .receiving)
    (done : system.msgrcv = some following) : following.work < system.work := by
  rw [msgrcv] at done
  cases queue : system.queue with
  | none =>
      rw [queue] at done
      cases done
      change _ + 0 < _ + system.serverWork
      rw [serverWork, server, queue]
      exact Nat.lt_succ_self _
  | some messages =>
      rw [queue] at done
      cases messages with
      | nil => cases done
      | cons message waiting =>
          cases done
          have known : message = hello ∨ message = quit := by
            apply sound.known
            cases sound.phase with
            | listening _ _ here account =>
                cases here.symm.trans queue
                rw [account]
                simp
            | ending _ _ removing => cases server.symm.trans removing
            | closed _ _ gone => cases gone.symm.trans queue
          have before : system.serverWork = waiting.length + 4 := by
            rw [serverWork, server, queue]
            rfl
          rcases known with rfl | rfl
          · change _ + serverWork { system with
              queue := some waiting
              received := system.received ++ [hello]
              output := system.output ++ hello.mtext } < _ + system.serverWork
            rw [before, serverWork, server]
            exact Nat.lt_succ_self _
          · change (system.clients.map clientWork).sum + (waiting.length + 2) < system.work
            rw [work, before]
            omega

theorem work_msgctl_lt (sound : system.Sound) (server : system.server = .removing) :
    system.msgctl.work < system.work := by
  cases sound.phase with
  | listening _ receiving => cases server.symm.trans receiving
  | closed _ elsewhere =>
      rw [server] at elsewhere
      rcases elsewhere with impossible | impossible
      · cases impossible
      · cases impossible
  | ending waiting hellos _ queue =>
      have gone : system.msgctl = { system with queue := none, server := .receiving } := by
        rw [msgctl, queue]
      rw [gone]
      change _ + 1 < _ + system.serverWork
      rw [serverWork, server, queue]
      dsimp only
      omega

theorem exists_msgsnd (enough : bufsiz ≤ limit) {position : ClientPosition}
    (member : position ∈ system.clients) (unfinished : ∀ value, position ≠ .returned value)
    (room : system.queue = none ∨ system.queue = some []) :
    ∃ event following, system.Due event ∧ (machine limit).next system event = some following := by
  rcases List.mem_iff_getElem?.mp member with ⟨index, here⟩
  have delivers : ∀ message after, message.mtext.length ≤ bufsiz →
      ∃ following, system.deliver limit index message after = some following := by
    intro message after short
    rw [deliver]
    rcases room with gone | empty
    · rw [gone]
      exact ⟨_, rfl⟩
    · rw [empty]
      have fits : used [] + message.mtext.length ≤ limit := by
        rw [used, List.map_nil, List.sum_nil]
        omega
      exact ⟨_, if_pos fits⟩
  cases position with
  | first =>
      rcases delivers hello .second (by decide) with ⟨following, done⟩
      refine ⟨.msgsnd index, following, trivial, ?_⟩
      change system.msgsnd limit index = _
      rw [msgsnd, here]
      exact done
  | second =>
      have length : quit.mtext.length ≤ bufsiz := by
        rw [quit, List.length_replicate]
      rcases delivers quit (.returned 0) length with ⟨following, done⟩
      refine ⟨.msgsnd index, following, trivial, ?_⟩
      change system.msgsnd limit index = _
      rw [msgsnd, here]
      exact done
  | returned value => exact absurd rfl (unfinished value)

theorem work_next_lt {event : SystemEvent} (sound : system.Sound) (due : system.Due event)
    (step : (machine limit).next system event = some following) :
    following.work < system.work := by
  cases event with
  | start => exact due.elim
  | msgsnd index =>
      have step : system.msgsnd limit index = some following := step
      rw [msgsnd] at step
      split at step
      · exact work_deliver_lt (by assumption) (by decide) step
      · exact work_deliver_lt (by assumption) (by decide) step
      · cases step
      · cases step
  | msgrcv =>
      rcases Option.ite_none_right_eq_some.mp step with ⟨server, done⟩
      exact work_msgrcv_lt sound server done
  | msgctl =>
      rcases Option.ite_none_right_eq_some.mp step with ⟨server, done⟩
      cases done
      exact work_msgctl_lt sound server

theorem exists_due (enough : bufsiz ≤ limit) (sound : system.Sound)
    (unsettled : ¬system.Settled) :
    ∃ event following, system.Due event ∧
      (machine limit).next system event = some following := by
  have anyClient : ∀ (room : system.queue = none ∨ system.queue = some []),
      (¬∀ position ∈ system.clients, ∃ value, position = .returned value) →
        ∃ event following, system.Due event ∧
          (machine limit).next system event = some following := by
    intro room unfinished
    push Not at unfinished
    rcases unfinished with ⟨position, member, running⟩
    exact exists_msgsnd enough member running room
  cases sound.phase with
  | ending _ _ server => exact ⟨.msgctl, _, trivial, if_pos server⟩
  | closed _ place gone =>
      rcases place with receiving | returned
      · refine ⟨.msgrcv, { system with server := .returned 0 }, trivial, ?_⟩
        change (if system.server = .receiving then system.msgrcv else none) = _
        rw [if_pos receiving, msgrcv, gone]
      · exact anyClient (Or.inl gone) fun finished => unsettled ⟨finished, Or.inr returned⟩
  | listening waiting server queue account greetings =>
      cases waiting with
      | cons message rest =>
          have taken : ∃ following, system.msgrcv = some following := by
            rw [msgrcv, queue]
            exact ⟨_, rfl⟩
          rcases taken with ⟨following, done⟩
          refine ⟨.msgrcv, following, trivial, ?_⟩
          change (if system.server = .receiving then system.msgrcv else none) = _
          rw [if_pos server, done]
      | nil =>
          refine anyClient (Or.inr queue) fun finished => unsettled ⟨finished, Or.inl ?_⟩
          rw [List.eq_nil_iff_forall_not_mem]
          intro position member
          rcases finished position member with ⟨value, rfl⟩
          have exists_ : system.queue ≠ none := by
            rw [queue]
            exact Option.some_ne_none _
          rw [sound.failed exists_ value member] at member
          have isReceived := sound.quits member
          rw [account, List.append_nil] at isReceived
          exact hello_ne_quit (greetings quit isReceived).symm

theorem windsDown (enough : bufsiz ≤ limit) :
    (machine limit).WindsDown Sound Due work Settled where
  preserved := fun _ _ _ sound _ step => sound_next sound step
  decreases := fun _ _ _ sound due step => work_next_lt sound due step
  moves := fun _ sound unsettled => exists_due enough sound unsettled

/-! ## What is printed -/

theorem Sound.output_prefix (sound : system.Sound) :
    system.output <+: (beforeQuit system.sent).flatMap Msgbuf.mtext := by
  have split : ∃ hellos rest, beforeQuit system.received = hellos ∧
      system.sent = hellos ++ rest ∧ ∀ message ∈ hellos, message = hello := by
    cases sound.phase with
    | listening waiting _ _ account greetings =>
        exact ⟨_, waiting, beforeQuit_all greetings, account, greetings⟩
    | ending waiting hellos _ _ account ended greetings =>
        rw [ended] at account ⊢
        exact ⟨hellos, [quit] ++ waiting, beforeQuit_ended greetings,
          account.trans (List.append_assoc ..), greetings⟩
    | closed hellos _ _ account ended greetings =>
        rw [ended] at account ⊢
        rcases account with ⟨rest, account⟩
        exact ⟨hellos, [quit] ++ rest, beforeQuit_ended greetings,
          account.symm.trans (List.append_assoc ..), greetings⟩
  rcases split with ⟨hellos, rest, printed, sent, greetings⟩
  rw [sound.output, printed, sent, beforeQuit_hellos greetings, List.flatMap_append]
  exact List.prefix_append _ _

theorem Sound.output_eq (sound : system.Sound) (returned : system.server = .returned 0) :
    system.output = (beforeQuit system.sent).flatMap Msgbuf.mtext ∧ system.output ≠ [] := by
  cases sound.phase with
  | listening _ server => cases returned.symm.trans server
  | ending _ _ server => cases returned.symm.trans server
  | closed hellos _ _ account ended greetings =>
      rcases account with ⟨rest, account⟩
      have printed := sound.output
      rw [ended, beforeQuit_ended greetings] at printed
      rw [ended] at account
      have whole : beforeQuit system.sent = hellos := by
        rw [← account, List.append_assoc, beforeQuit_hellos greetings, beforeQuit,
          List.singleton_append, List.takeWhile_cons_of_neg (by simp), List.append_nil]
      refine ⟨printed.trans (by rw [whole]), ?_⟩
      rw [printed]
      cases hellos with
      | nil =>
          have first := sound.first
          rw [← account] at first
          exact absurd rfl first
      | cons head tail =>
          rw [greetings head List.mem_cons_self, List.flatMap_cons]
          exact List.append_ne_nil_of_left_ne_nil (by decide) _

/-- Whenever and in whatever order clients come and the programs go on: the server prints
what was sent before the first `quit`, each message once and in order. If no more clients
come, all programs return in a bounded number of steps, unless there was no client. -/
theorem queue_run (enough : bufsiz ≤ limit) {events : List SystemEvent}
    (reached : (machine limit).run boot events = some system) :
    system.output <+: (beforeQuit system.sent).flatMap Msgbuf.mtext ∧
    ∃ bound,
      (∀ more final, (machine limit).StepsSatisfy Due system more →
        (machine limit).run system more = some final → more.length ≤ bound ∧
          ((∀ event, final.Due event → final.next limit event = none) →
            (∀ position ∈ final.clients, ∃ value, position = .returned value) ∧
              (final.clients = [] ∨ final.server = .returned 0 ∧ final.output ≠ [] ∧
                final.output = (beforeQuit final.sent).flatMap Msgbuf.mtext))) ∧
      ∃ more final, (machine limit).StepsSatisfy Due system more ∧
        (machine limit).run system more = some final ∧ final.Settled := by
  have sound : system.Sound := by
    apply Machine.run_invariant ?_ sound_boot reached
    exact fun _ _ _ sound step => sound_next sound step
  have winds := windsDown enough
  refine ⟨sound.output_prefix, system.work, ?_, winds.exists_settled sound⟩
  intro more final due run
  rcases winds.length_add_work_le sound due run with ⟨ends, less⟩
  refine ⟨by omega, fun stuck => ?_⟩
  have settled := winds.settled_of_stuck ends stuck
  refine ⟨settled.clients, settled.server.imp_right fun returned => ?_⟩
  rcases ends.output_eq returned with ⟨all, some_⟩
  exact ⟨returned, some_, all⟩

theorem queue_run_twoClients :
    ∃ system more final,
      (machine (2 * bufsiz)).run boot [.start, .start, .msgsnd 0, .msgsnd 0, .msgrcv] =
        some system ∧
      (machine (2 * bufsiz)).run system more = some final ∧ final.Settled := by
  have runs : ((machine (2 * bufsiz)).run boot
    [.start, .start, .msgsnd 0, .msgsnd 0, .msgrcv]).isSome := by decide +kernel
  have reached := (Option.some_get runs).symm
  rcases queue_run (by decide) reached with ⟨_, _, _, more, final, _, run, settled⟩
  exact ⟨_, more, final, reached, run, settled⟩

end System

end RaspberryPi.MessageQueue
