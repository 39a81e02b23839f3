import RaspberryPi.ChatServer.Addressing
import RaspberryPi.ChatServer.SocketDelivery
import RaspberryPi.ChatServer.System

/-! # From the dispatch to the client

The parent, the pipes in both directions, the loops of the children and the
sockets of the clients, in every interleaving. A write of the parent goes where
its descriptor leads, and its signal where the pid does. -/

namespace RaspberryPi.ChatServer

open CString

structure Exchange where
  system : System
  /-- The pipe from the parent, the loop of the child and the socket of the client. -/
  outbound : Pid → SocketDelivery
  /-- What the dispatch has addressed to each child since it was forked. -/
  addressed : Pid → List Bytes

inductive ExchangeEvent
  | accept (attempt : AcceptAttempt)
  | exit (pid : Pid)
  | clean (reaped : List Pid)
  | send (pid : Pid) (received : Bytes)
  /-- One read of the scan, its dispatch and what its writes come to. -/
  | read (index count : Nat) (outcomes : List WriteOutcome)
  /-- A step of a child's loop. -/
  | child (pid : Pid) (event : DeliveryEvent)

def DeliveryEvent.isOwn : DeliveryEvent → Bool
  | .write _ | .kill => false
  | .testSigusr | .clearSigusr | .read _ | .readNothing | .readEnd | .forward _ | .serve _ =>
      true

def Delivery.MayCome (delivery : Delivery) : WriteOutcome → Prop
  | .wrote count => count ≤ delivery.bytes.length
  | .refused | .failed => True

instance (delivery : Delivery) (outcome : WriteOutcome) :
    Decidable (delivery.MayCome outcome) := by
  cases outcome <;> unfold Delivery.MayCome <;> infer_instance

namespace Exchange

def boot (buffer : MesgBuffer) (before : Finset Fd) (others : Finset Pid) : Exchange where
  system := .boot buffer before others
  outbound := fun _ => .start
  addressed := fun _ => []

def pipeOf (server : Server) (fd : Fd) : Option Pid :=
  (server.forked.find? fun child => decide (child.parentToChildWriteFd = fd)).map Child.pid

def update (exchange : Exchange) (pid : Pid) (event : DeliveryEvent) : Exchange :=
  { exchange with
    outbound := Function.update exchange.outbound pid ((exchange.outbound pid).after event) }

def writeTo (exchange : Exchange) (fd : Fd) (mesg : Bytes) : Exchange :=
  match pipeOf exchange.system.server fd with
  | none => exchange
  | some pid => exchange.update pid (.write mesg)

def address (exchange : Exchange) (delivery : Delivery) : Exchange :=
  { exchange with
    addressed := Function.update exchange.addressed delivery.pid
      (exchange.addressed delivery.pid ++ [delivery.bytes]) }

/-- A `write` and, if it put bytes in, the `kill` behind it. -/
def deliver (exchange : Exchange) (delivery : Delivery) (outcome : WriteOutcome) : Exchange :=
  let exchange := exchange.address delivery
  match outcome with
  | .wrote count =>
      if 0 < count then
        (exchange.writeTo delivery.fd (delivery.bytes.take count)).update delivery.pid .kill
      else exchange
  | .refused | .failed => exchange

def deliverAll (exchange : Exchange) : List (Delivery × WriteOutcome) → Exchange
  | [] => exchange
  | (delivery, outcome) :: rest => (exchange.deliver delivery outcome).deliverAll rest

def deliveries (system : System) (index count : Nat) : List Delivery :=
  match system.server.parent.clients[index]? with
  | none => []
  | some child =>
      match system.server.scanRead index ((system.pipes child.pid).chunk count) with
      | none => []
      | some result => result.2

def forked (exchange : Exchange) (attempt : AcceptAttempt) (system : System) : Exchange :=
  match attempt.fork with
  | none => { exchange with system }
  | some pid =>
      if exchange.system.server.Refuses attempt then { exchange with system }
      else
        { system
          outbound := Function.update exchange.outbound pid .start
          addressed := Function.update exchange.addressed pid [] }

def next (exchange : Exchange) : ExchangeEvent → Option Exchange
  | .accept attempt => (exchange.system.next (.accept attempt)).map (exchange.forked attempt)
  | .exit pid => (exchange.system.next (.exit pid)).map fun system => { exchange with system }
  | .clean reaped =>
      (exchange.system.next (.clean reaped)).map fun system => { exchange with system }
  | .send pid received =>
      (exchange.system.next (.send pid received)).map fun system => { exchange with system }
  | .read index count outcomes =>
      if List.Forall₂ Delivery.MayCome (deliveries exchange.system index count) outcomes then
        (exchange.system.next (.read index count)).map fun system =>
          { exchange with system }.deliverAll
            ((deliveries exchange.system index count).zip outcomes)
      else none
  | .child pid event =>
      if event.isOwn = true ∧ pid ∈ exchange.system.server.forked.map Child.pid ∧
          pid ∉ exchange.system.server.exited ∧ (exchange.outbound pid).Enabled event then
        some (exchange.update pid event)
      else none

def machine : Machine Exchange ExchangeEvent := ⟨next⟩

/-! ## Where a write goes -/

theorem fds_nodup {before : Finset Fd} {server : Server}
    (holds : server.RegistryHolds before) : (server.forked.flatMap Child.fds).Nodup := by
  have fresh := holds.fdsFresh.1
  rw [Server.childFds_eq, holds.listed, List.flatMap_map] at fresh
  exact fresh

theorem pipeOf_eq {before : Finset Fd} {server : Server} (holds : server.RegistryHolds before)
    {child : Child} (isForked : child ∈ server.forked) :
    pipeOf server child.parentToChildWriteFd = some child.pid := by
  have found : (server.forked.find? fun other =>
      decide (other.parentToChildWriteFd = child.parentToChildWriteFd)) = some child := by
    apply find?_eq_some_of_unique isForked (decide_eq_true rfl)
    intro other isOther same
    by_contra different
    have apart := (List.nodup_flatMap.mp (fds_nodup holds)).2
    have symmetric : Std.Symm (Function.onFun List.Disjoint Child.fds) :=
      ⟨fun _ _ disjoint => List.Disjoint.symm disjoint⟩
    have disjoint := apart.forall isOther isForked different
    have sameFd : other.parentToChildWriteFd = child.parentToChildWriteFd :=
      of_decide_eq_true same
    have isOthers : child.parentToChildWriteFd ∈ other.fds := sameFd ▸ List.mem_cons_self
    exact disjoint isOthers List.mem_cons_self
  rw [pipeOf, found]
  rfl

def reached (delivery : Delivery) (outcome : WriteOutcome) (outbound : SocketDelivery) :
    SocketDelivery :=
  match outcome with
  | .wrote count =>
      if 0 < count then (outbound.after (.write (delivery.bytes.take count))).after .kill
      else outbound
  | .refused | .failed => outbound

@[simp] theorem system_deliver (exchange : Exchange) (delivery : Delivery)
    (outcome : WriteOutcome) :
    (exchange.deliver delivery outcome).system = exchange.system := by
  cases outcome with
  | wrote count =>
      simp only [deliver, writeTo]
      split_ifs
      · cases pipeOf _ delivery.fd <;> rfl
      · rfl
  | refused | failed => rfl

theorem deliver_eq {exchange : Exchange} {delivery : Delivery}
    (leads : pipeOf exchange.system.server delivery.fd = some delivery.pid)
    (outcome : WriteOutcome) :
    exchange.deliver delivery outcome =
      { system := exchange.system
        outbound := Function.update exchange.outbound delivery.pid
          (reached delivery outcome (exchange.outbound delivery.pid))
        addressed := Function.update exchange.addressed delivery.pid
          (exchange.addressed delivery.pid ++ [delivery.bytes]) } := by
  cases outcome with
  | wrote count =>
      have same : (exchange.address delivery).system = exchange.system := rfl
      by_cases positive : 0 < count
      · simp only [deliver, reached, if_pos positive, writeTo, same, leads]
        simp only [update, address, Function.update_self, Function.update_idem]
      · simp only [deliver, reached, if_neg positive, Function.update_eq_self]
        rfl
  | refused | failed =>
      simp only [deliver, reached, Function.update_eq_self]
      rfl

@[simp] theorem system_deliverAll (exchange : Exchange) (writes : List (Delivery × WriteOutcome)) :
    (exchange.deliverAll writes).system = exchange.system := by
  induction writes generalizing exchange with
  | nil => rfl
  | cons write rest induction => rw [deliverAll, induction, system_deliver]

theorem leads_of_read {before : Finset Fd} {system following : System} {index count : Nat}
    (holds : system.server.RegistryHolds before)
    (step : system.next (.read index count) = some following) :
    ∀ delivery ∈ deliveries system index count,
      pipeOf following.server delivery.fd = some delivery.pid := by
  simp only [System.next, System.read] at step
  cases here : system.server.parent.clients[index]? with
  | none => simp [here] at step
  | some child =>
      simp only [here] at step
      rcases Option.map_eq_some_iff.mp step with ⟨⟨server, written⟩, done, rfl⟩
      rcases Server.scanRead_ok done with ⟨_, _, _, same⟩
      rcases Server.addressed_of_scanRead holds done with ⟨sender, _, addressed⟩
      intro delivery member
      simp only [deliveries, here, done] at member
      rcases addressed delivery member with ⟨client, meant⟩
      rcases meant.unreaped with ⟨receiver, isForked, samePid, sameFd⟩
      have leads := pipeOf_eq holds isForked
      rw [samePid, sameFd] at leads
      rw [← leads]
      dsimp only at same ⊢
      rw [same]
      rfl

/-! ## What every interleaving keeps -/

/-- A law on what is on the way to a client and what was addressed to it, for runs whose
writes come to what `whole` allows and whose children do what `own` allows. -/
structure Kept (law : SocketDelivery → List Bytes → Prop)
    (whole : Delivery → WriteOutcome → Prop) (own : SocketDelivery → DeliveryEvent → Prop) :
    Prop where
  start : law .start []
  own : ∀ outbound addressed event, law outbound addressed → own outbound event →
    event.isOwn = true → outbound.Enabled event → law (outbound.after event) addressed
  reached : ∀ outbound addressed delivery outcome, law outbound addressed →
    delivery.MayCome outcome → whole delivery outcome →
      law (reached delivery outcome outbound) (addressed ++ [delivery.bytes])

def Everywhere (law : SocketDelivery → List Bytes → Prop) (exchange : Exchange) : Prop :=
  ∀ pid, law (exchange.outbound pid) (exchange.addressed pid)

def Allows (whole : Delivery → WriteOutcome → Prop)
    (own : SocketDelivery → DeliveryEvent → Prop) (exchange : Exchange) : ExchangeEvent → Prop
  | .read index count outcomes =>
      ∀ write ∈ (deliveries exchange.system index count).zip outcomes, whole write.1 write.2
  | .child pid event => own (exchange.outbound pid) event
  | .accept _ | .exit _ | .clean _ | .send _ _ => True

section Kept

variable {law : SocketDelivery → List Bytes → Prop} {whole : Delivery → WriteOutcome → Prop}
  {own : SocketDelivery → DeliveryEvent → Prop}

theorem Everywhere.update {exchange following : Exchange} {pid : Pid} {outbound : SocketDelivery}
    {addressed : List Bytes} (everywhere : Everywhere law exchange)
    (sameOutbound : following.outbound = Function.update exchange.outbound pid outbound)
    (sameAddressed : following.addressed = Function.update exchange.addressed pid addressed)
    (here : law outbound addressed) : Everywhere law following := by
  intro other
  rw [sameOutbound, sameAddressed]
  by_cases same : other = pid
  · rw [same, Function.update_self, Function.update_self]
    exact here
  · rw [Function.update_of_ne same, Function.update_of_ne same]
    exact everywhere other

theorem Kept.deliverAll (kept : Kept law whole own) {writes : List (Delivery × WriteOutcome)}
    {exchange : Exchange} (everywhere : Everywhere law exchange)
    (leads : ∀ write ∈ writes,
      pipeOf exchange.system.server write.1.fd = some write.1.pid)
    (mayCome : ∀ write ∈ writes, write.1.MayCome write.2 ∧ whole write.1 write.2) :
    Everywhere law (exchange.deliverAll writes) := by
  induction writes generalizing exchange with
  | nil => exact everywhere
  | cons write rest induction =>
      rw [Exchange.deliverAll]
      have first := leads write List.mem_cons_self
      have comes := mayCome write List.mem_cons_self
      apply induction
      · rw [deliver_eq first]
        apply everywhere.update rfl rfl
        exact kept.reached _ _ _ _ (everywhere write.1.pid) comes.1 comes.2
      · rw [system_deliver]
        exact fun other member => leads other (List.mem_cons_of_mem _ member)
      · exact fun other member => mayCome other (List.mem_cons_of_mem _ member)

theorem Kept.next {before : Finset Fd} (kept : Kept law whole own) {exchange following : Exchange}
    {event : ExchangeEvent} (sound : System.Sound before exchange.system)
    (everywhere : Everywhere law exchange) (allows : exchange.Allows whole own event)
    (step : exchange.next event = some following) :
    System.Sound before following.system ∧ Everywhere law following := by
  cases event with
  | accept attempt =>
      rcases Option.map_eq_some_iff.mp step with ⟨system, taken, rfl⟩
      have later := System.next_sound sound taken
      rw [forked]
      cases attempt.fork with
      | none => exact ⟨later, everywhere⟩
      | some pid =>
          dsimp only
          by_cases refuses : exchange.system.server.Refuses attempt
          · rw [if_pos refuses]
            exact ⟨later, everywhere⟩
          · rw [if_neg refuses]
            exact ⟨later, everywhere.update rfl rfl kept.start⟩
  | exit pid =>
      rcases Option.map_eq_some_iff.mp step with ⟨system, taken, rfl⟩
      exact ⟨System.next_sound sound taken, everywhere⟩
  | clean reaped =>
      rcases Option.map_eq_some_iff.mp step with ⟨system, taken, rfl⟩
      exact ⟨System.next_sound sound taken, everywhere⟩
  | send pid received =>
      rcases Option.map_eq_some_iff.mp step with ⟨system, taken, rfl⟩
      exact ⟨System.next_sound sound taken, everywhere⟩
  | read index count outcomes =>
      simp only [Exchange.next] at step
      split_ifs at step with mayCome
      rcases Option.map_eq_some_iff.mp step with ⟨system, taken, rfl⟩
      refine ⟨?_, ?_⟩
      · rw [system_deliverAll]
        exact System.next_sound sound taken
      · have leads := leads_of_read sound.registry taken
        rcases List.forall₂_iff_zip.mp mayCome with ⟨_, comes⟩
        have here : Everywhere law { exchange with system } := everywhere
        apply kept.deliverAll here
        · exact fun write member => leads write.1 (List.of_mem_zip member).1
        · exact fun write member => ⟨comes member, allows write member⟩
  | child pid event =>
      simp only [Exchange.next] at step
      split_ifs at step with enabled
      cases step
      rcases enabled with ⟨isOwn, _, _, enabled⟩
      have here := kept.own _ _ event (everywhere pid) allows isOwn enabled
      refine ⟨sound, everywhere.update rfl ?_ here⟩
      exact (Function.update_eq_self pid exchange.addressed).symm

theorem Kept.run {buffer : MesgBuffer} {before : Finset Fd} {others : Finset Pid}
    {events : List ExchangeEvent} {exchange : Exchange} (kept : Kept law whole own)
    (steps : machine.StepsSatisfy (Allows whole own) (boot buffer before others) events)
    (reached : machine.run (boot buffer before others) events = some exchange) :
    Everywhere law exchange := by
  have initially : System.Sound before (boot buffer before others).system ∧
      Everywhere law (boot buffer before others) :=
    ⟨System.sound_boot buffer before others, fun _ => kept.start⟩
  have preserved : ∀ exchange event following,
      System.Sound before exchange.system ∧ Everywhere law exchange →
      exchange.Allows whole own event →
      machine.next exchange event = some following →
        System.Sound before following.system ∧ Everywhere law following :=
    fun _ _ _ holds allows step => kept.next holds.1 holds.2 allows step
  exact (Machine.run_invariant_of_steps preserved initially steps reached).2

end Kept

/-! ## The stream of a client -/

/-- What the client has, its child holds and its pipe carries, in this order. -/
def stream (outbound : SocketDelivery) : Bytes :=
  outbound.socket ++ outbound.position.held ++ outbound.parentPfd.unread

structure Ordered (outbound : SocketDelivery) (addressed : List Bytes) : Prop where
  sends : outbound.SendsInOrder
  written : outbound.parentPfd.written.flatten.Sublist addressed.flatten

structure Complete (outbound : SocketDelivery) (addressed : List Bytes) : Prop where
  losesNothing : outbound.LosesNothing
  written : outbound.parentPfd.written.flatten = addressed.flatten

theorem delivered_append_unread (pipe : Pipe UInt8) :
    pipe.delivered ++ pipe.unread = pipe.written.flatten := List.take_append_drop ..

theorem Ordered.stream {outbound : SocketDelivery} {addressed : List Bytes}
    (ordered : Ordered outbound addressed) : (stream outbound).Sublist addressed.flatten := by
  refine List.Sublist.trans ?_ ordered.written
  rw [Exchange.stream, ← delivered_append_unread]
  exact List.Sublist.append_right ordered.sends _

theorem Complete.stream {outbound : SocketDelivery} {addressed : List Bytes}
    (complete : Complete outbound addressed) (going : outbound.position ≠ .ended) :
    stream outbound = addressed.flatten := by
  rw [Exchange.stream, complete.losesNothing.complete going, delivered_append_unread,
    complete.written]

theorem Complete.socket {outbound : SocketDelivery} {addressed : List Bytes}
    (complete : Complete outbound addressed) : outbound.socket <+: addressed.flatten := by
  rw [← complete.written, ← delivered_append_unread]
  exact complete.losesNothing.inOrder.trans (List.prefix_append _ _)

theorem written_after {outbound : SocketDelivery} {event : DeliveryEvent}
    (isOwn : event.isOwn = true) :
    (outbound.after event).parentPfd.written = outbound.parentPfd.written := by
  cases event with
  | write mesg => cases isOwn
  | kill => cases isOwn
  | testSigusr | clearSigusr | read count | readNothing | readEnd | serve goesOn => rfl
  | forward outcome => cases outcome <;> rfl

theorem written_reached (delivery : Delivery) (outcome : WriteOutcome)
    (outbound : SocketDelivery) :
    (Exchange.reached delivery outcome outbound).parentPfd.written.flatten =
      outbound.parentPfd.written.flatten ++
        match outcome with
        | .wrote count => delivery.bytes.take count
        | .refused | .failed => [] := by
  cases outcome with
  | wrote count =>
      simp only [Exchange.reached]
      by_cases positive : 0 < count
      · rw [if_pos positive]
        simp [SocketDelivery.after, Pipe.write]
      · obtain rfl : count = 0 := by omega
        simp
  | refused | failed => simp [Exchange.reached]

theorem enabled_write {mesg : Bytes} {outbound : SocketDelivery} (nonempty : mesg ≠ []) :
    outbound.Enabled (.write mesg) := nonempty

theorem enabled_kill (outbound : SocketDelivery) : outbound.Enabled .kill := trivial

theorem take_ne_nil {delivery : Delivery} {count : Nat} (positive : 0 < count)
    (bound : count ≤ delivery.bytes.length) : delivery.bytes.take count ≠ [] := by
  intro empty
  have length := congrArg List.length empty
  rw [List.length_take, List.length_nil] at length
  omega

theorem kept_ordered : Kept Ordered (fun _ _ => True) (fun _ _ => True) where
  start := ⟨List.Sublist.refl [], List.Sublist.refl []⟩
  own := by
    intro outbound addressed event ordered _ isOwn enabled
    refine ⟨ordered.sends.after enabled, ?_⟩
    rw [written_after isOwn]
    exact ordered.written
  reached := by
    intro outbound addressed delivery outcome ordered mayCome _
    constructor
    · cases outcome with
      | wrote count =>
          simp only [Exchange.reached]
          by_cases positive : 0 < count
          · rw [if_pos positive]
            have written := ordered.sends.after (enabled_write (take_ne_nil positive mayCome))
            exact written.after trivial
          · rw [if_neg positive]
            exact ordered.sends
      | refused | failed => exact ordered.sends
    · rw [written_reached, List.flatten_append, List.flatten_singleton]
      apply ordered.written.append
      cases outcome with
      | wrote count => exact List.take_sublist _ _
      | refused | failed => exact List.nil_sublist _

def WritesWhole (delivery : Delivery) (outcome : WriteOutcome) : Prop :=
  outcome = .wrote delivery.bytes.length

theorem kept_complete : Kept Complete WritesWhole SocketDelivery.TakesAll where
  start := ⟨⟨List.prefix_rfl, fun _ => rfl⟩, rfl⟩
  own := by
    intro outbound addressed event complete takes isOwn enabled
    refine ⟨(SocketDelivery.losesNothing_after_iff complete.losesNothing enabled).mpr takes, ?_⟩
    rw [written_after isOwn]
    exact complete.written
  reached := by
    intro outbound addressed delivery outcome complete mayCome whole
    subst whole
    constructor
    · simp only [Exchange.reached]
      by_cases positive : 0 < delivery.bytes.length
      · rw [if_pos positive]
        have written := (SocketDelivery.losesNothing_after_iff complete.losesNothing
          (enabled_write (take_ne_nil positive mayCome))).mpr trivial
        exact (SocketDelivery.losesNothing_after_iff written (enabled_kill _)).mpr trivial
      · rw [if_neg positive]
        exact complete.losesNothing
    · rw [written_reached, List.flatten_append, List.flatten_singleton, complete.written]
      simp only [List.take_length]

/-- In every interleaving of the parent, the children and their clients, what is on the
way to a client is a subsequence of what the dispatch has addressed to it since it was
forked. When every write takes all that it is given, it is the whole of it, and the
socket has a prefix. -/
theorem relayed_run {buffer : MesgBuffer} {before : Finset Fd} {others : Finset Pid}
    {events : List ExchangeEvent} {exchange : Exchange}
    (reached : machine.run (boot buffer before others) events = some exchange) (pid : Pid) :
    (stream (exchange.outbound pid)).Sublist (exchange.addressed pid).flatten ∧
      (machine.StepsSatisfy (Allows WritesWhole SocketDelivery.TakesAll)
          (boot buffer before others) events →
        ((exchange.outbound pid).position ≠ .ended →
          stream (exchange.outbound pid) = (exchange.addressed pid).flatten) ∧
        (exchange.outbound pid).socket <+: (exchange.addressed pid).flatten) := by
  have allowsAll : ∀ (exchange : Exchange) event,
      exchange.Allows (fun _ _ => True) (fun _ _ => True) event := by
    intro exchange event
    cases event with
    | read index count outcomes => exact fun _ _ => trivial
    | accept _ | exit _ | clean _ | send _ _ | child _ _ => trivial
  have always : machine.StepsSatisfy (Allows (fun _ _ => True) fun _ _ => True)
      (boot buffer before others) events :=
    Machine.stepsSatisfy_of_forall allowsAll _ events
  refine ⟨(kept_ordered.run always reached pid).stream, fun steps => ?_⟩
  have complete := kept_complete.run steps reached pid
  exact ⟨complete.stream, complete.socket⟩

instance (outbound : SocketDelivery) : ∀ event, Decidable (outbound.TakesAll event)
  | .forward (.wrote count) => Nat.decEq count outbound.position.held.length
  | .forward .refused => .isFalse id
  | .forward .failed | .write _ | .kill | .testSigusr | .clearSigusr | .read _ | .readNothing |
      .readEnd | .serve _ => .isTrue trivial

instance (exchange : Exchange) (event : ExchangeEvent) :
    Decidable (exchange.Allows WritesWhole SocketDelivery.TakesAll event) := by
  cases event <;> unfold Allows WritesWhole <;> infer_instance

def echo : List ExchangeEvent :=
  [.accept ⟨4, [], some (5, 6), some (7, 8), true, some 100⟩,
    .send 100 (ascii ['a', 'n', 'n']), .read 0 8191 [],
    .send 100 (ascii ['/', 'j', 'o', 'i', 'n', ' ', 'x']), .read 0 8191 [],
    .send 100 (ascii ['h', 'i']), .read 0 8191 [.wrote 8], .child 100 .testSigusr,
    .child 100 .clearSigusr, .child 100 (.read 8), .child 100 (.forward (.wrote 8))]

theorem relayed_run_echo :
    ∃ exchange, machine.run (boot .zeroed {0, 1, 2, 3} ∅) echo = some exchange ∧
      (exchange.outbound 100).socket = chatLine (ascii ['a', 'n', 'n']) (ascii ['h', 'i']) ∧
      (exchange.outbound 100).socket <+: (exchange.addressed 100).flatten := by
  have runs : (machine.run (boot .zeroed {0, 1, 2, 3} ∅) echo).isSome := rfl
  have steps : machine.StepsSatisfy (Allows WritesWhole SocketDelivery.TakesAll)
    (boot .zeroed {0, 1, 2, 3} ∅) echo := by decide +kernel
  have reached := (Option.some_get runs).symm
  exact ⟨_, reached, rfl, ((relayed_run reached 100).2 steps).2⟩

end Exchange

end RaspberryPi.ChatServer
