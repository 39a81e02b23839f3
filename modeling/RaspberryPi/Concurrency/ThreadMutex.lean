import Mathlib.Data.List.Permutation
import RaspberryPi.Foundation.CriticalSection
import RaspberryPi.Foundation.Decimal

/-! # Two threads and a mutex

`thread_mutex.c`: one thread counts `g_var` up, the other counts it down, and both
print it before and after. An increment is a load and a store. -/

namespace RaspberryPi.ThreadMutex

open CString

inductive Thread
  | inc
  | dec
deriving DecidableEq

instance : Fintype Thread where
  elems := {.inc, .dec}
  complete := by
    intro thread
    cases thread
    · exact Finset.mem_insert_self _ _
    · exact Finset.mem_insert_of_mem (Finset.mem_singleton_self _)

structure Process where
  gVar : Int
  register : Thread → Int
  /-- The buffer of `stdout`. -/
  buffer : Bytes
  written : Bytes

def formatInt (value : Int) : Bytes :=
  if value < 0 then ascii ['-'] ++ decimal value.natAbs else decimal value.natAbs

def printf (label tail : List Char) (process : Process) : Process :=
  { process with
    buffer := process.buffer ++ ascii label ++ formatInt process.gVar ++ ascii tail }

def fflush (process : Process) : Process :=
  { process with buffer := [], written := process.written ++ process.buffer }

def load (thread : Thread) (process : Process) : Process :=
  { process with register := fun other => if other = thread then process.gVar
      else process.register other }

/-- The register goes back with `change` added to it. -/
def store (thread : Thread) (change : Int) (process : Process) : Process :=
  { process with gVar := process.register thread + change }

def before : List Char := [' ', '<', ' ', 'b', 'e', 'f', 'o', 'r', 'e', '\n']

def after : List Char := [' ', '>', ' ', 'A', 'f', 't', 'e', 'r', ' ', '\n']

def incFunction : List (Process → Process) :=
  [printf ['I', 'N', 'C', ' ', ':', ' '] before, fflush, load .inc, store .inc 1,
    printf ['I', 'N', 'C', ' ', ':', ' '] after, fflush]

def decFunction : List (Process → Process) :=
  [printf ['D', 'E', 'C', ' ', ':', ' '] before, fflush, load .dec, store .dec (-1),
    printf ['D', 'E', 'C', ' ', ':', ' '] after, fflush]

def body : Thread → List (Process → Process)
  | .inc => incFunction
  | .dec => decFunction

def boot (register : Thread → Int) : Process := ⟨1, register, [], []⟩

def line (label : List Char) (value : Nat) (tail : List Char) : Bytes :=
  ascii label ++ decimal value ++ ascii tail

/-- The two lines of a thread that finds `value` and leaves `changed`. -/
def lines (label : List Char) (value changed : Nat) : Bytes :=
  line label value before ++ line label changed after

def incFirst : Bytes :=
  lines ['I', 'N', 'C', ' ', ':', ' '] 1 2 ++ lines ['D', 'E', 'C', ' ', ':', ' '] 2 1

def decFirst : Bytes :=
  lines ['D', 'E', 'C', ' ', ':', ' '] 1 0 ++ lines ['I', 'N', 'C', ' ', ':', ' '] 0 1

theorem order_of_both {order : List Thread} (once : order.Nodup)
    (both : ∀ thread, thread ∈ order) : order = [.inc, .dec] ∨ order = [.dec, .inc] := by
  rw [← List.perm_pair, List.perm_ext_iff_of_nodup once (by decide)]
  intro thread
  refine iff_of_true (both thread) ?_
  cases thread
  · exact List.mem_cons_self
  · exact List.mem_cons_of_mem _ (List.mem_singleton_self _)

theorem serial_inc_dec (register : Thread → Int) :
    (Threads.serial body [.inc, .dec] (boot register)).gVar = 1 ∧
      (Threads.serial body [.inc, .dec] (boot register)).written = incFirst :=
  ⟨rfl, rfl⟩

theorem serial_dec_inc (register : Thread → Int) :
    (Threads.serial body [.dec, .inc] (boot register)).gVar = 1 ∧
      (Threads.serial body [.dec, .inc] (boot register)).written = decFirst :=
  ⟨rfl, rfl⟩

/-- In whatever order the two threads go on, they get to their end in a bounded number of
steps; then `g_var` is what it was, and their lines are not mixed. -/
theorem mutex_run (register : Thread → Int) {events : List (ThreadEvent Thread)}
    {threads : Threads Thread Process}
    (reached : (Threads.machine body).run (Threads.start (boot register)) events =
      some threads) :
    (threads.AllDone → threads.shared.gVar = 1 ∧
      (threads.shared.written = incFirst ∨ threads.shared.written = decFirst)) ∧
    ∃ bound,
      (∀ more final, (Threads.machine body).run threads more = some final →
        more.length ≤ bound ∧ ((∀ event, final.next body event = none) → final.AllDone)) ∧
      ∃ more final, (Threads.machine body).run threads more = some final ∧ final.AllDone := by
  have serialized := Threads.serialized_of_run reached
  have winds : (Threads.machine body).WindsDown (Threads.Serialized body (boot register))
    (fun _ _ => True) (Threads.work body) Threads.AllDone := Threads.windsDown (boot register)
  refine ⟨fun done => ?_, Threads.work body threads, ?_, ?_⟩
  · rcases serialized.shared_eq done with ⟨shared, both⟩
    rw [shared]
    rcases order_of_both serialized.once both with order | order
    · rw [order]
      exact ⟨(serial_inc_dec register).1, Or.inl (serial_inc_dec register).2⟩
    · rw [order]
      exact ⟨(serial_dec_inc register).1, Or.inr (serial_dec_inc register).2⟩
  · intro more final run
    have due : (Threads.machine body).StepsSatisfy (fun _ _ => True) threads more :=
      Machine.stepsSatisfy_of_forall (fun _ _ => trivial) threads more
    rcases winds.length_add_work_le serialized due run with ⟨ends, less⟩
    exact ⟨by omega, fun stuck => winds.settled_of_stuck ends fun event _ => stuck event⟩
  · rcases winds.exists_settled serialized with ⟨more, final, _, run, done⟩
    exact ⟨more, final, run, done⟩

theorem mutex_run_decFirst :
    ∃ threads more final,
      (Threads.machine body).run (Threads.start (boot fun _ => 7))
        [.lock .dec, .step .dec, .step .dec] = some threads ∧
      (Threads.machine body).run threads more = some final ∧ final.AllDone := by
  have reached : (Threads.machine body).run (Threads.start (boot fun _ => 7))
    [.lock .dec, .step .dec, .step .dec] = some _ := rfl
  rcases mutex_run (fun _ => 7) reached with ⟨_, _, _, more, final, run, done⟩
  exact ⟨_, more, final, reached, run, done⟩

end RaspberryPi.ThreadMutex
