import Mathlib.Algebra.GroupWithZero.Nat
import RaspberryPi.Wav.Playback

/-! # What `wavplay.c` plays

In every round `snd_pcm_writei` takes a period from the buffer, however much `read` has
put there. -/

namespace RaspberryPi.Wav

structure Round where
  read : Bytes
  handed : Bytes

structure Output where
  memory : Nat → UInt8
  file : Bytes
  rounds : List Round

def overwrite (memory : Nat → UInt8) (chunk : Bytes) (index : Nat) : UInt8 :=
  chunk.getD index (memory index)

namespace Output

/-- A round in which `read` returns `count`, and `snd_pcm_writei` takes all frames. -/
def round (period : Nat) (output : Output) (count : Int) : Output :=
  if count ≤ 0 then output
  else
    let chunk := output.file.take count.toNat
    let memory := overwrite output.memory chunk
    { memory := memory
      file := output.file.drop count.toNat
      rounds := output.rounds ++ [⟨chunk, (List.range period).map memory⟩] }

/-- Nothing is handed over that has not been read in the same round, and all of it
together is the data. -/
def Plays (output : Output) (data : Bytes) : Prop :=
  (∀ round ∈ output.rounds, round.handed = round.read) ∧
    (output.rounds.map Round.handed).flatten = data

end Output

namespace Player

variable (player : Player)

/-- What `read` may return. `malloc` fails for a negative size, and `read` without a
buffer. -/
def MayRead (state : Playback) (count : Int) : Prop :=
  state.MayReturn player.abi count ∧ (player.bufSize < 0 → count ≤ 0)

instance (state : Playback) (count : Int) : Decidable (player.MayRead state count) :=
  inferInstanceAs (Decidable (_ ∧ (_ → _)))

def reading : Machine Playback Int := .guarded player.MayRead (Playback.round player.abi)

def playing : Machine (Playback × Output) Int :=
  player.reading.observed (Output.round player.period)

def atData (memory : Nat → UInt8) (file : Bytes) : Playback × Output :=
  (player.start file.length, ⟨memory, file, []⟩)

def WholeRead (state : Playback) (count : Int) : Prop :=
  0 < min (player.abi.toSize state.request) state.left →
    count = (min (player.abi.toSize state.request) state.left : Nat)

instance (state : Playback) (count : Int) : Decidable (player.WholeRead state count) :=
  inferInstanceAs (Decidable (_ → _))

end Player

def total (counts : List Int) : Nat := (counts.map Int.toNat).sum

@[simp] theorem total_nil : total [] = 0 := rfl

theorem total_cons (count : Int) (counts : List Int) :
    total (count :: counts) = count.toNat + total counts := rfl

def ByPeriods (period : Nat) (counts : List Int) : Prop :=
  ∀ count ∈ counts, 0 < count → count = period

/-! ## Rounds of the output -/

theorem map_overwrite (memory : Nat → UInt8) (chunk : Bytes) :
    (List.range chunk.length).map (overwrite memory chunk) = chunk := by
  apply List.ext_getElem
  · simp
  · intro index _ inChunk
    simp [overwrite, inChunk]

structure Logged (period : Nat) (file : Bytes) (counts : List Int) (rounds : List Round) :
    Prop where
  reads : (rounds.map Round.read).flatten = file.take (total counts)
  lengths : ∀ length : Nat,
    (∃ round ∈ rounds, round.read.length = length) ↔ 0 < length ∧ (length : Int) ∈ counts
  handed : ∀ round ∈ rounds, round.handed.length = period
  fresh : ∀ round ∈ rounds, round.read.length = period → round.handed = round.read

namespace Logged

variable {period : Nat} {file : Bytes} {count : Int} {counts : List Int} {rounds : List Round}

theorem nil : Logged period file [] [] := by
  constructor
  all_goals simp [total]

theorem cons_nothing (logged : Logged period file counts rounds) (nothing : count ≤ 0) :
    Logged period file (count :: counts) rounds := by
  have sum : total (count :: counts) = total counts := by
    simp [total, Int.toNat_of_nonpos nothing]
  refine ⟨sum ▸ logged.reads, fun length => ?_, logged.handed, logged.fresh⟩
  rw [logged.lengths, List.mem_cons]
  refine and_congr_right fun positive => ?_
  have other : (length : Int) ≠ count := by omega
  exact (or_iff_right other).symm

theorem cons (memory : Nat → UInt8)
    (logged : Logged period (file.drop count.toNat) counts rounds) (some_ : ¬count ≤ 0)
    (enough : count.toNat ≤ file.length) :
    Logged period file (count :: counts)
      (⟨file.take count.toNat,
        (List.range period).map (overwrite memory (file.take count.toNat))⟩ :: rounds) := by
  have length : (file.take count.toNat).length = count.toNat := List.length_take_of_le enough
  constructor
  · have sum := total_cons count counts
    rw [List.map_cons, List.flatten_cons, logged.reads, sum, List.take_add]
  · intro other
    rw [List.exists_mem_cons_iff, logged.lengths, List.mem_cons, length]
    constructor
    · rintro (rfl | later)
      · exact ⟨by omega, Or.inl (by omega)⟩
      · exact ⟨later.1, Or.inr later.2⟩
    · rintro ⟨positive, rfl | later⟩
      · exact Or.inl (Int.toNat_natCast other)
      · exact Or.inr ⟨positive, later⟩
  · rw [List.forall_mem_cons]
    exact ⟨by simp, logged.handed⟩
  · rw [List.forall_mem_cons]
    refine ⟨fun same => ?_, logged.fresh⟩
    simp only at same ⊢
    rw [← same, map_overwrite]

end Logged

theorem Output.logged (period : Nat) {counts : List Int} {output : Output}
    (enough : total counts ≤ output.file.length) :
    ∃ rounds, (counts.foldl (Output.round period) output).rounds = output.rounds ++ rounds ∧
      Logged period output.file counts rounds := by
  induction counts generalizing output with
  | nil => exact ⟨[], (List.append_nil _).symm, .nil⟩
  | cons count counts induction =>
      have sum := total_cons count counts
      rw [List.foldl_cons]
      by_cases nothing : count ≤ 0
      · have same : output.round period count = output := if_pos nothing
        have enough : total counts ≤ output.file.length := by omega
        rcases induction enough with ⟨rounds, shown, logged⟩
        exact ⟨rounds, same.symm ▸ shown, logged.cons_nothing nothing⟩
      · have after : output.round period count = _ := if_neg nothing
        have left : total counts ≤ (output.round period count).file.length := by
          rw [after]
          simp only [List.length_drop]
          omega
        rcases induction left with ⟨rounds, shown, logged⟩
        rw [after] at shown logged
        refine ⟨_, ?_, logged.cons output.memory nothing (by omega)⟩
        rw [after, shown, List.append_assoc, List.singleton_append]

theorem Output.plays_iff_byPeriods {period : Nat} {memory : Nat → UInt8} {data trailing : Bytes}
    {counts : List Int} (enough : total counts ≤ (data ++ trailing).length) :
    (counts.foldl (Output.round period) ⟨memory, data ++ trailing, []⟩).Plays data ↔
      ByPeriods period counts ∧ total counts = data.length := by
  have logs := @Output.logged period counts ⟨memory, data ++ trailing, []⟩ enough
  rcases logs with ⟨rounds, shown, logged⟩
  rw [List.nil_append] at shown
  rw [Output.Plays, shown]
  constructor
  · rintro ⟨same, all⟩
    refine ⟨fun count member positive => ?_, ?_⟩
    · obtain ⟨length, rfl⟩ := Int.eq_ofNat_of_zero_le (Int.le_of_lt positive)
      rcases (logged.lengths length).mpr ⟨Int.natCast_pos.mp positive, member⟩ with
        ⟨round, inRounds, rfl⟩
      rw [← same round inRounds, logged.handed round inRounds]
    · rw [List.map_congr_left same, logged.reads] at all
      rw [← all, List.length_take_of_le enough]
  · rintro ⟨periods, all⟩
    have same : ∀ round ∈ rounds, round.handed = round.read := by
      intro round inRounds
      have read := (logged.lengths _).mp ⟨round, inRounds, rfl⟩
      have length := periods _ read.2 (Int.natCast_pos.mpr read.1)
      exact logged.fresh round inRounds (Int.natCast_inj.mp length)
    refine ⟨same, ?_⟩
    rw [List.map_congr_left same, logged.reads, all]
    exact List.take_left

/-! ## Runs of the loop -/

section

variable {player : Player} {state final : Playback} {counts : List Int}

theorem machine_of_reading (reached : player.reading.run state counts = some final) :
    (Playback.machine player.abi).run state counts = some final := by
  refine Machine.run_of_next (fun state count following step => ?_) reached
  rcases Machine.guarded_next_eq_some.mp step with ⟨may, after⟩
  exact Machine.guarded_next_eq_some.mpr ⟨may.1, after⟩

theorem consumed_of_run (reached : player.reading.run state counts = some final) :
    final.consumed = state.consumed + total counts ∧
      final.left + total counts = state.left := by
  induction counts generalizing state with
  | nil =>
      cases reached
      simp [total]
  | cons count counts induction =>
      rcases Machine.run_cons_eq_some.mp reached with ⟨following, step, rest⟩
      rcases Machine.guarded_next_eq_some.mp step with ⟨⟨may, _⟩, rfl⟩
      have inFile := may.2.2.1
      have later := induction rest
      have sum := total_cons count counts
      by_cases nothing : count ≤ 0
      · rw [Playback.round_of_nonpos nothing] at later
        simp only at later
        omega
      · rw [Playback.round_of_pos nothing] at later
        simp only at later
        omega

theorem nil_of_stopped (stopped : state.running = false)
    (reached : player.reading.run state counts = some final) : counts = [] := by
  cases counts with
  | nil => rfl
  | cons =>
      rcases Machine.run_cons_eq_some.mp reached with ⟨_, step, _⟩
      have running := (Machine.guarded_next_eq_some.mp step).1.1.1
      exact absurd (running.symm.trans stopped) Bool.noConfusion

theorem stopped_of_nonpos {count : Int} (nothing : count ≤ 0) :
    (state.round player.abi count).running = false := by
  rw [Playback.round_of_nonpos nothing]

theorem total_eq_zero (nothing : ∀ count, player.MayRead state count → count ≤ 0)
    (reached : player.reading.run state counts = some final) : total counts = 0 := by
  cases counts with
  | nil => rfl
  | cons count counts =>
      rcases Machine.run_cons_eq_some.mp reached with ⟨following, step, rest⟩
      rcases Machine.guarded_next_eq_some.mp step with ⟨may, rfl⟩
      have none_ := nothing count may
      rw [nil_of_stopped (stopped_of_nonpos none_) rest]
      simp [total, Int.toNat_of_nonpos none_]

theorem nonpos_of_request {count : Int} (asked : state.request = 0)
    (may : player.MayRead state count) : count ≤ 0 := by
  have most := may.1.2.2.2
  rw [asked] at most
  simpa [Abi.toSize] using most

theorem total_of_request (asked : state.request = 0)
    (reached : player.reading.run state counts = some final) : total counts = 0 :=
  total_eq_zero (fun _ may => nonpos_of_request asked may) reached

theorem total_of_bufSize (negative : player.bufSize < 0)
    (reached : player.reading.run state counts = some final) : total counts = 0 :=
  total_eq_zero (fun _ may => may.2 negative) reached

theorem first_of_run (reached : player.reading.run state counts = some final)
    (some_ : total counts ≠ 0) :
    ∃ count later, counts = count :: later ∧ 0 < count ∧ player.MayRead state count ∧
      player.reading.run (state.round player.abi count) later = some final := by
  cases counts with
  | nil => exact absurd rfl some_
  | cons count counts =>
      rcases Machine.run_cons_eq_some.mp reached with ⟨following, step, rest⟩
      rcases Machine.guarded_next_eq_some.mp step with ⟨may, rfl⟩
      refine ⟨count, counts, rfl, ?_, may, rest⟩
      by_contra nothing
      have none_ := Int.not_lt.mp nothing
      rw [nil_of_stopped (stopped_of_nonpos none_) rest] at some_
      simp [total, Int.toNat_of_nonpos none_] at some_

end

structure Counting (player : Player) (state : Playback) : Prop where
  nonneg : 0 ≤ state.remain
  length : state.consumed + state.remain = player.dataLen
  inFile : state.remain ≤ state.left
  divides : (player.period : Int) ∣ state.remain
  bufSize : state.bufSize = player.period ∨ state.bufSize = 0 ∧ state.remain = 0

namespace Counting

variable {player : Player} {state final : Playback} {count : Int} {counts : List Int}

theorem request (counting : Counting player state) (small : player.period < 2 ^ 31) :
    state.remain = 0 ∧ state.request = 0 ∨
      0 < player.period ∧ player.period ≤ state.remain ∧ state.request = player.period := by
  have nonneg := counting.nonneg
  rw [Playback.request]
  by_cases nothing : state.remain = 0
  · have lower : 0 ≤ state.bufSize := by
      rcases counting.bufSize with bufSize | bufSize
      · omega
      · omega
    rw [if_neg (by omega), nothing]
    exact Or.inl ⟨rfl, rfl⟩
  · have bufSize : state.bufSize = player.period :=
      counting.bufSize.resolve_right fun both => nothing both.2
    have whole : (player.period : Int) ≤ state.remain := Int.le_of_dvd (by omega) counting.divides
    have positive : player.period ≠ 0 := by
      intro zero
      have divides := counting.divides
      rw [zero] at divides
      exact nothing (Int.zero_dvd.mp divides)
    refine Or.inr ⟨Nat.pos_of_ne_zero positive, whole, ?_⟩
    rw [bufSize]
    split_ifs with more
    · rfl
    · rw [toInt_eq_self (by omega) (by omega)]
      omega

theorem nonpos (counting : Counting player state) (small : player.period < 2 ^ 31)
    (zero : state.remain = 0) (may : player.MayRead state count) : count ≤ 0 := by
  rcases counting.request small with ⟨_, asked⟩ | ⟨positive, whole, _⟩
  · exact nonpos_of_request asked may
  · omega

theorem wholeRead_iff (counting : Counting player state) (small : player.period < 2 ^ 31) :
    player.WholeRead state count ↔ state.remain = 0 ∨ count = player.period := by
  have inFile := counting.inFile
  rw [Player.WholeRead]
  rcases counting.request small with ⟨nothing, asked⟩ | ⟨positive, whole, asked⟩
  · refine iff_of_true (fun some_ => ?_) (Or.inl nothing)
    rw [asked] at some_
    simp [Abi.toSize] at some_
  · have size := @Abi.toSize_eq_self player.abi state.request (by omega) (by omega)
    have most : min (player.abi.toSize state.request) state.left = player.period := by omega
    rw [most, or_iff_right (by omega)]
    exact forall_prop_of_true positive

theorem period (counting : Counting player state) (small : player.period < 2 ^ 31)
    (isLong : player.dataLen < player.abi.longLimit) (more : state.remain ≠ 0) :
    Counting player (state.round player.abi player.period) ∧
      (state.round player.abi player.period).running = true := by
  rcases counting.request small with ⟨remain, _⟩ | ⟨positive, whole, asked⟩
  · exact absurd remain more
  · have length := counting.length
    have inFile := counting.inFile
    have limit := player.abi.longLimit_pos
    have same : player.abi.toLong (state.remain - player.period) =
        state.remain - player.period := player.abi.toLong_eq_self (by omega) (by omega)
    rw [Playback.round_of_pos (by omega), same]
    refine ⟨⟨?_, ?_, ?_, ?_, Or.inl asked⟩, decide_eq_true asked.symm⟩
    · simp only
      omega
    · simp only
      omega
    · simp only
      omega
    · exact Int.dvd_sub counting.divides (Int.dvd_refl _)

theorem start {left : Nat} (small : player.period < 2 ^ 31)
    (isLong : player.dataLen < 2 ^ (player.abi.longBits - 1))
    (divides : player.period ∣ player.dataLen) (inFile : player.dataLen ≤ left) :
    Counting player (player.start left) := by
  have remain : player.remain = player.dataLen := by
    have bounds := player.abi.longLimit_pos
    have limit := player.abi.pow_longBits_sub_one ▸ Int.ofNat_lt.mpr isLong
    exact player.abi.toLong_eq_self (by omega) limit
  have bufSize : player.bufSize = player.period := by
    rw [player.bufSize_eq]
    exact toInt_eq_self (by omega) (by omega)
  constructor
  · simp only [Player.start, remain]
    omega
  · simp only [Player.start, remain]
    omega
  · simp only [Player.start, remain]
    omega
  · simp only [Player.start, remain]
    exact Int.natCast_dvd_natCast.mpr divides
  · simp only [Player.start, bufSize, true_or]

theorem wholeRead_of_run (counting : Counting player state) (small : player.period < 2 ^ 31)
    (isLong : player.dataLen < player.abi.longLimit) (periods : ByPeriods player.period counts)
    (reached : player.reading.run state counts = some final)
    (all : state.consumed + total counts = player.dataLen) :
    player.reading.StepsSatisfy player.WholeRead state counts := by
  induction counts generalizing state with
  | nil => trivial
  | cons count counts induction =>
      have sum := total_cons count counts
      have length := counting.length
      rcases Machine.run_cons_eq_some.mp reached with ⟨following, step, rest⟩
      intro other taken
      obtain rfl := Option.some.inj (step.symm.trans taken)
      rcases Machine.guarded_next_eq_some.mp step with ⟨may, rfl⟩
      by_cases nothing : count ≤ 0
      · obtain rfl := nil_of_stopped (stopped_of_nonpos nothing) rest
        rw [total_nil] at sum
        have remain : state.remain = 0 := by omega
        exact ⟨(counting.wholeRead_iff small).mpr (Or.inl remain), trivial⟩
      · obtain rfl := periods count List.mem_cons_self (Int.not_le.mp nothing)
        have more : state.remain ≠ 0 := fun zero => nothing (counting.nonpos small zero may)
        have round := counting.period small isLong more
        refine ⟨(counting.wholeRead_iff small).mpr (Or.inr rfl), ?_⟩
        refine induction round.1 (fun count member => periods count (List.mem_cons_of_mem _ member))
          rest ?_
        rw [Playback.round_of_pos nothing]
        simp only
        omega

theorem byPeriods_of_run (counting : Counting player state) (small : player.period < 2 ^ 31)
    (isLong : player.dataLen < player.abi.longLimit)
    (whole : player.reading.StepsSatisfy player.WholeRead state counts)
    (running : state.running = true)
    (reached : player.reading.run state counts = some final) (ended : final.running = false) :
    ByPeriods player.period counts ∧ state.consumed + total counts = player.dataLen := by
  induction counts generalizing state with
  | nil =>
      cases reached
      exact absurd (running.symm.trans ended) Bool.noConfusion
  | cons count counts induction =>
      have sum := total_cons count counts
      have length := counting.length
      rcases Machine.run_cons_eq_some.mp reached with ⟨following, step, rest⟩
      have steps := whole following step
      rcases Machine.guarded_next_eq_some.mp step with ⟨may, rfl⟩
      by_cases zero : state.remain = 0
      · have nothing := counting.nonpos small zero may
        obtain rfl := nil_of_stopped (stopped_of_nonpos nothing) rest
        rw [total_nil] at sum
        refine ⟨fun other member positive => ?_, by omega⟩
        obtain rfl := List.mem_singleton.mp member
        exact absurd positive (Int.not_lt.mpr nothing)
      · obtain rfl := ((counting.wholeRead_iff small).mp steps.1).resolve_left zero
        have round := counting.period small isLong zero
        have later := induction round.1 steps.2 round.2 rest
        have some_ : ¬(player.period : Int) ≤ 0 := by
          rcases counting.request small with ⟨remain, _⟩ | ⟨positive, _, _⟩
          · exact absurd remain zero
          · omega
        rw [Playback.round_of_pos some_] at later
        simp only at later
        refine ⟨List.forall_mem_cons.mpr ⟨fun _ => rfl, later.1⟩, ?_⟩
        omega

end Counting

section

variable {player : Player} {final : Playback} {counts : List Int} {left : Nat}

theorem bufSize_nonneg_of_read {count : Int} {state : Playback} (positive : 0 < count)
    (may : player.MayRead state count) : 0 ≤ player.bufSize := by
  by_contra negative
  exact absurd positive (Int.not_lt.mpr (may.2 (Int.not_le.mp negative)))

/-- When as much has been read as the `int` of a negative length, that of the rest is
nothing. -/
theorem request_of_neg (negative : player.remain < 0) (size : 0 ≤ player.bufSize)
    (running : ((player.start left).round player.abi player.period).running = true)
    (positive : 0 < (player.period : Int)) :
    ((player.start left).round player.abi player.period).request = 0 := by
  have asked : (player.start left).request = toInt player.remain :=
    player.request_start negative size
  rw [Playback.round_of_pos (Int.not_le.mpr positive), asked] at running ⊢
  have read : (player.period : Int) = toInt player.remain := of_decide_eq_true running
  have bound : -player.abi.longLimit ≤ player.remain - toInt player.remain :=
    player.abi.sub_toInt_bound (player.abi.toLong_bounds _).1 (by omega)
  have limit := player.abi.longLimit_pos
  have rest : player.abi.toLong (player.remain - player.period) =
      player.remain - toInt player.remain := by
    rw [read]
    exact player.abi.toLong_eq_self bound (by omega)
  have remain : (player.start left).remain = player.remain := by
    simp only [Player.start]
  rw [Playback.request]
  simp only [remain, rest]
  rw [if_neg (by omega), toInt_sub_toInt]

theorem total_ne_of_remain_neg (negative : player.remain < 0)
    (periods : ByPeriods player.period counts)
    (reached : player.reading.run (player.start left) counts = some final) :
    total counts ≠ player.dataLen := by
  intro all
  have length : (2 : Int) ^ 31 ≤ player.dataLen := by
    have isLong := mt player.nonneg_remain_iff.mpr (Int.not_le.mpr negative)
    have power := player.abi.pow_longBits_sub_one
    have limit := player.abi.longLimit_pos
    omega
  rcases first_of_run reached (by omega) with ⟨count, later, rfl, positive, may, rest⟩
  obtain rfl := periods count List.mem_cons_self positive
  have size := bufSize_nonneg_of_read positive may
  have none_ : total later = 0 := by
    by_cases running : ((player.start left).round player.abi player.period).running = true
    · exact total_of_request (request_of_neg negative size running positive) rest
    · rw [nil_of_stopped (Bool.eq_false_iff.mpr running) rest]
      rfl
  have whole : player.dataLen = player.period := by
    have sum := total_cons player.period later
    omega
  have nonneg : 0 ≤ toInt player.remain := by
    rw [player.toInt_remain, whole, ← player.bufSize_eq]
    exact size
  have asked : (player.start left).request = toInt player.remain :=
    player.request_start negative size
  have small := (toInt_bounds player.remain).2
  have most := may.1.2.2.2
  rw [asked, player.abi.toSize_eq_self nonneg small] at most
  omega

theorem byPeriods_of_total (period : Nat) (nothing : total counts = 0) :
    ByPeriods period counts := by
  intro count member positive
  have zero := List.sum_eq_zero_iff_forall_eq_nat.mp nothing _ (List.mem_map_of_mem member)
  omega

theorem dvd_total {period : Nat} (periods : ByPeriods period counts) : period ∣ total counts := by
  induction counts with
  | nil => exact Nat.dvd_zero period
  | cons count counts induction =>
      have sum := total_cons count counts
      have later := induction fun other member => periods other (List.mem_cons_of_mem _ member)
      rw [sum]
      refine Nat.dvd_add ?_ later
      by_cases positive : 0 < count
      · obtain rfl := periods count List.mem_cons_self positive
        exact ⟨1, (Nat.mul_one period).symm⟩
      · rw [Int.toNat_of_nonpos (Int.not_lt.mp positive)]
        exact Nat.dvd_zero period

theorem total_of_empty (empty : player.dataLen = 0)
    (reached : player.reading.run (player.start left) counts = some final) :
    total counts = 0 := by
  by_cases size : 0 ≤ player.bufSize
  · have nonneg := player.nonneg_remain_iff.mpr (empty ▸ Nat.two_pow_pos _)
    have steady := Steady.start (player.fits_iff.mpr ⟨size, Or.inl nonneg⟩) left
    have request := steady.request
    exact total_of_request (by omega) reached
  · exact total_of_bufSize (Int.not_le.mp size) reached

/-- All is read by periods exactly if there is nothing to read, or all that can be read is,
the size of a period is an `int`, the length a `long` and a number of periods. -/
theorem byPeriods_iff (inFile : player.dataLen ≤ left)
    (reached : player.reading.run (player.start left) counts = some final)
    (ended : final.running = false) :
    ByPeriods player.period counts ∧ total counts = player.dataLen ↔
      player.dataLen = 0 ∨ player.period < 2 ^ 31 ∧
        player.dataLen < 2 ^ (player.abi.longBits - 1) ∧ player.period ∣ player.dataLen ∧
          player.reading.StepsSatisfy player.WholeRead (player.start left) counts := by
  have limit := player.abi.pow_longBits_sub_one
  have none_ : (player.start left).consumed = 0 := rfl
  constructor
  · rintro ⟨periods, all⟩
    refine or_iff_not_imp_left.mpr fun some_ => ?_
    rcases first_of_run reached (all ▸ some_) with ⟨count, later, rfl, positive, may, _⟩
    have size := bufSize_nonneg_of_read positive may
    have nonneg : 0 ≤ player.remain := by
      by_contra negative
      exact total_ne_of_remain_neg (Int.not_le.mp negative) periods reached all
    have isLong := player.nonneg_remain_iff.mp nonneg
    have small : player.period < 2 ^ 31 := by
      have steady := Steady.start (player.fits_iff.mpr ⟨size, Or.inl nonneg⟩) left
      have most := may.1.2.2.2
      rw [steady.toSize_request, periods count List.mem_cons_self positive] at most
      exact_mod_cast Int.lt_of_le_of_lt (Int.le_trans most steady.request.2.1) steady.lt
    have divides := all ▸ dvd_total periods
    have counting := Counting.start small isLong divides inFile
    exact ⟨small, isLong, divides,
      counting.wholeRead_of_run small (by omega) periods reached (by omega)⟩
  · rintro (zero | ⟨small, isLong, divides, whole⟩)
    · have nothing := total_of_empty zero reached
      exact ⟨byPeriods_of_total _ nothing, nothing.trans zero.symm⟩
    · have counting := Counting.start small isLong divides inFile
      have periods := counting.byPeriods_of_run small (by omega) whole rfl reached ended
      exact ⟨periods.1, by omega⟩

end

/-- The loop ends. What has been played is then the data exactly if there are none, or if
no `read` gives less than it can, the size of a period is an `int`, the length a `long` and
a number of periods. -/
theorem plays_iff (player : Player) (memory : Nat → UInt8) {data trailing : Bytes}
    (correct : player.dataLen = data.length) {counts : List Int} {final : Playback × Output}
    (reached : player.playing.run (player.atData memory (data ++ trailing)) counts =
      some final) :
    counts.length ≤ (data ++ trailing).length + 1 ∧
      (final.1.running = false → (final.2.Plays data ↔
        data = [] ∨ player.period < 2 ^ 31 ∧ data.length < 2 ^ (player.abi.longBits - 1) ∧
          player.period ∣ data.length ∧
            player.reading.StepsSatisfy player.WholeRead
              (player.start (data ++ trailing).length) counts)) := by
  rcases Machine.run_observed_eq_some.mp reached with ⟨read, output⟩
  have length := length_le_of_run (machine_of_reading read)
  refine ⟨?_, fun ended => ?_⟩
  · split_ifs at length
    · omega
    · omega
  · have inFile : data.length ≤ (data ++ trailing).length := by
      rw [List.length_append]
      omega
    have enough : total counts ≤ (data ++ trailing).length := by
      have read := (consumed_of_run read).2
      simp only [Player.atData, Player.start] at read
      omega
    have periods := byPeriods_iff (correct.symm ▸ inFile) read ended
    rw [correct, List.length_eq_zero_iff] at periods
    rw [← output, Player.atData, Output.plays_iff_byPeriods enough]
    exact periods

def monoPlayer (frames : Nat) [NeZero frames] : Player where
  abi := .ilp32
  wavheader := mono.header
  format := .u8
  accepted := by decide
  frames := frames
  positive := Nat.pos_of_neZero frames

/-- It is played by periods of two bytes. -/
theorem plays_iff_mono : ∃ final,
    (monoPlayer 2).playing.run ((monoPlayer 2).atData (fun _ => 0) (mono.samples ++ []))
      [2, 2, 0] = some final ∧ final.2.Plays mono.samples := by
  have reaches : ∃ final,
      (monoPlayer 2).playing.run ((monoPlayer 2).atData (fun _ => 0) (mono.samples ++ []))
        [2, 2, 0] = some final ∧ final.1.running = false := ⟨_, rfl, rfl⟩
  rcases reaches with ⟨final, reached, ended⟩
  have plays := plays_iff (monoPlayer 2) (fun _ => 0) (by decide) reached
  exact ⟨final, reached, (plays.2 ended).mpr (Or.inr (by decide))⟩

/-- With periods of 32 bytes, what the buffer had before is played behind the samples. -/
theorem not_plays_mono : (monoPlayer 32).dataLen = mono.samples.length ∧ ∃ final,
    (monoPlayer 32).playing.run ((monoPlayer 32).atData (fun _ => 0) mono.samples) [4, 0] =
      some final ∧ final.1.running = false ∧
        (monoPlayer 32).reading.StepsSatisfy (monoPlayer 32).WholeRead
          ((monoPlayer 32).start mono.samples.length) [4, 0] ∧
            ¬final.2.Plays mono.samples := by
  refine ⟨by decide, _, rfl, rfl, by decide, fun plays => ?_⟩
  exact absurd plays.2 (by decide)

end RaspberryPi.Wav
