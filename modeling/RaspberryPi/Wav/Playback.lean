import Mathlib.Algebra.Group.Int.Defs
import RaspberryPi.Foundation.Machine
import RaspberryPi.Wav.Header

/-! # The playback loop of `wavplay.c`

`buf_size` is the size of the buffer at first and then what the next `read` asks for.
`remain` begins with the length in the header; it is a `long`, and `buf_size` an `int`. -/

namespace RaspberryPi.Wav

def toInt (number : Int) : Int := number.bmod (2 ^ 32)

namespace Abi

def longBits (abi : Abi) : Nat := 8 * abi.longSize

def toLong (abi : Abi) (number : Int) : Int := number.bmod (2 ^ abi.longBits)

def toSize (abi : Abi) (number : Int) : Nat := (number % 2 ^ abi.longBits).toNat

end Abi

inductive Format
  | u8
  | s16le
deriving DecidableEq

def Format.width : Format → Nat
  | u8 => 1
  | s16le => 2

/-- The `switch` over `nblockAlign`; `main` returns in the default case. -/
def chooseFormat (nblockAlign channels : Nat) : Option Format :=
  match nblockAlign with
  | 1 => some .u8
  | 2 => some (if channels = 1 then .s16le else .u8)
  | 4 => some .s16le
  | _ => none

/-- What `main` has before the loop: the header as it was read and the size of a period
that ALSA reports. -/
structure Player where
  abi : Abi
  wavheader : Bytes
  format : Format
  accepted : chooseFormat (value abi wavheader .nblockAlign) (value abi wavheader .nChannels) =
    some format
  frames : Nat
  positive : 0 < frames

namespace Player

variable (player : Player)

def dataLen : Nat := value player.abi player.wavheader .dataLen

def period : Nat :=
  player.frames * value player.abi player.wavheader .nChannels * player.format.width

/-- The size of the buffer: the product is an `unsigned long`, `buf_size` an `int`. -/
def bufSize : Int := toInt (player.abi.toSize player.period)

def remain : Int := player.abi.toLong player.dataLen

end Player

structure Playback where
  bufSize : Int
  remain : Int
  left : Nat
  consumed : Nat
  running : Bool

namespace Playback

/-- `(remain > buf_size)?buf_size:remain` in an `int` -/
def request (state : Playback) : Int :=
  if state.bufSize < state.remain then state.bufSize else toInt state.remain

/-- What `read` may return: an error, or no more than is asked for and left. -/
def MayReturn (abi : Abi) (state : Playback) (count : Int) : Prop :=
  state.running = true ∧ -1 ≤ count ∧ count ≤ state.left ∧ count ≤ abi.toSize state.request

instance (abi : Abi) (state : Playback) (count : Int) : Decidable (state.MayReturn abi count) :=
  inferInstanceAs (Decidable (_ ∧ _ ∧ _ ∧ _))

def round (abi : Abi) (state : Playback) (count : Int) : Playback :=
  if count ≤ 0 then { state with bufSize := state.request, running := false }
  else
    { bufSize := state.request
      remain := abi.toLong (state.remain - count)
      left := state.left - count.toNat
      consumed := state.consumed + count.toNat
      running := count = state.request }

def machine (abi : Abi) : Machine Playback Int := .guarded (MayReturn abi) (round abi)

end Playback

namespace Player

variable (player : Player)

def start (left : Nat) : Playback where
  bufSize := player.bufSize
  remain := player.remain
  left := left
  consumed := 0
  running := true

def InBuffer (state : Playback) : Prop :=
  (state.running = true → 0 ≤ state.request ∧ state.request ≤ player.bufSize) ∧
    state.consumed ≤ player.dataLen

/-- The reads stay in the buffer whatever they return, and a file comes to its end. -/
def StaysInBuffer (left : Nat) : Prop :=
  ∀ counts state, (Playback.machine player.abi).run (player.start left) counts = some state →
    player.InBuffer state ∧ counts.length ≤ left + 1

/-- In an `int` the size of a period is not negative. The length is a number in a `long`,
or its lower half is no more than the period. -/
def Fits : Prop :=
  player.period % 2 ^ 32 < 2 ^ 31 ∧
    (player.dataLen < 2 ^ (player.abi.longBits - 1) ∨
      player.dataLen % 2 ^ 32 ≤ player.period % 2 ^ 32)

instance : Decidable player.Fits := inferInstanceAs (Decidable (_ ∧ (_ ∨ _)))

end Player

/-! ## Numbers -/

theorem toInt_bounds (number : Int) : -2 ^ 31 ≤ toInt number ∧ toInt number < 2 ^ 31 := by
  have lower := Int.le_bmod (x := number) (m := 2 ^ 32) (by decide)
  have upper := Int.bmod_lt (x := number) (m := 2 ^ 32) (by decide)
  rw [toInt]
  omega

theorem toInt_eq_self {number : Int} (lower : -2 ^ 31 ≤ number) (upper : number < 2 ^ 31) :
    toInt number = number := by
  rw [toInt, Int.bmod_def]
  split_ifs
  · omega
  · omega

theorem toInt_natCast (number : Nat) : toInt number =
    if number % 2 ^ 32 < 2 ^ 31 then ((number % 2 ^ 32 : Nat) : Int)
    else ((number % 2 ^ 32 : Nat) : Int) - 2 ^ 32 := by
  rw [toInt, Int.bmod_def]
  split_ifs
  all_goals omega

theorem nonneg_toInt_natCast (number : Nat) :
    0 ≤ toInt number ↔ number % 2 ^ 32 < 2 ^ 31 := by
  rw [toInt_natCast]
  split_ifs with small
  · exact iff_of_true (Int.natCast_nonneg _) small
  · exact iff_of_false (by omega) small

theorem toInt_sub_toInt (number : Int) : toInt (number - toInt number) = 0 := by
  rw [toInt, toInt, Int.sub_bmod_bmod, Int.sub_self]
  rfl

theorem toInt_le_self {number : Int} (nonneg : 0 ≤ number) : toInt number ≤ number := by
  rw [toInt, Int.bmod_def]
  split_ifs
  · omega
  · omega

namespace Abi

def longLimit : Abi → Int
  | ilp32 => 2 ^ 31
  | lp64 => 2 ^ 63

variable (abi : Abi)

theorem longLimit_eq : abi.longLimit = 2 ^ 31 ∨ abi.longLimit = 2 ^ 63 := by
  cases abi with
  | ilp32 => exact Or.inl rfl
  | lp64 => exact Or.inr rfl

theorem longLimit_pos : 2 ^ 31 ≤ abi.longLimit := by
  have limit := abi.longLimit_eq
  omega

theorem toInt_toLong (number : Int) : toInt (abi.toLong number) = toInt number := by
  apply Int.bmod_bmod_of_dvd
  cases abi <;> decide

theorem pow_longBits : ((2 ^ abi.longBits : Nat) : Int) = 2 * abi.longLimit := by
  cases abi <;> rfl

theorem pow_longBits_sub_one : ((2 ^ (abi.longBits - 1) : Nat) : Int) = abi.longLimit := by
  cases abi <;> rfl

theorem toLong_def (number : Int) : abi.toLong number =
    if number % (2 * abi.longLimit) < abi.longLimit then number % (2 * abi.longLimit)
    else number % (2 * abi.longLimit) - 2 * abi.longLimit := by
  have half : (2 * abi.longLimit + 1) / 2 = abi.longLimit := by omega
  rw [toLong, Int.bmod_def, pow_longBits, half]

theorem toLong_bounds (number : Int) :
    -abi.longLimit ≤ abi.toLong number ∧ abi.toLong number < abi.longLimit := by
  have positive := abi.longLimit_pos
  have lower := Int.emod_nonneg number (show 2 * abi.longLimit ≠ 0 by omega)
  have upper := Int.emod_lt_of_pos number (show 0 < 2 * abi.longLimit by omega)
  rw [toLong_def]
  split_ifs
  · omega
  · omega

theorem toLong_eq_self {number : Int} (lower : -abi.longLimit ≤ number)
    (upper : number < abi.longLimit) : abi.toLong number = number := by
  have positive := abi.longLimit_pos
  rw [toLong_def]
  by_cases nonneg : 0 ≤ number
  · rw [Int.emod_eq_of_lt nonneg (by omega), if_pos upper]
  · have same : number % (2 * abi.longLimit) = number + 2 * abi.longLimit := by
      rw [← Int.add_emod_right, Int.emod_eq_of_lt (by omega) (by omega)]
    rw [same, if_neg (by omega)]
    omega

theorem toLong_le_self {number : Int} (nonneg : 0 ≤ number) : abi.toLong number ≤ number := by
  have positive := abi.longLimit_pos
  have split := Int.mul_ediv_add_emod number (2 * abi.longLimit)
  have multiple : 0 ≤ 2 * abi.longLimit * (number / (2 * abi.longLimit)) :=
    Int.mul_nonneg (by omega) (Int.ediv_nonneg nonneg (by omega))
  rw [toLong_def]
  split_ifs
  · omega
  · omega

theorem sub_toInt_bound {number : Int} (isLong : -abi.longLimit ≤ number)
    (lower : 0 ≤ toInt number) : -abi.longLimit ≤ number - toInt number := by
  have limit := abi.longLimit_eq
  rw [toInt, Int.bmod_def] at lower ⊢
  split_ifs at lower ⊢
  · omega
  · omega

theorem toSize_eq_self {number : Int} (nonneg : 0 ≤ number) (small : number < 2 ^ 31) :
    (abi.toSize number : Int) = number := by
  have positive := abi.longLimit_pos
  have modulus : (2 : Int) ^ abi.longBits = 2 * abi.longLimit := by
    exact_mod_cast abi.pow_longBits
  rw [toSize, modulus, Int.emod_eq_of_lt nonneg (by omega)]
  exact Int.toNat_of_nonneg nonneg

end Abi

namespace Player

variable (player : Player)

theorem bufSize_eq : player.bufSize = toInt player.period := by
  have size : (player.abi.toSize player.period : Int) =
      (player.period : Int) % ((2 ^ player.abi.longBits : Nat) : Int) := by
    have modulus : (2 : Int) ^ player.abi.longBits ≠ 0 := Int.pow_ne_zero (by decide)
    rw [Abi.toSize, Int.toNat_of_nonneg (Int.emod_nonneg _ modulus)]
    norm_cast
  have divides : ((2 ^ 32 : Nat) : Int) ∣ ((2 ^ player.abi.longBits : Nat) : Int) := by
    cases player.abi <;> decide
  rw [bufSize, size, toInt, ← Int.emod_bmod, Int.emod_emod_of_dvd _ divides, Int.emod_bmod, toInt]

theorem toInt_remain : toInt player.remain = toInt player.dataLen :=
  player.abi.toInt_toLong player.dataLen

theorem dataLen_lt : (player.dataLen : Int) < 2 * player.abi.longLimit := by
  have field : (Layout.read .dataLen (wavHeader player.abi) player.wavheader).length ≤
      player.abi.longSize := List.length_take_le _ _
  have bound := Nat.lt_of_lt_of_le (ByteOrder.little.value_lt _)
    (Nat.pow_le_pow_right (show 0 < 256 by decide) field)
  have power : 256 ^ player.abi.longSize = 2 ^ player.abi.longBits := by
    rw [Abi.longBits, Nat.pow_mul]
  rw [power] at bound
  rw [← player.abi.pow_longBits]
  exact_mod_cast bound

theorem nonneg_remain_iff :
    0 ≤ player.remain ↔ player.dataLen < 2 ^ (player.abi.longBits - 1) := by
  have bound := player.dataLen_lt
  have limit := player.abi.pow_longBits_sub_one
  have same : (player.dataLen : Int) % (2 * player.abi.longLimit) = player.dataLen :=
    Int.emod_eq_of_lt (Int.natCast_nonneg _) bound
  rw [remain, Abi.toLong_def, same]
  split_ifs with small
  · omega
  · omega

theorem fits_iff : player.Fits ↔ 0 ≤ player.bufSize ∧
    (0 ≤ player.remain ∨ 0 ≤ toInt player.remain ∧ toInt player.remain ≤ player.bufSize) := by
  rw [Fits, nonneg_remain_iff, toInt_remain, bufSize_eq, nonneg_toInt_natCast,
    nonneg_toInt_natCast]
  refine and_congr_right fun size => or_congr_right ?_
  rw [toInt_natCast player.period, if_pos size, toInt_natCast player.dataLen]
  split_ifs with small
  · omega
  · omega

end Player

/-! ## Rounds -/

theorem Playback.request_le (state : Playback) (remain : 0 ≤ state.remain) :
    state.request ≤ state.remain := by
  rw [request]
  split_ifs with more
  · exact Int.le_of_lt more
  · exact toInt_le_self remain

theorem Playback.round_of_nonpos {abi : Abi} {state : Playback} {count : Int}
    (nothing : count ≤ 0) : state.round abi count =
      { state with bufSize := state.request, running := false } := if_pos nothing

theorem Playback.round_of_pos {abi : Abi} {state : Playback} {count : Int}
    (some_ : ¬count ≤ 0) : state.round abi count =
      { bufSize := state.request
        remain := abi.toLong (state.remain - count)
        left := state.left - count.toNat
        consumed := state.consumed + count.toNat
        running := count = state.request } := if_neg some_

/-- While the loop goes on, what `remain` comes to as an `int` fits into what the header
says and, unless `remain` is large and counts down, into the buffer. -/
structure Steady (player : Player) (state : Playback) : Prop where
  nonneg : 0 ≤ state.bufSize
  inBuffer : state.bufSize ≤ player.bufSize
  isLong : -player.abi.longLimit ≤ state.remain ∧ state.remain < player.abi.longLimit
  asks : 0 ≤ state.remain ∧ state.consumed + state.remain ≤ player.dataLen ∨
    state.remain < 0 ∧ 0 ≤ toInt state.remain ∧ toInt state.remain ≤ state.bufSize ∧
      state.consumed + toInt state.remain ≤ player.dataLen

namespace Steady

variable {player : Player} {state : Playback} {count : Int}

theorem lt (steady : Steady player state) : state.bufSize < 2 ^ 31 := by
  have bound := (toInt_bounds (player.abi.toSize player.period)).2
  exact Int.lt_of_le_of_lt steady.inBuffer bound

theorem request (steady : Steady player state) : 0 ≤ state.request ∧
    state.request ≤ state.bufSize ∧ state.consumed + state.request ≤ player.dataLen := by
  have nonneg := steady.nonneg
  have small := steady.lt
  rw [Playback.request]
  rcases steady.asks with ⟨remain, fits⟩ | ⟨remain, inBuffer⟩
  · split_ifs with more
    · omega
    · rw [toInt_eq_self (by omega) (by omega)]
      omega
  · rw [if_neg (by omega)]
    omega

theorem start (fits : player.Fits) (left : Nat) : Steady player (player.start left) := by
  have length : 0 ≤ (player.dataLen : Int) := Int.natCast_nonneg _
  have asks : 0 ≤ player.remain ∧ player.remain ≤ player.dataLen ∨
      player.remain < 0 ∧ 0 ≤ toInt player.remain ∧ toInt player.remain ≤ player.bufSize ∧
        toInt player.remain ≤ player.dataLen := by
    by_cases nonneg : 0 ≤ player.remain
    · exact Or.inl ⟨nonneg, player.abi.toLong_le_self length⟩
    · rcases (player.fits_iff.mp fits).2 with isLong | ⟨lower, upper⟩
      · exact absurd isLong nonneg
      · have small := toInt_le_self length
        rw [← player.abi.toInt_toLong] at small
        exact Or.inr ⟨Int.lt_of_not_ge nonneg, lower, upper, small⟩
  have nonneg : 0 ≤ player.bufSize := (player.fits_iff.mp fits).1
  have isLong := player.abi.toLong_bounds player.dataLen
  constructor
  · simp only [Player.start, nonneg]
  · simp only [Player.start, Int.le_refl]
  · rw [Player.start, Player.remain]
    exact isLong
  · simpa [Player.start] using asks

theorem sub_bound (steady : Steady player state) :
    -player.abi.longLimit ≤ state.remain - state.request := by
  have request := steady.request
  have limit := player.abi.longLimit_pos
  rcases steady.asks with ⟨remain, _⟩ | ⟨remain, lower, _⟩
  · have small := steady.lt
    omega
  · have nonneg := steady.nonneg
    have asked : state.request = toInt state.remain := if_neg (by omega)
    rw [asked]
    exact player.abi.sub_toInt_bound steady.isLong.1 lower

theorem round (steady : Steady player state) (left : Nat) :
    Steady player
      { bufSize := state.request
        remain := player.abi.toLong (state.remain - state.request)
        left := left
        consumed := state.consumed + state.request.toNat
        running := true } := by
  have request := steady.request
  have isLong := steady.isLong
  have consumed : ((state.consumed + state.request.toNat : Nat) : Int) =
      state.consumed + state.request := by
    omega
  have same := player.abi.toLong_eq_self steady.sub_bound (by omega)
  constructor
  · exact request.1
  · exact Int.le_trans request.2.1 steady.inBuffer
  · exact player.abi.toLong_bounds _
  · simp only [same, consumed]
    rcases steady.asks with ⟨remain, fits⟩ | ⟨remain, lower, upper, fits⟩
    · have enough := state.request_le remain
      omega
    · have nonneg := steady.nonneg
      have asked : state.request = toInt state.remain := if_neg (by omega)
      have rest := toInt_sub_toInt state.remain
      rw [← asked] at rest
      rw [rest]
      omega

theorem toSize_request (steady : Steady player state) :
    (player.abi.toSize state.request : Int) = state.request := by
  have request := steady.request
  exact player.abi.toSize_eq_self request.1 (Int.lt_of_le_of_lt request.2.1 steady.lt)

theorem after (steady : Steady player state) (may : state.MayReturn player.abi count) :
    ((state.round player.abi count).running = true →
      Steady player (state.round player.abi count)) ∧
        (state.round player.abi count).consumed ≤ player.dataLen := by
  have request := steady.request
  have asked := may.2.2.2
  rw [steady.toSize_request] at asked
  by_cases nothing : count ≤ 0
  · rw [Playback.round_of_nonpos nothing]
    refine ⟨fun going => absurd going Bool.false_ne_true, ?_⟩
    simp only
    omega
  · rw [Playback.round_of_pos nothing]
    refine ⟨fun going => ?_, ?_⟩
    · obtain rfl : count = state.request := of_decide_eq_true going
      simpa using steady.round (state.left - state.request.toNat)
    · simp only
      omega

end Steady

variable {player : Player} {left : Nat} {counts : List Int} {state : Playback}

theorem steady_of_run (fits : player.Fits)
    (reached : (Playback.machine player.abi).run (player.start left) counts = some state) :
    (state.running = true → Steady player state) ∧ state.consumed ≤ player.dataLen := by
  apply Machine.run_induction (motive := fun _ state =>
    (state.running = true → Steady player state) ∧ state.consumed ≤ player.dataLen) _ _ reached
  · exact ⟨fun _ => Steady.start fits left, Nat.zero_le _⟩
  · intro counts state count following _ keeps step
    rcases Machine.guarded_next_eq_some.mp step with ⟨may, rfl⟩
    exact (keeps.1 may.1).after may

theorem length_le_of_run
    (reached : (Playback.machine player.abi).run (player.start left) counts = some state) :
    counts.length + state.left ≤ left + if state.running then 0 else 1 := by
  apply Machine.run_induction (motive := fun counts state =>
    counts.length + state.left ≤ left + if state.running then 0 else 1) _ _ reached
  · simp [Player.start]
  · intro counts state count following _ bound step
    rcases Machine.guarded_next_eq_some.mp step with ⟨⟨running, _, inFile, _⟩, rfl⟩
    rw [if_pos running] at bound
    rw [List.length_append, List.length_singleton]
    by_cases nothing : count ≤ 0
    · rw [Playback.round_of_nonpos nothing]
      simp only [Bool.false_eq_true, if_false]
      omega
    · rw [Playback.round_of_pos nothing]
      split_ifs
      · simp only
        omega
      · simp only
        omega

theorem Player.request_start (player : Player) {left : Nat} (negative : player.remain < 0)
    (size : 0 ≤ player.bufSize) : (player.start left).request = toInt player.remain := by
  apply if_neg
  simp only [Player.start]
  omega

/-- The first request says whether the length fits. -/
theorem fits_of_staysInBuffer (stays : player.StaysInBuffer left) : player.Fits := by
  have request := (stays [] (player.start left) rfl).1.1 rfl
  rw [player.fits_iff]
  have inBuffer : 0 ≤ player.bufSize := Int.le_trans request.1 request.2
  by_cases isLong : 0 ≤ player.remain
  · exact ⟨inBuffer, Or.inl isLong⟩
  · rw [player.request_start (Int.not_le.mp isLong) inBuffer] at request
    exact ⟨inBuffer, Or.inr request⟩

/-- Reads stay in the buffer exactly if its size and the length of the data fit. -/
theorem staysInBuffer_iff (player : Player) (left : Nat) :
    player.StaysInBuffer left ↔ player.Fits := by
  refine ⟨fits_of_staysInBuffer, fun fits counts state reached => ?_⟩
  have steady := steady_of_run fits reached
  have length := length_le_of_run reached
  refine ⟨⟨fun running => ?_, steady.2⟩, ?_⟩
  · have request := (steady.1 running).request
    exact ⟨request.1, Int.le_trans request.2.1 (steady.1 running).inBuffer⟩
  · split_ifs at length
    · omega
    · omega

def twoGigabytes : WavFile := { mono with dataLen := 0x80000000 }

def twoGigabytesPlayer : Player where
  abi := .ilp32
  wavheader := twoGigabytes.header
  format := .u8
  accepted := by decide
  frames := 32
  positive := by decide

/-- The length comes to a negative number, and the first `read` is asked for more than
the buffer has. -/
theorem not_staysInBuffer_twoGigabytes :
    ¬twoGigabytesPlayer.StaysInBuffer twoGigabytes.samples.length := by
  intro stays
  exact absurd (fits_of_staysInBuffer stays) (by decide)

end RaspberryPi.Wav
