import RaspberryPi.Foundation.Progress
import RaspberryPi.Wav.Played

/-! # What the sound device gets of a file

A file whose header agrees with itself, on a machine where a `long` has 4 bytes: its
samples, and behind them what a last period is filled up with. -/

namespace RaspberryPi.Wav

/-- The bytes that fill up the last period are old ones: what the buffer held before,
from the memory or from the last whole period. -/
structure Padded (period : Nat) (buffer data stale : Bytes) : Prop where
  old : stale <:+ buffer ++ data.take (data.length / period * period)
  short : stale.length < period
  whole : period ∣ (data ++ stale).length

def Output.Sounds (output : Output) (period : Nat) (buffer data : Bytes) : Prop :=
  ∃ stale, Padded period buffer data stale ∧
    (output.rounds.map Round.handed).flatten = data ++ stale

structure ByWholePeriods (period : Nat) (buffer data : Bytes) (state : Playback)
    (output : Output) : Prop where
  bufSize : state.bufSize = period
  divides : period ∣ state.consumed
  handed : (output.rounds.map Round.handed).flatten = data.take state.consumed
  held : (List.range period).map output.memory <:+ buffer ++ data.take state.consumed

structure Sounding (period : Nat) (buffer data trailing : Bytes) (state : Playback)
    (output : Output) : Prop where
  nonneg : 0 ≤ state.remain
  length : state.consumed + state.remain = data.length
  file : output.file = data.drop state.consumed ++ trailing
  left : state.left = output.file.length
  phase : ByWholePeriods period buffer data state output ∨
    state.remain = 0 ∧ 0 ≤ state.bufSize ∧ output.Sounds period buffer data

variable {player : Player} {period : Nat} {buffer data trailing : Bytes}
  {state final : Playback} {output : Output} {counts : List Int} {count : Int}

theorem Padded.nil (positive : 0 < period) (divides : period ∣ data.length) :
    Padded period buffer data [] where
  old := List.nil_suffix
  short := positive
  whole := by rwa [List.append_nil]

namespace ByWholePeriods

theorem sounds (whole : ByWholePeriods period buffer data state output) (positive : 0 < period)
    (all : state.consumed = data.length) : output.Sounds period buffer data := by
  refine ⟨[], .nil positive (all ▸ whole.divides), ?_⟩
  rw [whole.handed, all, List.take_length, List.append_nil]

theorem padded (whole : ByWholePeriods period buffer data state output) {rest : Nat}
    (some_ : 0 < rest) (less : rest < period) (all : state.consumed + rest = data.length) :
    Padded period buffer data (((List.range period).map output.memory).drop rest) := by
  rcases whole.divides with ⟨periods, consumed⟩
  have quotient : data.length / period = periods := by
    rw [← all, consumed, Nat.mul_add_div (by omega), Nat.div_eq_of_lt less, Nat.add_zero]
  have read : data.length / period * period = state.consumed := by
    rw [quotient, consumed, Nat.mul_comm]
  have length : (((List.range period).map output.memory).drop rest).length = period - rest := by
    rw [List.length_drop, List.length_map, List.length_range]
  refine ⟨?_, by omega, ?_⟩
  · rw [read]
    exact (List.drop_suffix _ _).trans whole.held
  · have total : data.length + (period - rest) = period * (periods + 1) := by
      rw [Nat.mul_succ, ← consumed]
      omega
    rw [List.length_append, length, total]
    exact Nat.dvd_mul_right _ _

end ByWholePeriods

/-! ## A round -/

theorem map_overwrite_of_le (memory : Nat → UInt8) {chunk : Bytes} {period : Nat}
    (fits : chunk.length ≤ period) : (List.range period).map (overwrite memory chunk) =
      chunk ++ ((List.range period).map memory).drop chunk.length := by
  apply List.ext_getElem
  · simp only [List.length_map, List.length_range, List.length_append, List.length_drop]
    omega
  · intro index _ _
    by_cases inChunk : index < chunk.length
    · simp [overwrite, List.getElem_append_left, inChunk]
    · have behind : chunk.length ≤ index := Nat.le_of_not_lt inChunk
      simp [overwrite, List.getElem_append_right, behind]

namespace ByWholePeriods

theorem more (whole : ByWholePeriods period buffer data state output)
    (file : output.file = data.drop state.consumed ++ trailing) (positive : 0 < period)
    (inData : state.consumed + period ≤ data.length) {following : Playback}
    (bufSize : following.bufSize = period)
    (consumed : following.consumed = state.consumed + period) :
    ByWholePeriods period buffer data following (output.round period period) := by
  have chunk : output.file.take period = (data.drop state.consumed).take period := by
    rw [file, List.take_append_of_le_length (by rw [List.length_drop]; omega)]
  have length : ((data.drop state.consumed).take period).length = period := by
    rw [List.length_take, List.length_drop]
    omega
  have after : output.round period period = _ := if_neg (by omega)
  have given := map_overwrite_of_le output.memory (Nat.le_of_eq length)
  have nothing : ((List.range period).map output.memory).drop period = [] :=
    List.drop_eq_nil_of_le (by simp)
  rw [length, nothing, List.append_nil] at given
  rw [after, Int.toNat_natCast, chunk]
  constructor
  · exact bufSize
  · rw [consumed]
    exact Nat.dvd_add whole.divides (Nat.dvd_refl _)
  · rw [consumed, List.take_add, ← whole.handed]
    simp only [List.map_append, List.flatten_append, given]
    simp
  · rw [consumed, List.take_add, ← List.append_assoc]
    simp only [given]
    exact List.suffix_append _ _

theorem rest (whole : ByWholePeriods period buffer data state output)
    (file : output.file = data.drop state.consumed ++ trailing) {rest : Nat}
    (some_ : 0 < rest) (less : rest < period) (all : state.consumed + rest = data.length) :
    (output.round period rest).Sounds period buffer data := by
  have chunk : output.file.take rest = data.drop state.consumed := by
    rw [file, List.take_left' (by rw [List.length_drop]; omega)]
  have length : (data.drop state.consumed).length = rest := by
    rw [List.length_drop]
    omega
  have after : output.round period rest = _ := if_neg (by omega)
  have given := map_overwrite_of_le output.memory (Nat.le_of_lt (length.symm ▸ less))
  refine ⟨_, whole.padded some_ less all, ?_⟩
  rw [after, Int.toNat_natCast, chunk]
  simp only [List.map_append, List.flatten_append, whole.handed, given, length]
  simp [← List.append_assoc]

end ByWholePeriods

namespace Sounding

theorem request (sounding : Sounding period buffer data trailing state output)
    (small : period < 2 ^ 31) :
    (state.request = period ∧ (period : Int) ≤ state.remain ∧
        ByWholePeriods period buffer data state output) ∨
      (state.request = state.remain ∧ 0 < state.remain ∧ state.remain < period ∧
        ByWholePeriods period buffer data state output) ∨
      state.request = 0 ∧ state.remain = 0 := by
  have nonneg := sounding.nonneg
  rw [Playback.request]
  by_cases nothing : state.remain = 0
  · have size : 0 ≤ state.bufSize := by
      rcases sounding.phase with whole | ⟨_, size, _⟩
      · exact whole.bufSize ▸ Int.natCast_nonneg period
      · exact size
    rw [if_neg (by omega), nothing]
    exact Or.inr (Or.inr ⟨rfl, rfl⟩)
  · have whole := sounding.phase.resolve_right fun last => nothing last.1
    rw [whole.bufSize]
    by_cases less : state.remain < period
    · rw [if_neg (by omega), toInt_eq_self (by omega) (by omega)]
      exact Or.inr (Or.inl ⟨rfl, by omega, less, whole⟩)
    · refine Or.inl ⟨?_, by omega, whole⟩
      split_ifs
      · rfl
      · rw [toInt_eq_self (by omega) (by omega)]
        omega

theorem advance (sounding : Sounding period buffer data trailing state output)
    (isLong : (data.length : Int) < player.abi.longLimit) {read : Nat} (some_ : 0 < read)
    (inData : (read : Int) ≤ state.remain)
    (phase : ByWholePeriods period buffer data (state.round player.abi read)
        (output.round period read) ∨
      state.remain = read ∧ 0 ≤ state.request ∧
        (output.round period read).Sounds period buffer data) :
    Sounding period buffer data trailing (state.round player.abi read)
      (output.round period read) := by
  have length := sounding.length
  have limit := player.abi.longLimit_pos
  have remain : player.abi.toLong (state.remain - read) = state.remain - read :=
    player.abi.toLong_eq_self (by omega) (by omega)
  have file : output.file.drop read = data.drop (state.consumed + read) ++ trailing := by
    rw [sounding.file, List.drop_append_of_le_length (by rw [List.length_drop]; omega),
      List.drop_drop]
  have next : output.round period read = _ := if_neg (by omega)
  rw [Playback.round_of_pos (by omega), next] at phase ⊢
  refine ⟨?_, ?_, file, ?_, ?_⟩
  · simp only [remain]
    omega
  · simp only [remain, Int.toNat_natCast]
    omega
  · simp only [List.length_drop, Int.toNat_natCast, sounding.left]
  · refine phase.imp_right ?_
    rintro ⟨all, asked, sounds⟩
    refine ⟨?_, asked, sounds⟩
    simp only [remain]
    omega

/-- A read that gives what it is asked for leads to the next round; if it is asked for
nothing, all has been handed over. -/
theorem round (sounding : Sounding period buffer data trailing state output)
    (positive : 0 < period) (small : period < 2 ^ 31)
    (isLong : (data.length : Int) < player.abi.longLimit)
    (may : player.MayRead state count) (whole : player.WholeRead state count) :
    (state.round player.abi count).running = false ∧
        (output.round period count).Sounds period buffer data ∨
      (state.round player.abi count).running = true ∧
        Sounding period buffer data trailing (state.round player.abi count)
          (output.round period count) := by
  have length := sounding.length
  have nonneg := sounding.nonneg
  have left : state.left = data.length - state.consumed + trailing.length := by
    rw [sounding.left, sounding.file, List.length_append, List.length_drop]
  rcases sounding.request small with ⟨asked, more, periods⟩ | ⟨asked, some_, less, periods⟩ |
    ⟨asked, nothing⟩
  · have size : (player.abi.toSize state.request : Int) = state.request :=
      player.abi.toSize_eq_self (by omega) (by omega)
    obtain rfl : count = period := by
      have all := whole (by omega)
      omega
    refine Or.inr ⟨?_, sounding.advance isLong positive more (Or.inl ?_)⟩
    · rw [Playback.round_of_pos (by omega)]
      exact decide_eq_true asked.symm
    · rw [Playback.round_of_pos (by omega)]
      exact periods.more sounding.file positive (by omega) asked rfl
  · have size : (player.abi.toSize state.request : Int) = state.request :=
      player.abi.toSize_eq_self (by omega) (by omega)
    obtain ⟨rest, remain⟩ := Int.eq_ofNat_of_zero_le nonneg
    obtain rfl : count = rest := by
      have all := whole (by omega)
      omega
    have sounds : (output.round period rest).Sounds period buffer data :=
      periods.rest sounding.file (by omega) (by omega) (by omega)
    refine Or.inr ⟨?_, sounding.advance isLong (by omega) (Int.le_of_eq remain.symm)
      (Or.inr ⟨remain, asked ▸ nonneg, sounds⟩)⟩
    rw [Playback.round_of_pos (by omega)]
    exact decide_eq_true (remain.symm.trans asked.symm)
  · have none_ := nonpos_of_request asked may
    have same : output.round period count = output := if_pos none_
    refine Or.inl ⟨stopped_of_nonpos none_, same.symm ▸ ?_⟩
    rcases sounding.phase with whole | ⟨_, _, sounds⟩
    · exact whole.sounds positive (by omega)
    · exact sounds

theorem start (player : Player) (memory : Nat → UInt8) (small : player.period < 2 ^ 31)
    (isLong : (data.length : Int) < player.abi.longLimit)
    (correct : player.dataLen = data.length) :
    Sounding player.period ((List.range player.period).map memory) data trailing
      (player.atData memory (data ++ trailing)).1
      (player.atData memory (data ++ trailing)).2 := by
  have limit := player.abi.longLimit_pos
  have remain : player.remain = data.length := by
    rw [Player.remain, correct]
    exact player.abi.toLong_eq_self (by omega) isLong
  have bufSize : player.bufSize = player.period := by
    rw [player.bufSize_eq]
    exact toInt_eq_self (by omega) (by omega)
  constructor
  · simp only [Player.atData, Player.start, remain]
    exact Int.natCast_nonneg _
  · simp only [Player.atData, Player.start, remain]
    exact Int.zero_add _
  · rfl
  · rfl
  · refine Or.inl ⟨?_, Nat.dvd_zero _, rfl, ?_⟩
    · simp only [Player.atData, Player.start, bufSize]
    · simp only [Player.atData, Player.start, List.take_zero, List.append_nil]
      exact List.suffix_rfl

end Sounding

/-! ## Runs of the loop -/

def Heard (player : Player) (buffer data trailing : Bytes) (state : Playback × Output) : Prop :=
  state.1.running = true ∧ Sounding player.period buffer data trailing state.1 state.2 ∨
    state.1.running = false ∧ state.2.Sounds player.period buffer data

def work (state : Playback × Output) : Nat :=
  state.1.left + if state.1.running then 1 else 0

theorem windsDown (player : Player) (buffer data trailing : Bytes)
    (positive : 0 < player.period) (small : player.period < 2 ^ 31)
    (isLong : (data.length : Int) < player.abi.longLimit) :
    player.playing.WindsDown (Heard player buffer data trailing)
      (fun state => player.WholeRead state.1) work (fun state => state.1.running = false) where
  preserved := by
    rintro state count following heard whole step
    rcases Machine.observed_next_eq_some.mp step with ⟨step, seen⟩
    rcases Machine.guarded_next_eq_some.mp step with ⟨may, after⟩
    rw [Heard, ← after, ← seen]
    rcases heard with ⟨_, sounding⟩ | ⟨stopped, _⟩
    · exact (sounding.round positive small isLong may whole).symm
    · exact absurd (may.1.1.symm.trans stopped) Bool.noConfusion
  decreases := by
    rintro state count following heard whole step
    rcases Machine.observed_next_eq_some.mp step with ⟨step, _⟩
    rcases Machine.guarded_next_eq_some.mp step with ⟨may, after⟩
    rw [work, work, ← after, may.1.1, if_pos rfl]
    by_cases nothing : count ≤ 0
    · rw [Playback.round_of_nonpos nothing]
      exact Nat.lt_succ_self _
    · have inFile := may.1.2.2.1
      rw [Playback.round_of_pos nothing]
      simp only
      split_ifs
      · omega
      · omega
  moves := by
    rintro state heard going
    have running := Bool.of_not_eq_false going
    have bufSize : 0 ≤ player.bufSize := by
      rw [player.bufSize_eq, toInt_eq_self (by omega) (by omega)]
      exact Int.natCast_nonneg _
    obtain ⟨count, all⟩ : ∃ count : Nat,
        count = min (player.abi.toSize state.1.request) state.1.left := ⟨_, rfl⟩
    have may : player.MayRead state.1 count := by
      refine ⟨⟨running, by omega, by omega, by omega⟩, fun negative => ?_⟩
      exact absurd negative (Int.not_lt.mpr bufSize)
    have step : player.playing.next state count =
        some (state.1.round player.abi count, state.2.round player.period count) :=
      Machine.observed_next_eq_some.mpr ⟨Machine.guarded_next_eq_some.mpr ⟨may, rfl⟩, rfl⟩
    exact ⟨count, _, fun _ => congrArg Nat.cast all, step⟩

/-! ## A file -/

/-- A file of samples of 8 or 16 bits in one or two channels. Behind the data there may be
more. -/
structure WavFile.Plain (file : WavFile) (data trailing : Bytes) : Prop where
  samples : file.samples = data ++ trailing
  dataLen : file.dataLen.toNat = data.length
  channels : file.nChannels = 1 ∨ file.nChannels = 2
  bits : file.bitsPerSample = 8 ∨ file.bitsPerSample = 16
  frame : file.nblockAlign.toNat = file.nChannels.toNat * (file.bitsPerSample.toNat / 8)

namespace WavFile.Plain

variable {file : WavFile} {garbage : Bytes} {position : Nat}

theorem nblockAlign_pos (plain : file.Plain data trailing) : 0 < file.nblockAlign.toNat := by
  rw [plain.frame]
  rcases plain.channels with channels | channels
  all_goals
    rcases plain.bits with bits | bits
    all_goals
      rw [channels, bits]
      decide

theorem width {format : Format} (plain : file.Plain data trailing)
    (chosen : chooseFormat file.nblockAlign.toNat file.nChannels.toNat = some format) :
    file.nChannels.toNat * format.width = file.nblockAlign.toNat := by
  rw [plain.frame] at chosen ⊢
  rcases plain.channels with channels | channels
  all_goals
    rcases plain.bits with bits | bits
    all_goals
      rw [channels, bits] at chosen ⊢
      cases chosen
      rfl

theorem opened (plain : file.Plain data trailing) (ilp32 : player.abi = .ilp32)
    (header : readHeader player.abi garbage file.bytes = some (player.wavheader, position)) :
    player.period = player.frames * file.nblockAlign.toNat ∧ player.dataLen = data.length ∧
      file.bytes.drop position = data ++ trailing := by
  rcases player with ⟨abi, wavheader, format, accepted, frames, positive⟩
  obtain rfl : abi = .ilp32 := ilp32
  rcases readHeader_eq .ilp32 file garbage with ⟨behind, done⟩
  have read := Prod.mk.inj (Option.some.inj (header.symm.trans done))
  obtain rfl : wavheader = file.header ++ behind := read.1
  obtain rfl : position = file.header.length := by
    rw [read.2, WavFile.bytes, List.length_append, length_header]
    exact Nat.min_eq_left (Nat.le_add_right 44 _)
  have decodes := decodes_ilp32 file behind
  have chosen : chooseFormat file.nblockAlign.toNat file.nChannels.toNat = some format := by
    rw [← decodes.nblockAlign, ← decodes.nChannels]
    exact accepted
  refine ⟨?_, decodes.dataLen.trans plain.dataLen, ?_⟩
  · rw [Player.period, decodes.nChannels, Nat.mul_assoc, plain.width chosen]
  · rw [WavFile.bytes, List.drop_left, plain.samples]

end WavFile.Plain

/-- A file as it should be is heard. However often the loop has gone round with reads that
give what they are asked for, it comes to its end, and at its end the sound device has got
all the data and no more behind them than fills up a period. -/
theorem file_heard (player : Player) (memory : Nat → UInt8) (garbage : Bytes) {file : WavFile}
    {data trailing : Bytes} (plain : file.Plain data trailing) (ilp32 : player.abi = .ilp32)
    {position : Nat}
    (header : readHeader player.abi garbage file.bytes = some (player.wavheader, position))
    (small : player.period < 2 ^ 31) (isLong : data.length < 2 ^ 31) {counts : List Int}
    {state : Playback × Output}
    (reached : player.playing.run (player.atData memory (file.bytes.drop position)) counts =
      some state)
    (whole : player.playing.StepsSatisfy (fun state => player.WholeRead state.1)
      (player.atData memory (file.bytes.drop position)) counts) :
    player.period = player.frames * file.nblockAlign.toNat ∧
      counts.length ≤ file.samples.length + 1 ∧
        (state.1.running = false →
          state.2.Sounds player.period ((List.range player.period).map memory) data) ∧
          ∃ later final, player.playing.StepsSatisfy (fun state => player.WholeRead state.1)
              state later ∧
            player.playing.run state later = some final ∧ final.1.running = false := by
  rcases plain.opened ilp32 header with ⟨period, correct, behind⟩
  rw [behind] at reached whole
  have positive : 0 < player.period := by
    rw [period]
    exact Nat.mul_pos player.positive plain.nblockAlign_pos
  have limit : (data.length : Int) < player.abi.longLimit := by
    rw [ilp32]
    exact Int.ofNat_lt.mpr isLong
  have winds := windsDown player ((List.range player.period).map memory) data trailing positive
    small limit
  have starts : Heard player ((List.range player.period).map memory) data trailing
      (player.atData memory (data ++ trailing)) :=
    Or.inl ⟨rfl, .start player memory small limit correct⟩
  rcases winds.length_add_work_le starts whole reached with ⟨heard, bound⟩
  refine ⟨period, ?_, fun stopped => ?_, winds.exists_settled heard⟩
  · have all : work (player.atData memory (data ++ trailing)) = file.samples.length + 1 :=
      congrArg (·.length + 1) plain.samples.symm
    omega
  · rcases heard with ⟨running, _⟩ | ⟨_, sounds⟩
    · exact absurd (running.symm.trans stopped) Bool.noConfusion
    · exact sounds

/-- The last of the four samples in mono is followed by two of the period before. -/
theorem file_heard_mono : ∃ final,
    (monoPlayer 3).playing.run ((monoPlayer 3).atData (fun _ => 0) (mono.bytes.drop 44))
        [3, 1, 0] = some final ∧
      (final.2.rounds.map Round.handed).flatten = mono.samples ++ [129, 130] ∧
        final.2.Sounds 3 [0, 0, 0] mono.samples := by
  have plain : mono.Plain mono.samples [] := by
    constructor
    · rfl
    · rfl
    · exact Or.inl rfl
    · exact Or.inl rfl
    · rfl
  have header : readHeader .ilp32 [] mono.bytes = some (mono.header, 44) := by decide
  have ends : ∃ final,
      (monoPlayer 3).playing.run ((monoPlayer 3).atData (fun _ => 0) (mono.bytes.drop 44))
        [3, 1, 0] = some final ∧ final.1.running = false ∧
          (final.2.rounds.map Round.handed).flatten = mono.samples ++ [129, 130] :=
    ⟨_, rfl, rfl, rfl⟩
  rcases ends with ⟨final, reached, ended, handed⟩
  have heard := file_heard (monoPlayer 3) (fun _ => 0) [] plain rfl header (by decide) (by decide)
    reached (by decide)
  exact ⟨final, reached, handed, heard.2.2.1 ended⟩

end RaspberryPi.Wav
