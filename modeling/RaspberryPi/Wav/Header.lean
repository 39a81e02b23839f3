import RaspberryPi.Foundation.ByteOrder
import RaspberryPi.Foundation.CString
import RaspberryPi.Foundation.Layout

/-! # The header of a WAV file

`wavHeader` of `wavFile.h` and how `main` of `wavplay.c` reads it, on machines
that store the lowest byte of a number first. -/

namespace RaspberryPi.Wav

open CString (ascii)

/-- What decides about the size of an `unsigned long`. -/
inductive Abi
  | ilp32
  | lp64
deriving DecidableEq

def Abi.longSize : Abi → Nat
  | ilp32 => 4
  | lp64 => 8

inductive Field
  | riffID
  | riffLen
  | waveID
  | fmtID
  | fmtLen
  | fmtTag
  | nChannels
  | sampleRate
  | avgBytesPerSec
  | nblockAlign
  | bitsPerSample
  | dataID
  | dataLen
deriving DecidableEq

def characters (name : Field) : Member Field := ⟨name, 4, 1⟩

def short (name : Field) : Member Field := ⟨name, 2, 2⟩

def long (abi : Abi) (name : Field) : Member Field := ⟨name, abi.longSize, abi.longSize⟩

def wavHeader (abi : Abi) : List (Member Field) :=
  [characters .riffID, long abi .riffLen, characters .waveID, characters .fmtID,
    long abi .fmtLen, short .fmtTag, short .nChannels, long abi .sampleRate,
    long abi .avgBytesPerSec, short .nblockAlign, short .bitsPerSample, characters .dataID,
    long abi .dataLen]

/-- A canonical file: a header of 44 bytes and the samples. -/
structure WavFile where
  riffLen : BitVec 32
  nChannels : BitVec 16
  sampleRate : BitVec 32
  avgBytesPerSec : BitVec 32
  nblockAlign : BitVec 16
  bitsPerSample : BitVec 16
  dataLen : BitVec 32
  samples : Bytes
  nonempty : samples ≠ []

namespace WavFile

def contents (file : WavFile) : Field → Bytes
  | .riffID => ascii ['R', 'I', 'F', 'F']
  | .riffLen => ByteOrder.little.bytes 4 file.riffLen.toNat
  | .waveID => ascii ['W', 'A', 'V', 'E']
  | .fmtID => ascii ['f', 'm', 't', ' ']
  | .fmtLen => ByteOrder.little.bytes 4 16
  | .fmtTag => ByteOrder.little.bytes 2 1
  | .nChannels => ByteOrder.little.bytes 2 file.nChannels.toNat
  | .sampleRate => ByteOrder.little.bytes 4 file.sampleRate.toNat
  | .avgBytesPerSec => ByteOrder.little.bytes 4 file.avgBytesPerSec.toNat
  | .nblockAlign => ByteOrder.little.bytes 2 file.nblockAlign.toNat
  | .bitsPerSample => ByteOrder.little.bytes 2 file.bitsPerSample.toNat
  | .dataID => ascii ['d', 'a', 't', 'a']
  | .dataLen => ByteOrder.little.bytes 4 file.dataLen.toNat

def header (file : WavFile) : Bytes :=
  ([.riffID, .riffLen, .waveID, .fmtID, .fmtLen, .fmtTag, .nChannels, .sampleRate,
    .avgBytesPerSec, .nblockAlign, .bitsPerSample, .dataID, .dataLen].map file.contents).flatten

def bytes (file : WavFile) : Bytes := file.header ++ file.samples

end WavFile

/-- `read(fd, &wavheader, sizeof(wavHeader))` at the beginning of a file: what is then
in the structure, and the position in the file. Reading less than one byte fails. -/
def readHeader (abi : Abi) (wavheader file : Bytes) : Option (Bytes × Nat) :=
  let count := min (Layout.size (wavHeader abi)) file.length
  if count < 1 then none else some (file.take count ++ wavheader.drop count, count)

def value (abi : Abi) (wavheader : Bytes) (name : Field) : Nat :=
  ByteOrder.little.value (Layout.read name (wavHeader abi) wavheader)

structure Decodes (abi : Abi) (file : WavFile) (wavheader : Bytes) (position : Nat) : Prop where
  nChannels : value abi wavheader .nChannels = file.nChannels.toNat
  sampleRate : value abi wavheader .sampleRate = file.sampleRate.toNat
  nblockAlign : value abi wavheader .nblockAlign = file.nblockAlign.toNat
  dataLen : value abi wavheader .dataLen = file.dataLen.toNat
  atSamples : position = file.header.length

variable {abi : Abi}

@[simp] theorem length_header (file : WavFile) : file.header.length = 44 := rfl

theorem read_header (file : WavFile) (name : Field) (behind : Bytes) :
    Layout.read name (wavHeader .ilp32) (file.header ++ behind) = file.contents name := by
  have packed : Layout.Packed 0 (wavHeader .ilp32) := by decide
  have sizes : (wavHeader .ilp32).map Member.size =
      (wavHeader .ilp32).map fun member => (file.contents member.name).length := rfl
  have present : name ∈ (wavHeader .ilp32).map Member.name := by
    cases name <;> decide
  exact Layout.drop_offsetOf sizes present [] behind packed

theorem readHeader_eq (abi : Abi) (file : WavFile) (wavheader : Bytes) :
    ∃ behind, readHeader abi wavheader file.bytes =
      some (file.header ++ behind, min (Layout.size (wavHeader abi)) file.bytes.length) := by
  have size : 44 ≤ Layout.size (wavHeader abi) := by
    cases abi <;> decide
  have length : file.bytes.length = 44 + file.samples.length := by
    rw [WavFile.bytes, List.length_append, length_header]
  have long : 44 ≤ min (Layout.size (wavHeader abi)) file.bytes.length := by omega
  generalize count_eq : min (Layout.size (wavHeader abi)) file.bytes.length = count at long
  have front : file.bytes.take count = file.header ++ file.samples.take (count - 44) := by
    rw [WavFile.bytes, List.take_append, List.take_of_length_le long, length_header]
  refine ⟨file.samples.take (count - 44) ++ wavheader.drop count, ?_⟩
  rw [readHeader, count_eq, if_neg (by omega), front, List.append_assoc]

theorem decodes_ilp32 (file : WavFile) (behind : Bytes) :
    Decodes .ilp32 file (file.header ++ behind) 44 := by
  have decoded : ∀ (name : Field) {width number : Nat}, number < 256 ^ width →
      file.contents name = ByteOrder.little.bytes width number →
      value .ilp32 (file.header ++ behind) name = number := by
    intro name width number fits contents
    rw [value, read_header, contents, ByteOrder.value_bytes _ fits]
  exact ⟨decoded .nChannels file.nChannels.isLt rfl, decoded .sampleRate file.sampleRate.isLt rfl,
    decoded .nblockAlign file.nblockAlign.isLt rfl, decoded .dataLen file.dataLen.isLt rfl, rfl⟩

/-- With a `long` of 8 bytes, the number of channels is read where the file has the bits
of a sample. -/
theorem nChannels_lp64 (file : WavFile) (behind : Bytes) :
    value .lp64 (file.header ++ behind) .nChannels = file.bitsPerSample.toNat := by
  have elsewhere : Layout.read .nChannels (wavHeader .lp64) (file.header ++ behind) =
      Layout.read .bitsPerSample (wavHeader .ilp32) (file.header ++ behind) := rfl
  have contents : file.contents .bitsPerSample =
      ByteOrder.little.bytes 2 file.bitsPerSample.toNat := rfl
  rw [value, elsewhere, read_header, contents, ByteOrder.value_bytes _ file.bitsPerSample.isLt]

def HeaderRead (abi : Abi) (file : WavFile) (wavheader : Bytes) : Prop :=
  ∃ after position, readHeader abi wavheader file.bytes = some (after, position) ∧
    Decodes abi file after position

/-- It does so exactly if a `long` has the 4 bytes that the numbers of the file have. -/
theorem headerRead_iff (abi : Abi) (file : WavFile) (wavheader : Bytes) :
    HeaderRead abi file wavheader ↔ abi.longSize = 4 := by
  have some_ : 0 < file.samples.length := List.length_pos_of_ne_nil file.nonempty
  have length : file.bytes.length = 44 + file.samples.length := by
    rw [WavFile.bytes, List.length_append, length_header]
  rcases readHeader_eq abi file wavheader with ⟨behind, done⟩
  rw [length] at done
  cases abi with
  | ilp32 =>
      have count : min (Layout.size (wavHeader .ilp32)) (44 + file.samples.length) = 44 := by
        have size : Layout.size (wavHeader .ilp32) = 44 := rfl
        omega
      rw [count] at done
      exact iff_of_true ⟨_, _, done, decodes_ilp32 file behind⟩ rfl
  | lp64 =>
      refine iff_of_false ?_ (by decide)
      rintro ⟨after, position, otherwise, decodes⟩
      have count : position = min 72 (44 + file.samples.length) :=
        (Prod.mk.inj (Option.some.inj (otherwise.symm.trans done))).2
      have atSamples := decodes.atSamples
      rw [length_header] at atSamples
      omega

/-- A recording in mono with 8 bits a sample, 8000 times a second. -/
def mono : WavFile where
  riffLen := 40
  nChannels := 1
  sampleRate := 8000
  avgBytesPerSec := 8000
  nblockAlign := 1
  bitsPerSample := 8
  dataLen := 4
  samples := [128, 129, 130, 131]
  nonempty := List.cons_ne_nil _ _

/-- A mono recording of eight bits is read as one with eight channels. -/
theorem not_headerRead_mono : ¬HeaderRead .lp64 mono (List.replicate 72 0) := by
  rintro ⟨after, position, done, decodes⟩
  rcases readHeader_eq .lp64 mono (List.replicate 72 0) with ⟨behind, header⟩
  have same : after = mono.header ++ behind :=
    (Prod.mk.inj (Option.some.inj (done.symm.trans header))).1
  have channels := decodes.nChannels
  rw [same, nChannels_lp64] at channels
  exact absurd channels (by decide)

end RaspberryPi.Wav
