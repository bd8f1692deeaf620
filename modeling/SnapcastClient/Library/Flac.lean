import SnapcastClient.Library.LittleEndian
import Mathlib.Data.BitVec

/-! # The start of a FLAC stream

The marker, the header of the first metadata block and that block, STREAMINFO. Its bit fields
are stored big-endian and without padding. -/

namespace Flac

structure StreamInfo where
  minBlockSize : BitVec 16
  maxBlockSize : BitVec 16
  minFrameSize : BitVec 24
  maxFrameSize : BitVec 24
  sampleRate : BitVec 20
  channelsMinusOne : BitVec 3
  bitsPerSampleMinusOne : BitVec 5
  totalSamples : BitVec 36
  md5 : Fin 16 → UInt8

namespace StreamInfo

def channels (info : StreamInfo) : ℕ :=
  info.channelsMinusOne.toNat + 1

def bitsPerSample (info : StreamInfo) : ℕ :=
  info.bitsPerSampleMinusOne.toNat + 1

/-- The eight bytes that hold the rate, the channels, the depth and the length. -/
def format (info : StreamInfo) : BitVec 64 :=
  info.sampleRate ++ info.channelsMinusOne ++ info.bitsPerSampleMinusOne ++ info.totalSamples

def sizes (info : StreamInfo) : List UInt8 :=
  BigEndian.toBytes 2 info.minBlockSize.toNat ++ BigEndian.toBytes 2 info.maxBlockSize.toNat ++
    BigEndian.toBytes 3 info.minFrameSize.toNat ++ BigEndian.toBytes 3 info.maxFrameSize.toNat

def bytes (info : StreamInfo) : List UInt8 :=
  info.sizes ++ BigEndian.toBytes 8 info.format.toNat ++ List.ofFn info.md5

@[simp] theorem sizes_length (info : StreamInfo) : info.sizes.length = 10 := by
  simp [sizes]

theorem toNat_format (info : StreamInfo) :
    info.format.toNat = info.sampleRate.toNat * 2 ^ 44 + info.channelsMinusOne.toNat * 2 ^ 41 +
      info.bitsPerSampleMinusOne.toNat * 2 ^ 36 + info.totalSamples.toNat := by
  have hchannels := info.channelsMinusOne.isLt
  have hbits := info.bitsPerSampleMinusOne.isLt
  have htotal := info.totalSamples.isLt
  rw [format, BitVec.toNat_append, ← Nat.shiftLeft_add_eq_or_of_lt htotal, BitVec.toNat_append,
    ← Nat.shiftLeft_add_eq_or_of_lt hbits, BitVec.toNat_append,
    ← Nat.shiftLeft_add_eq_or_of_lt hchannels]
  simp only [Nat.shiftLeft_eq]
  ring

/-- The upper half of the format word ends with the top four bits of the length. -/
theorem toNat_format_div (info : StreamInfo) :
    info.format.toNat / 256 ^ 4 = info.sampleRate.toNat * 2 ^ 12 +
      info.channelsMinusOne.toNat * 2 ^ 9 + info.bitsPerSampleMinusOne.toNat * 2 ^ 4 +
      info.totalSamples.toNat / 2 ^ 32 := by
  rw [toNat_format]
  omega

end StreamInfo

/-- The bytes of "fLaC". -/
def marker : List UInt8 := [0x66, 0x4C, 0x61, 0x43]

/-- A stream up to the end of STREAMINFO. -/
def streamStart (blockHeader : Fin 4 → UInt8) (info : StreamInfo) : List UInt8 :=
  marker ++ List.ofFn blockHeader ++ info.bytes

/-- The upper half of the format word follows eighteen bytes of other fields. -/
theorem streamStart_eq (blockHeader : Fin 4 → UInt8) (info : StreamInfo) :
    ∃ skipped rest, skipped.length = 14 ∧ streamStart blockHeader info =
      marker ++ (skipped ++ (BigEndian.toBytes 4 (info.format.toNat / 256 ^ 4) ++ rest)) := by
  refine ⟨List.ofFn blockHeader ++ info.sizes,
    BigEndian.toBytes 4 info.format.toNat ++ List.ofFn info.md5, by simp, ?_⟩
  rw [streamStart, StreamInfo.bytes, BigEndian.toBytes_add 4 4]
  simp only [List.append_assoc]

end Flac
