import SnapcastClient.Library.Flac
import SnapcastClient.Model.Proto
import Mathlib.Data.Fin.VecNotation

/-! # What the client reads from a FLAC header

The masks of the decoder miss the fields: they cut the rate to sixteen bits, take half of the
channel count from the depth, and half of the depth from the length of the stream. -/

namespace SnapcastClient

theorem sliceToU32be_toBytes (n : ℕ) :
    sliceToU32be (BigEndian.toBytes 4 n) = .ok (UInt32.ofNat n) := by
  have hvalue : LittleEndian.ofBytes (LittleEndian.toBytes 4 n) = n % 256 ^ 4 :=
    LittleEndian.ofBytes_toBytes 4 n
  have hmod : UInt32.ofNat (n % 256 ^ 4) = UInt32.ofNat n := by
    apply UInt32.toNat_inj.mp
    simp
  rw [← hmod, ← hvalue]
  rfl

/-- A mask of `w` bits from bit `k` on, shifted down. -/
theorem shiftRight_and_mask (x k w : ℕ) :
    (x &&& (2 ^ w - 1) <<< k) >>> k = x / 2 ^ k % 2 ^ w := by
  rw [Nat.shiftRight_and_distrib, Nat.shiftLeft_shiftRight, Nat.and_two_pow_sub_one_eq_mod,
    Nat.shiftRight_eq_div_pow]

namespace FlacMetadata

/-- What the masks take from the upper half of the format word. -/
structure Masked (word : ℕ) (f : FlacMetadata) : Prop where
  sampleRate : f.sampleRate.toNat = word / 2 ^ 12 % 2 ^ 16
  channelCount : f.channelCount.toNat = word / 2 ^ 8 % 2 ^ 2
  bitDepth : f.bitDepth.toNat = word % 2 ^ 5

theorem ofSlice_streamStart (blockHeader : Fin 4 → UInt8) (info : Flac.StreamInfo) :
    ∃ f, ofSlice (Flac.streamStart blockHeader info) = .ok f ∧
      Masked (info.format.toNat / 256 ^ 4) f := by
  obtain ⟨skipped, rest, hskipped, hstream⟩ := Flac.streamStart_eq blockHeader info
  set upper := info.format.toNat / 256 ^ 4 with hupper
  obtain ⟨word, hword⟩ : ∃ word : UInt32, word.toNat = upper := by
    refine ⟨UInt32.ofNat upper, ?_⟩
    have hlt := info.format.isLt
    exact UInt32.toNat_ofNat_of_lt' (by rw [UInt32.size]; omega)
  have hdrop : slice (Flac.streamStart blockHeader info) 4
      (Flac.streamStart blockHeader info).length =
        .ok (skipped ++ (BigEndian.toBytes 4 upper ++ rest)) :=
    slice_append _ _ (by rw [hstream, List.append_nil]) rfl (by simp [hstream])
  have hfield : slice (skipped ++ (BigEndian.toBytes 4 upper ++ rest)) 14 18 =
      .ok (BigEndian.toBytes 4 upper) :=
    slice_append _ _ rfl hskipped.symm (by simp [hskipped])
  have hread : sliceToU32be (BigEndian.toBytes 4 upper) = .ok word := by
    rw [sliceToU32be_toBytes, ← hword, UInt32.ofNat_toNat]
  refine ⟨_, by rw [ofSlice, hdrop, ok_bind, hfield, ok_bind, hread, ok_bind]; rfl, ?_, ?_, ?_⟩
  · have hmask := shiftRight_and_mask word.toNat 12 16
    simpa [hword] using hmask
  · have hmask := shiftRight_and_mask word.toNat 8 2
    have hsmall : word.toNat / 2 ^ 8 % 2 ^ 2 % 2 ^ 16 = word.toNat / 2 ^ 8 % 2 ^ 2 := by omega
    rw [← hword, ← hsmall, ← hmask]
    rfl
  · have hmask := Nat.and_two_pow_sub_one_eq_mod word.toNat 5
    have hsmall : word.toNat % 2 ^ 5 % 2 ^ 16 = word.toNat % 2 ^ 5 := by omega
    rw [← hword, ← hsmall, ← hmask]
    rfl

/-- The fields and their neighbours in what is read. -/
theorem Masked.eq {info : Flac.StreamInfo} {f : FlacMetadata}
    (h : Masked (info.format.toNat / 256 ^ 4) f) :
    f.sampleRate.toNat = info.sampleRate.toNat % 2 ^ 16 ∧
      f.channelCount.toNat = 2 * (info.channelsMinusOne.toNat % 2) +
        info.bitsPerSampleMinusOne.toNat / 16 ∧
      f.bitDepth.toNat =
        16 * (info.bitsPerSampleMinusOne.toNat % 2) + info.totalSamples.toNat / 2 ^ 32 := by
  obtain ⟨hrate, hchannels, hdepth⟩ := h
  have hchannelsLt := info.channelsMinusOne.isLt
  have hbitsLt := info.bitsPerSampleMinusOne.isLt
  have htotalLt : info.totalSamples.toNat / 2 ^ 32 < 2 ^ 4 := by
    have := info.totalSamples.isLt
    omega
  rw [info.toNat_format_div] at hrate hchannels hdepth
  refine ⟨?_, ?_, ?_⟩
  · rw [hrate]
    omega
  · rw [hchannels]
    omega
  · rw [hdepth]
    omega

/-- The metadata a stream declares. -/
structure Declared (info : Flac.StreamInfo) (f : FlacMetadata) : Prop where
  sampleRate : f.sampleRate.toNat = info.sampleRate.toNat
  channelCount : f.channelCount.toNat = info.channels
  bitDepth : f.bitDepth.toNat = info.bitsPerSample

/-- The misplaced masks still hit the declared values. -/
def Coincides (info : Flac.StreamInfo) : Prop :=
  info.sampleRate.toNat < 2 ^ 16 ∧
    (info.channels = 1 ∧ 16 < info.bitsPerSample ∨ info.channels = 2 ∧ info.bitsPerSample ≤ 16) ∧
    info.bitsPerSample =
      16 * (info.bitsPerSampleMinusOne.toNat % 2) + info.totalSamples.toNat / 2 ^ 32

/-- A FLAC header is always read, and its metadata come out as declared exactly when the rate
is below `2 ^ 16`, the stream is mono of more than sixteen bits or stereo of at most sixteen,
and the low bit of the depth field with the upper four bits of the length spell the depth. -/
theorem ofSlice_declared_iff (blockHeader : Fin 4 → UInt8) (info : Flac.StreamInfo) :
    ∃ f, ofSlice (Flac.streamStart blockHeader info) = .ok f ∧
      (Declared info f ∧ (CodecMetadata.flac f).rate = info.sampleRate.toNat ∧
        (CodecMetadata.flac f).channels = info.channels ↔ Coincides info) := by
  obtain ⟨f, hf, hmasked⟩ := ofSlice_streamStart blockHeader info
  obtain ⟨hrate, hchannels, hdepth⟩ := hmasked.eq
  refine ⟨f, hf, ?_⟩
  have hchannelsLt := info.channelsMinusOne.isLt
  have hbitsLt := info.bitsPerSampleMinusOne.isLt
  constructor
  · rintro ⟨⟨hrate', hchannels', hdepth'⟩, -, -⟩
    refine ⟨by omega, ?_, by rw [← hdepth', hdepth]⟩
    rw [Flac.StreamInfo.channels] at hchannels' ⊢
    rw [Flac.StreamInfo.bitsPerSample]
    omega
  · rintro ⟨hsmall, hformat, hspelled⟩
    have hr : f.sampleRate.toNat = info.sampleRate.toNat := by
      rw [hrate, Nat.mod_eq_of_lt hsmall]
    have hc : f.channelCount.toNat = info.channels := by
      rw [Flac.StreamInfo.channels, Flac.StreamInfo.bitsPerSample] at hformat
      rw [hchannels, Flac.StreamInfo.channels]
      omega
    exact ⟨⟨hr, hc, by rw [hdepth, hspelled]⟩, hr, hc⟩

/-- A stereo stream of 24 bits at 96 kHz. -/
def studio : Flac.StreamInfo where
  minBlockSize := 4096
  maxBlockSize := 4096
  minFrameSize := 0
  maxFrameSize := 0
  sampleRate := 96000
  channelsMinusOne := 1
  bitsPerSampleMinusOne := 23
  totalSamples := 0
  md5 _ := 0

/-- It is read as one of three channels of 16 bits at 30464 Hz. -/
theorem not_declared_studio :
    ofSlice (Flac.streamStart ![0, 0, 0, 34] studio) = .ok ⟨30464, 16, 3⟩ ∧
      ¬ ∀ (blockHeader : Fin 4 → UInt8) (info : Flac.StreamInfo),
        ∃ f, ofSlice (Flac.streamStart blockHeader info) = .ok f ∧ Declared info f := by
  have hread : ofSlice (Flac.streamStart ![0, 0, 0, 34] studio) = .ok ⟨30464, 16, 3⟩ := by
    decide +kernel
  refine ⟨hread, fun hall => ?_⟩
  obtain ⟨f, hf, hdeclared⟩ := hall ![0, 0, 0, 34] studio
  obtain rfl := Except.ok.inj (hread.symm.trans hf)
  exact absurd hdeclared.sampleRate (by decide)

end FlacMetadata

end SnapcastClient
