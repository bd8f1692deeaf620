import SnapcastClient.Model.Decoder
import SnapcastClient.Model.Proto

/-! # Decoders and players

What `main` makes of a codec header: a decoder for its chunks, and a player at its rate. -/

namespace SnapcastClient

/-! ## Decoders -/

/-- What the build enables, and the codec libraries. `opusDecode` may fill a buffer of the given
length. -/
structure Codecs (σ : Type) where
  opusFeature : Bool
  flacFeature : Bool
  debugAssertions : Bool
  opusInit : Bool → Except String σ
  opusDecode : σ → List UInt8 → ℕ → Except String (List Int16) × σ
  claxon : Claxon

/-- The debug text of a header's metadata. -/
def CodecMetadata.debug : CodecMetadata → String
  | flac f => "Flac(FlacMetadata \x7b sample_rate: " ++ toString f.sampleRate ++ ", bit_depth: " ++
      toString f.bitDepth ++ ", channel_count: " ++ toString f.channelCount ++ " \x7d)"
  | pcm p => "Pcm(PcmMetadata \x7b channel_count: " ++ toString p.channelCount ++
      ", audio_rate: " ++ toString p.audioRate ++ ", _bit_depth: " ++ toString p.bitDepth ++
      " \x7d)"
  | opus o => "Opus(OpusMetadata \x7b sample_rate: " ++ toString o.sampleRate ++
      ", bit_depth: " ++ toString o.bitDepth ++ ", channel_count: " ++ toString o.channelCount ++
      " \x7d)"

inductive Decoder (σ : Type) where
  | opus (state : σ)
  | pcm
  | flac
  deriving DecidableEq, Repr

namespace Decoder

variable {σ : Type}

/-- `opus_embedded::Channels`, by whether there are two. -/
def stereo (channelCount : UInt16) : Outcome Bool :=
  if channelCount = 1 then .ok false
  else if channelCount = 2 then .ok true
  else abort .assertion

/-- `opus_embedded::SamplingRate` has one value in use. -/
def samplingRate (sampleRate : UInt32) : Outcome Unit :=
  if sampleRate = 48000 then .ok () else abort .assertion

def newOpus (codecs : Codecs σ) (config : OpusMetadata) : Outcome (Decoder σ) := do
  let c ← stereo config.channelCount
  samplingRate config.sampleRate
  match codecs.opusInit c with
  | .ok state => return .opus state
  | .error e => bail s!"making opus decoder: {e}"

/-- The decoder for a codec header. -/
def ofMetadata (codecs : Codecs σ) (metadata : CodecMetadata) : Outcome (Decoder σ) :=
  match metadata with
  | .pcm _ => .ok pcm
  | .flac _ =>
      if codecs.flacFeature then .ok flac
      else bail ("codec disabled at build time: " ++ metadata.debug)
  | .opus cfg =>
      if codecs.opusFeature then newOpus codecs cfg
      else bail ("codec disabled at build time: " ++ metadata.debug)

/-- The number of samples, `out` after the call, and the decoder. -/
def decodeSample (codecs : Codecs σ) (oddAddress : Bool) (buf : List UInt8) (out : List Int16) :
    Decoder σ → Outcome (ℕ × List Int16) × Decoder σ
  | opus state =>
      match codecs.opusDecode state buf out.length with
      | (.ok samples, state) =>
          (.ok (samples.length, samples ++ out.drop samples.length), opus state)
      | (.error _, state) => (bail "decode", opus state)
  | pcm => (NoOpDecoder.decodeSample oddAddress buf out, pcm)
  | flac => (FlacDecoder.decodeSample codecs.claxon codecs.debugAssertions buf out, flac)

end Decoder

/-! ## Players -/

/-- The sound devices are behind the features `alsa` and `pulse`. -/
inductive PlayerBackend where
  | alsa
  | pulse
  | tcp
  | file
  deriving DecidableEq, Repr

/-- `latency_ms`: that of a device, unless its query fails. A file and a connection know of
none. -/
def PlayerBackend.latencyMs (device : Option UInt16) : PlayerBackend → Option UInt16
  | alsa => device
  | pulse => device
  | tcp => some 0
  | file => some 0

/-- A device, a file or a connection, with the bytes it was given. -/
structure Player where
  backend : PlayerBackend
  sampleRate : UInt16
  written : List UInt8
  deriving DecidableEq, Repr

namespace Player

def new (backend : PlayerBackend) (rate : ℕ) : Player where
  backend
  sampleRate := UInt16.ofNat rate
  written := []

/-- The middle of `buf.align_to::<u8>()` on a little-endian machine. -/
def sampleBytes (buf : List Int16) : List UInt8 :=
  buf.flatMap fun x => [UInt8.ofNat (x.toUInt16.toNat % 256), UInt8.ofNat (x.toUInt16.toNat / 256)]

/-- A write that may fail after some bytes. -/
def write (p : Player) (buf : List Int16) : Option ℕ → Bool × Player
  | none => (true, { p with written := p.written ++ sampleBytes buf })
  | some n => (false, { p with written := p.written ++ (sampleBytes buf).take n })

end Player

end SnapcastClient
