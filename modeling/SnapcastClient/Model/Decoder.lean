import SnapcastClient.Model.Outcome

/-! # The decoders

`decode_sample` of the PCM and the FLAC decoder, into the sample buffer of the playing thread. -/

namespace SnapcastClient

/-- `vec![0; 4700]` in `handle_samples`. -/
def samplesOut : ℕ := 4700

/-- `out[i] = x`. -/
def storeSample (out : List Int16) (i : ℕ) (x : Int16) : Outcome (List Int16) :=
  if i < out.length then .ok (out.set i x) else abort .sliceIndex

namespace NoOpDecoder

/-- The `i16`s of a little-endian machine; an odd last byte belongs to none. -/
def i16s : List UInt8 → List Int16
  | lo :: hi :: bytes => Int16.ofNat (lo.toNat + 256 * hi.toNat) :: i16s bytes
  | _ => []

/-- The middle of `buf.align_to::<i16>()`. A buffer at an odd address is aligned from its second
byte on. -/
def alignTo (oddAddress : Bool) (buf : List UInt8) : List Int16 :=
  i16s (if oddAddress then buf.drop 1 else buf)

/-- The number of samples, and `out` after the call. -/
def decodeSample (oddAddress : Bool) (buf : List UInt8) (out : List Int16) :
    Outcome (ℕ × List Int16) :=
  let converted := alignTo oddAddress buf
  if converted.length ≤ out.length then
    .ok (converted.length, converted ++ out.drop converted.length)
  else abort .sliceIndex

end NoOpDecoder

/-- What the decoder uses of `claxon`: the blocks that a `FrameReader` reads before it ends or
fails, and the channels and stereo samples of a block. -/
structure Claxon where
  Block : Type
  readBlocks : List UInt8 → List Block
  channels : Block → List (List Int32)
  stereoSamples : Block → Outcome (List (Int32 × Int32))

/-- `stereo_samples` pairs the two channels, and panics unless there are two. -/
structure Claxon.Laws (claxon : Claxon) : Prop where
  stereo : ∀ block l r, claxon.channels block = [l, r] →
    claxon.stereoSamples block = .ok (l.zip r)
  unpaired : ∀ block, (claxon.channels block).length ≠ 2 →
    claxon.stereoSamples block = abort .assertion

/-- A block by its channels. -/
structure FlacBlock where
  channels : List (List Int32)
  deriving DecidableEq, Repr

def FlacBlock.stereoSamples (block : FlacBlock) : Outcome (List (Int32 × Int32)) :=
  match block.channels with
  | [l, r] => .ok (l.zip r)
  | _ => abort .assertion

/-- Blocks by their channels, from some reader. -/
def Claxon.ofReader (reader : List UInt8 → List FlacBlock) : Claxon where
  Block := FlacBlock
  readBlocks := reader
  channels := FlacBlock.channels
  stereoSamples := FlacBlock.stereoSamples

namespace FlacDecoder

/-- The four `debug_assert!`s. -/
def InRange (a b : Int32) : Prop :=
  (a.toInt ≤ 32767 ∧ -32768 ≤ a.toInt) ∧ b.toInt ≤ 32767 ∧ -32768 ≤ b.toInt

instance (a b : Int32) : Decidable (InRange a b) :=
  inferInstanceAs (Decidable (_ ∧ _))

/-- The loop over the samples of a block, from index `c` on. -/
def storeFrames (debugAssertions : Bool) (c : ℕ) :
    List (Int32 × Int32) → List Int16 → Outcome (ℕ × List Int16)
  | [], out => .ok (c, out)
  | (a, b) :: frames, out =>
      if debugAssertions ∧ ¬ InRange a b then abort .assertion
      else do
        let out ← storeSample out (c + 0) a.toInt16
        let out ← storeSample out (c + 1) b.toInt16
        storeFrames debugAssertions (c + 2) frames out

/-- The loop over the blocks. -/
def storeBlocks (claxon : Claxon) (debugAssertions : Bool) (c : ℕ) :
    List claxon.Block → List Int16 → Outcome (ℕ × List Int16)
  | [], out => .ok (c, out)
  | block :: blocks, out => do
      let frames ← claxon.stereoSamples block
      let (c, out) ← storeFrames debugAssertions c frames out
      storeBlocks claxon debugAssertions c blocks out

def decodeSample (claxon : Claxon) (debugAssertions : Bool) (buf : List UInt8)
    (out : List Int16) : Outcome (ℕ × List Int16) :=
  storeBlocks claxon debugAssertions 0 (claxon.readBlocks buf) out

end FlacDecoder

end SnapcastClient
