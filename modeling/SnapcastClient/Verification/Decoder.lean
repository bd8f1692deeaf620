import SnapcastClient.Model.Decoder
import SnapcastClient.Model.SerdeJson
import SnapcastClient.Verification.Stream

/-! # Decoding into the sample buffer

Nothing bounds what a chunk decodes to by the sample buffer: a decoder whose samples do not fit
panics. -/

namespace SnapcastClient

/-- A count of samples that fits the sample buffer, or an error. -/
def Bounded (x : Outcome (ℕ × List Int16)) : Prop :=
  (∃ n out, x = .ok (n, out) ∧ n ≤ samplesOut ∧ out.length = samplesOut) ∨
    ∃ message, x = bail message

/-- The call stores `n` samples into a buffer of `len` if `fits`, and panics if not. -/
inductive Stores (x : Outcome (ℕ × List Int16)) (n len : ℕ) (fits : Prop) : Prop where
  | stored (out : List Int16) : fits → x = .ok (n, out) → out.length = len → Stores x n len fits
  | panicked (reason : Panic) : ¬ fits → x = abort reason → Stores x n len fits

theorem Stores.bounded_iff {x : Outcome (ℕ × List Int16)} {n : ℕ} {fits : Prop}
    (h : Stores x n samplesOut fits) (hn : fits → n ≤ samplesOut) : Bounded x ↔ fits := by
  cases h with
  | stored out hfits hx hout => exact iff_of_true (.inl ⟨n, out, hx, hn hfits, hout⟩) hfits
  | panicked reason hfits hx =>
      refine iff_of_false ?_ hfits
      rw [hx]
      rintro (⟨n, out, ⟨⟩, -⟩ | ⟨message, ⟨⟩⟩)

theorem Stores.congr {x : Outcome (ℕ × List Int16)} {n n' len : ℕ} {fits fits' : Prop}
    (h : Stores x n len fits) (hn : n = n') (hfits : fits ↔ fits') : Stores x n' len fits' := by
  obtain rfl := hn
  cases h with
  | stored out hfits' hx hout => exact .stored out (hfits.mp hfits') hx hout
  | panicked reason hfits' hx => exact .panicked reason (hfits.not.mp hfits') hx

/-! ## PCM -/

namespace NoOpDecoder

theorem i16s_length (bytes : List UInt8) : (i16s bytes).length = bytes.length / 2 := by
  induction bytes using i16s.induct with
  | case1 lo hi bytes ih =>
      rw [i16s, List.length_cons, ih, List.length_cons, List.length_cons]
      omega
  | case2 bytes hbytes =>
      match bytes, hbytes with
      | [], _ => rfl
      | [_], _ => simp [i16s]
      | lo :: hi :: bytes, hbytes => exact absurd rfl (hbytes lo hi bytes)

theorem alignTo_length (oddAddress : Bool) (buf : List UInt8) :
    (alignTo oddAddress buf).length = (buf.length - oddAddress.toNat) / 2 := by
  rw [alignTo, i16s_length]
  cases oddAddress <;> simp

theorem decodeSample_stores (oddAddress : Bool) (buf : List UInt8) (out : List Int16) :
    Stores (decodeSample oddAddress buf out) ((buf.length - oddAddress.toNat) / 2) out.length
      ((buf.length - oddAddress.toNat) / 2 ≤ out.length) := by
  have hlen := alignTo_length oddAddress buf
  rw [decodeSample, ← hlen]
  by_cases hle : (alignTo oddAddress buf).length ≤ out.length
  · refine .stored _ hle (if_pos hle) ?_
    rw [List.length_append, List.length_drop]
    omega
  · exact .panicked .sliceIndex hle (if_neg hle)

end NoOpDecoder

/-! ## FLAC -/

namespace Claxon

/-- The stereo samples of a block. -/
def frames (claxon : Claxon) (block : claxon.Block) : List (Int32 × Int32) :=
  match claxon.channels block with
  | [l, r] => l.zip r
  | _ => []

theorem Laws.stereoSamples_eq {claxon : Claxon} (h : claxon.Laws) (block : claxon.Block) :
    claxon.stereoSamples block =
      if (claxon.channels block).length = 2 then .ok (claxon.frames block)
      else abort .assertion := by
  by_cases hstereo : (claxon.channels block).length = 2
  · obtain ⟨l, r, hchannels⟩ := List.length_eq_two.mp hstereo
    rw [if_pos hstereo, h.stereo block l r hchannels, frames, hchannels]
  · rw [if_neg hstereo, h.unpaired block hstereo]

/-- The stereo samples of a single planar block. -/
theorem ofReader_flatMap_frames (l r : List Int32) (payload : List UInt8) :
    ((ofReader fun _ => [⟨[l, r]⟩]).readBlocks payload).flatMap
      (ofReader fun _ => [⟨[l, r]⟩]).frames = l.zip r :=
  List.append_nil _

theorem ofReader_laws (reader : List UInt8 → List FlacBlock) : (ofReader reader).Laws where
  stereo := by
    rintro ⟨channels⟩ l r (rfl : channels = [l, r])
    rfl
  unpaired := by
    rintro ⟨channels⟩ (hlength : channels.length ≠ 2)
    match channels, hlength with
    | [], _ => rfl
    | [_], _ => rfl
    | _ :: _ :: _ :: _, _ => rfl

end Claxon

namespace FlacDecoder

/-- Samples that can be stored from index `c` on. -/
def Fits (debugAssertions : Bool) (c len : ℕ) (samples : List (Int32 × Int32)) : Prop :=
  c + 2 * samples.length ≤ len ∧
    (debugAssertions = true → ∀ frame ∈ samples, InRange frame.1 frame.2)

/-- Both samples of a frame are stored, or one of them is out of bounds. -/
theorem storeSample_pair {β : Type} (out : List Int16) (c : ℕ) (a b : Int16)
    (f : List Int16 → Outcome β) :
    (storeSample out (c + 0) a >>= fun out => storeSample out (c + 1) b >>= f) =
      if c + 2 ≤ out.length then f ((out.set c a).set (c + 1) b) else abort .sliceIndex := by
  by_cases hfirst : c < out.length
  · rw [storeSample, Nat.add_zero, if_pos hfirst, ok_bind, storeSample, List.length_set]
    by_cases hsecond : c + 1 < out.length
    · rw [if_pos hsecond, if_pos (by omega)]
      rfl
    · rw [if_neg hsecond, if_neg (by omega)]
      rfl
  · rw [storeSample, Nat.add_zero, if_neg hfirst, if_neg (by omega)]
    rfl

theorem storeFrames_stores (debugAssertions : Bool) {c : ℕ} {samples : List (Int32 × Int32)}
    {out : List Int16} (hc : c ≤ out.length) :
    Stores (storeFrames debugAssertions c samples out) (c + 2 * samples.length) out.length
      (Fits debugAssertions c out.length samples) := by
  induction samples generalizing c out with
  | nil => exact .stored out ⟨hc, by simp⟩ rfl rfl
  | cons frame samples ih =>
      obtain ⟨a, b⟩ := frame
      by_cases hrange : debugAssertions = true ∧ ¬ InRange a b
      · refine .panicked .assertion ?_ (if_pos hrange)
        exact fun hfits => hrange.2 (hfits.2 hrange.1 (a, b) List.mem_cons_self)
      · rw [storeFrames, if_neg hrange, storeSample_pair]
        by_cases hlen : c + 2 ≤ out.length
        · have hstored : ((out.set c a.toInt16).set (c + 1) b.toInt16).length = out.length := by
            rw [List.length_set, List.length_set]
          have hfirst : debugAssertions = true → InRange a b :=
            fun hdebug => not_not.mp fun hnot => hrange ⟨hdebug, hnot⟩
          have hrest := ih (hlen.trans_eq hstored.symm)
          rw [hstored] at hrest
          rw [if_pos hlen]
          refine hrest.congr (by rw [List.length_cons]; omega) ?_
          rw [Fits, Fits, List.length_cons, List.forall_mem_cons]
          constructor
          · rintro ⟨hle, hall⟩
            exact ⟨by omega, fun hdebug => ⟨hfirst hdebug, hall hdebug⟩⟩
          · rintro ⟨hle, hall⟩
            exact ⟨by omega, fun hdebug => (hall hdebug).2⟩
        · refine .panicked .sliceIndex (fun hfits => ?_) (if_neg hlen)
          have := hfits.1
          rw [List.length_cons] at this
          omega

theorem Fits.append_iff {debugAssertions : Bool} {c len : ℕ} {xs ys : List (Int32 × Int32)} :
    Fits debugAssertions c len (xs ++ ys) ↔
      Fits debugAssertions c len xs ∧ Fits debugAssertions (c + 2 * xs.length) len ys := by
  rw [Fits, Fits, Fits, List.length_append, List.forall_mem_append]
  constructor
  · rintro ⟨hle, hall⟩
    exact ⟨⟨by omega, fun h => (hall h).1⟩, by omega, fun h => (hall h).2⟩
  · rintro ⟨⟨-, hxs⟩, hle, hys⟩
    exact ⟨by omega, fun h => ⟨hxs h, hys h⟩⟩

/-- The conditions under which the blocks from one index on are stored. -/
def BlocksFit (claxon : Claxon) (debugAssertions : Bool) (c len : ℕ)
    (blocks : List claxon.Block) : Prop :=
  (∀ block ∈ blocks, (claxon.channels block).length = 2) ∧
    Fits debugAssertions c len (blocks.flatMap claxon.frames)

theorem storeBlocks_stores {claxon : Claxon} (hclaxon : claxon.Laws) (debugAssertions : Bool)
    {c : ℕ} {blocks : List claxon.Block} {out : List Int16} (hc : c ≤ out.length) :
    Stores (storeBlocks claxon debugAssertions c blocks out)
      (c + 2 * (blocks.flatMap claxon.frames).length) out.length
      (BlocksFit claxon debugAssertions c out.length blocks) := by
  induction blocks generalizing c out with
  | nil => exact .stored out ⟨by simp, hc, by simp⟩ rfl rfl
  | cons block blocks ih =>
      rw [storeBlocks, hclaxon.stereoSamples_eq, BlocksFit, List.forall_mem_cons,
        List.flatMap_cons, Fits.append_iff]
      by_cases hstereo : (claxon.channels block).length = 2
      · rw [if_pos hstereo, ok_bind]
        have hframes : Stores (storeFrames debugAssertions c (claxon.frames block) out) _ _ _ :=
          storeFrames_stores debugAssertions hc
        cases hframes with
        | stored out' hfits hstore hout' =>
            have hle : c + 2 * (claxon.frames block).length ≤ out'.length := hout' ▸ hfits.1
            have hrest := ih hle
            rw [hstore, ok_bind, ← hout']
            rw [← hout'] at hfits
            refine hrest.congr ?_ ?_
            · rw [List.length_append]
              omega
            · exact ⟨fun h => ⟨⟨hstereo, h.1⟩, hfits, h.2⟩, fun h => ⟨h.1.2, h.2.2⟩⟩
        | panicked reason hfits hstore =>
            rw [hstore]
            exact .panicked reason (fun h => hfits h.2.1) rfl
      · rw [if_neg hstereo]
        exact .panicked .assertion (fun h => hstereo h.1.1) rfl

end FlacDecoder

/-! ## The sample buffer of the playing thread -/

theorem NoOpDecoder.bounded_iff (oddAddress : Bool) (payload : List UInt8) {out : List Int16}
    (hout : out.length = samplesOut) :
    Bounded (decodeSample oddAddress payload out) ↔
      (payload.length - oddAddress.toNat) / 2 ≤ samplesOut := by
  have hstores := decodeSample_stores oddAddress payload out
  rw [hout] at hstores
  exact hstores.bounded_iff id

theorem FlacDecoder.bounded_iff {claxon : Claxon} (hclaxon : claxon.Laws) (debugAssertions : Bool)
    (payload : List UInt8) {out : List Int16} (hout : out.length = samplesOut) :
    Bounded (decodeSample claxon debugAssertions payload out) ↔
      BlocksFit claxon debugAssertions 0 samplesOut (claxon.readBlocks payload) := by
  have hstores : Stores (decodeSample claxon debugAssertions payload out) _ _ _ :=
    storeBlocks_stores hclaxon debugAssertions (Nat.zero_le out.length)
  rw [hout] at hstores
  refine hstores.bounded_iff fun h => ?_
  exact h.2.1

/-- The decoders stay inside the sample buffer exactly when it has room for the aligned samples of
the payload, or for the stereo samples of the blocks read from it. With debug assertions these
also have to be in range. -/
theorem decode_bounded_iff (payload : List UInt8) {out : List Int16}
    (hout : out.length = samplesOut) :
    (∀ oddAddress, Bounded (NoOpDecoder.decodeSample oddAddress payload out) ↔
      (payload.length - oddAddress.toNat) / 2 ≤ samplesOut) ∧
    ∀ claxon : Claxon, claxon.Laws → ∀ debugAssertions,
      Bounded (FlacDecoder.decodeSample claxon debugAssertions payload out) ↔
        (∀ block ∈ claxon.readBlocks payload, (claxon.channels block).length = 2) ∧
          2 * ((claxon.readBlocks payload).flatMap claxon.frames).length ≤ samplesOut ∧
            (debugAssertions = true → ∀ frame ∈ (claxon.readBlocks payload).flatMap claxon.frames,
              FlacDecoder.InRange frame.1 frame.2) := by
  refine ⟨fun oddAddress => NoOpDecoder.bounded_iff oddAddress payload hout, ?_⟩
  intro claxon hclaxon debugAssertions
  rw [FlacDecoder.bounded_iff hclaxon debugAssertions payload hout, FlacDecoder.BlocksFit,
    FlacDecoder.Fits, Nat.zero_add]

/-- 2350 frames of PCM fill the sample buffer, and so does a block of as many. -/
theorem decode_bounded_full :
    let out : List Int16 := List.replicate samplesOut 0
    let block : FlacBlock := ⟨[List.replicate 2350 1, List.replicate 2350 (-1)]⟩
    Bounded (NoOpDecoder.decodeSample false (List.replicate 9400 1) out) ∧
      Bounded (FlacDecoder.decodeSample (.ofReader fun _ => [block]) true
        (List.replicate 9400 1) out) := by
  intro out block
  have hout : out.length = samplesOut := List.length_replicate
  obtain ⟨hpcm, hflac⟩ := decode_bounded_iff (List.replicate 9400 1) hout
  refine ⟨(hpcm false).mpr ?_, (hflac _ (Claxon.ofReader_laws _) true).mpr ⟨?_, ?_, ?_⟩⟩
  · rw [List.length_replicate]
    decide
  · exact List.forall_mem_singleton.mpr rfl
  · rw [Claxon.ofReader_flatMap_frames, List.length_zip, List.length_replicate,
      List.length_replicate]
    decide
  · rw [Claxon.ofReader_flatMap_frames, List.zip_replicate']
    intro _ frame hframe
    obtain rfl := List.eq_of_mem_replicate hframe
    decide

/-- The client accepts any payload up to the largest size. -/
theorem exists_wireChunk_frame {payload : List UInt8}
    (h : payload.length ≤ Base.maxPayload - 12) :
    ∃ frame : Frame, frame.base.decode .compact frame.payload =
      .ok (.wireChunk ⟨.zero, payload⟩) :=
  let w : ServerWrite := .wireChunk ⟨.zero, payload⟩ h 0 .zero
  ⟨w.frame, w.decode_payload SerdeJson.compact_settingsLaws⟩

/-- A chunk of 2351 frames of PCM, and one whose only FLAC block has 4096. -/
theorem decode_overruns :
    let payload : List UInt8 := List.replicate 9404 0
    let out : List Int16 := List.replicate samplesOut 0
    let block : FlacBlock := ⟨[List.replicate 4096 0, List.replicate 4096 0]⟩
    (∃ frame : Frame, frame.base.decode .compact frame.payload =
      .ok (.wireChunk ⟨.zero, payload⟩)) ∧
      (∀ oddAddress, ¬ Bounded (NoOpDecoder.decodeSample oddAddress payload out)) ∧
        ∀ debugAssertions,
          ¬ Bounded (FlacDecoder.decodeSample (.ofReader fun _ => [block]) debugAssertions
            payload out) := by
  intro payload out block
  have hpayload : payload.length = 9404 := List.length_replicate
  refine ⟨exists_wireChunk_frame ?_, fun oddAddress => ?_, fun debugAssertions => ?_⟩
  · rw [hpayload]
    decide
  · rw [NoOpDecoder.bounded_iff oddAddress payload List.length_replicate, hpayload]
    cases oddAddress <;> decide
  · rw [FlacDecoder.bounded_iff (Claxon.ofReader_laws _) debugAssertions payload
      List.length_replicate]
    rintro ⟨-, hle, -⟩
    rw [Claxon.ofReader_flatMap_frames, List.length_zip, List.length_replicate, Nat.min_self,
      samplesOut] at hle
    omega

end SnapcastClient
