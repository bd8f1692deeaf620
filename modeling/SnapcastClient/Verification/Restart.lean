import SnapcastClient.Verification.Flush

/-! # What a restart forgets

A restart empties the buffers of a pipeline, but leaves its resampler as the last track left it. -/

namespace SnapcastClient

variable {α ρ ε : Type}

theorem interleaved_length (frames : List (α × α)) :
    (interleaved frames).length = 2 * frames.length := by
  induction frames with
  | nil => rfl
  | cons frame frames ih =>
      rw [show interleaved (frame :: frames) = frame.1 :: frame.2 :: interleaved frames from rfl,
        List.length_cons, List.length_cons, ih, List.length_cons]
      omega

/-- The encoder takes every buffer of one frame. -/
def Setup.Encodes (S : Setup α ρ ε) : Prop :=
  ∀ e buffer, buffer.length = 2 * S.frame → ∃ data, (S.encodeFloat e buffer).1 = .ok data

namespace Pipeline

variable {S : Setup α ρ ε} {p p₁ p₂ : Pipeline S} {resampler : ρ} {encoder : ε}

/-! ## Devices that refuse nothing -/

theorem emitFrame_ok (hencodes : S.Encodes) (hp : p.Aligned) (hlen : S.frame ≤ p.outL.length) :
    p.emitFrame.1 = .ok () := by
  have hout : p.outL.length = p.outR.length := hp.output
  have hbuffer : p.encIn.length = 2 * S.frame := by
    rw [hp.encIn_eq, interleaved_length, List.length_take_of_le (hp.output_length ▸ hlen)]
  obtain ⟨data, hdata⟩ := hencodes p.encoder p.encIn hbuffer
  rcases p.emitFrame_cases with ⟨hshort, -⟩ | ⟨-, ⟨e, encoder, hencode, -⟩ |
    ⟨data', encoder, -, hframe⟩⟩
  · omega
  · rw [hencode] at hdata
    cases hdata
  · rw [hframe]

theorem emitLoop_ok (hencodes : S.Encodes) (hp : p.Aligned) : p.emitLoop.1 = .ok () :=
  FallibleLoop.run_ok (L := emitting S)
    (fun _ hp hguard => emitFrame_ok hencodes hp (of_decide_eq_true hguard))
    (fun _ hp hguard => (emitFrame_flow hp (of_decide_eq_true hguard)).aligned) hp

theorem push_ok (htakes : S.Takes) (hencodes : S.Encodes) (hp : p.Aligned) (samples : List α) :
    (p.push samples).1 = .ok () := by
  have hbuffer := buffer_flow hp samples
  have hok := resampleLoop_ok htakes hbuffer.aligned
  obtain ⟨_, _, hflow⟩ := resampleLoop_flow hbuffer.aligned
  rw [push]
  split
  · rename_i p' hloop
    rw [hloop] at hflow
    exact emitLoop_ok hencodes hflow.aligned
  · rename_i fault p' hloop
    rw [hloop] at hok
    cases hok

theorem pushAll_succeeds (htakes : S.Takes) (hencodes : S.Encodes) (hp : p.Aligned)
    (xss : List (List α)) : p.Succeeds xss := by
  induction xss generalizing p with
  | nil => rintro _ ⟨⟩
  | cons xs xss ih =>
      obtain ⟨_, _, hflow⟩ := push_flow hp xs
      intro result hresult
      rcases List.mem_cons.mp hresult with rfl | hresult
      · exact push_ok htakes hencodes hp xs
      · exact ih hflow.aligned result hresult

/-! ## Two histories -/

/-- The whole frames that the resampler, from a state, makes of frames pushed to an empty
pipeline. -/
def wholeFrames (S : Setup α ρ ε) (r : ρ) (pushed : List (α × α)) : List (List (α × α)) :=
  wholeBlocks S.frame (S.produced r (wholeBlocks S.inChunk pushed))

/-- The buffers that the encoder gets for pushes after a restart. -/
def handedSince (p : Pipeline S) (xss : List (List α)) : List (List α) :=
  (p.reanchor.pushAll xss).handed.drop p.handed.length

theorem handedSince_eq (htakes : S.Takes) (hencodes : S.Encodes) (p : Pipeline S)
    (xss : List (List α)) :
    p.handedSince xss =
      (wholeFrames S p.resampler (xss.flatMap stereoFrames)).map interleaved := by
  have hp : p.reanchor.Aligned := ⟨rfl, rfl⟩
  have hsettled : p.reanchor.Settled := ⟨S.inChunk_pos, S.frame_pos⟩
  obtain ⟨given, handed, hflow⟩ := pushAll_flow hp xss
  obtain ⟨rfl, rfl⟩ :=
    hflow.eq_wholeBlocks (pushAll_settled (pushAll_succeeds htakes hencodes hp xss) (.inr hsettled))
  rw [handedSince, hflow.handed_eq]
  exact List.drop_left

/-- Whatever two histories came before a restart, the encoder then gets the same buffers exactly
when the resampler, as the histories left it, makes the same frames. -/
theorem restart_forgets_iff (htakes : S.Takes) (hencodes : S.Encodes) (p₁ p₂ : Pipeline S)
    (xss : List (List α)) :
    p₁.handedSince xss = p₂.handedSince xss ↔
      wholeFrames S p₁.resampler (xss.flatMap stereoFrames) =
        wholeFrames S p₂.resampler (xss.flatMap stereoFrames) := by
  have hinjective : Function.Injective (interleaved (α := α)) :=
    Function.LeftInverse.injective stereoFrames_interleaved
  rw [handedSince_eq htakes hencodes, handedSince_eq htakes hencodes]
  exact (List.map_injective_iff.mpr hinjective).eq_iff

theorem through_encodes : through.Encodes :=
  fun _ _ _ => ⟨[], rfl⟩

/-- Behind a resampler without a memory, a track leaves no trace. -/
theorem restart_forgets_through :
    let p : Pipeline through := fresh () ()
    (p.pushAll [List.replicate 1800 1]).handedSince [List.replicate 1764 0] =
      p.handedSince [List.replicate 1764 0] := by
  intro p
  have hiff := restart_forgets_iff through_takes through_encodes
    (p.pushAll [List.replicate 1800 1]) p [List.replicate 1764 0]
  have hresampler : (p.pushAll [List.replicate 1800 1]).resampler = p.resampler :=
    PUnit.eq_punit _
  rw [hiff, hresampler]

/-- A resampler from 882 to 960 frames, whose output begins with the end of the block before. -/
def overlapping : Setup ℤ (List (ℤ × ℤ)) Unit where
  silence := 0
  newResampler _ _ _ _ _ := .ok (List.replicate 78 (0, 0))
  inputFramesNext _ := 882
  process overlap l r :=
    let out := overlap ++ l.zip r
    (.ok (out.map Prod.fst, out.map Prod.snd), (l.zip r).drop 804)
  newEncoder := .ok ()
  setBitrate _ _ := .ok ()
  encodeFloat _ _ := (.ok [], ())
  clock i := i
  inputFrames_pos _ := by decide
  process_length h := by
    cases h
    rw [List.length_map, List.length_map]
  chunkMs := 20
  supported := by decide
  inChunk := 882
  inChunk_pos := through.inChunk_pos

/-- Silence after a loud block is not the same as silence alone. -/
theorem restart_remembers :
    let p : Pipeline overlapping := fresh (List.replicate 78 (0, 0)) ()
    let loud : List ℤ := List.replicate 1764 1
    let silent : List ℤ := List.replicate 1764 0
    overlapping.Takes ∧ overlapping.Encodes ∧ p.Succeeds [loud] ∧
      (p.pushAll [loud]).reanchor.Succeeds [silent] ∧ p.reanchor.Succeeds [silent] ∧
        (p.pushAll [loud]).handedSince [silent] ≠ p.handedSince [silent] := by
  intro p loud silent
  refine ⟨fun _ _ _ _ _ => ⟨_, rfl⟩, fun _ _ _ => ⟨[], rfl⟩, ?_, ?_, ?_, ?_⟩
  · exact succeeds_of_isOk (by decide +kernel)
  · exact succeeds_of_isOk (by decide +kernel)
  · exact succeeds_of_isOk (by decide +kernel)
  · decide +kernel

end Pipeline

end SnapcastClient
