import SnapcastClient.Verification.Flow

/-! # The end of a track

A flush fills the last frame for the encoder, but leaves the last block for the resampler. -/

namespace SnapcastClient

variable {α ρ ε : Type}

theorem flatten_interleaved (frames : List (List (α × α))) :
    (frames.map interleaved).flatten = interleaved frames.flatten := by
  induction frames with
  | nil => rfl
  | cons frame frames ih =>
      rw [List.map_cons, List.flatten_cons, ih, List.flatten_cons, interleaved_append]

namespace Pipeline

variable {S : Setup α ρ ε} {p q : Pipeline S}

/-! ## A resampler that takes every block -/

theorem resampleBlock_ok (htakes : S.Takes) (hp : p.Aligned) (hlen : S.inChunk ≤ p.inL.length) :
    p.resampleBlock.1 = .ok () := by
  have hin : p.inL.length = p.inR.length := hp.input
  obtain ⟨out, hout⟩ := htakes p.resampler (p.inL.take S.inChunk) (p.inR.take S.inChunk)
    (List.length_take_of_le hlen) (List.length_take_of_le (hin ▸ hlen))
  rcases p.resampleBlock_cases with ⟨hshort, -⟩ | ⟨-, ⟨e, resampler, hprocess, -⟩ |
    ⟨outL, outR, resampler, -, hblock⟩⟩
  · omega
  · rw [hprocess] at hout
    cases hout
  · rw [hblock]

theorem resampleLoop_ok (htakes : S.Takes) (hp : p.Aligned) : p.resampleLoop.1 = .ok () :=
  FallibleLoop.run_ok (L := resampling S)
    (fun _ hp hguard => resampleBlock_ok htakes hp (of_decide_eq_true hguard))
    (fun _ hp hguard => (resampleBlock_flow hp (of_decide_eq_true hguard)).aligned) hp

theorem push_inL (htakes : S.Takes) (hp : p.Aligned) (samples : List α) :
    (p.push samples).2.inL.length < S.inChunk := by
  have hbuffer := (buffer_flow hp samples).aligned
  have hok := resampleLoop_ok htakes hbuffer
  have hguard := of_decide_eq_false
    (FallibleLoop.guard_of_run_ok (L := resampling S) (s := p.buffer samples) hok)
  rw [push]
  split
  · rename_i p' hloop
    rw [emitLoop_inL]
    change ¬ S.inChunk ≤ (p.buffer samples).resampleLoop.2.inL.length at hguard
    rw [hloop] at hguard
    exact Nat.lt_of_not_le hguard
  · rename_i fault p' hloop
    rw [hloop] at hok
    cases hok

theorem pushAll_inL (htakes : S.Takes) (hp : p.Aligned) (hin : p.inL.length < S.inChunk)
    (xss : List (List α)) : (p.pushAll xss).inL.length < S.inChunk := by
  induction xss generalizing p with
  | nil => exact hin
  | cons xs xss ih =>
      obtain ⟨_, _, hflow⟩ := push_flow hp xs
      exact ih hflow.aligned (push_inL htakes hp xs)

/-! ## The flow of a flush -/

theorem padding_mod (S : Setup α ρ ε) (n : ℕ) : padding S (n % S.frame) = padding S n := by
  rw [padding, padding, Nat.mod_mod]

theorem padding_lt (S : Setup α ρ ε) (n : ℕ) : padding S n < S.frame := by
  have hpos := S.frame_pos
  rw [padding]
  split <;> omega

theorem add_padding_mod (S : Setup α ρ ε) (n : ℕ) : (n + padding S n) % S.frame = 0 := by
  have hlt := Nat.mod_lt n S.frame_pos
  have hdiv := Nat.div_add_mod n S.frame
  rw [padding]
  split
  · rw [show n + (S.frame - n % S.frame) = S.frame * (n / S.frame + 1) by rw [Nat.mul_succ]; omega]
    exact Nat.mul_mod_right _ _
  · rename_i hzero
    exact not_not.mp hzero

/-- The frames that the encoder gets for frames pushed to an empty pipeline and flushed. -/
def frames (S : Setup α ρ ε) (r : ρ) (pushed : List (α × α)) : List (List (α × α)) :=
  let out := S.produced r (wholeBlocks S.inChunk pushed)
  wholeBlocks S.frame (out ++ List.replicate (padding S out.length) (S.silence, S.silence))

theorem pad_output (hp : p.Aligned) : p.pad.output = p.output ++
    List.replicate (padding S p.output.length) (S.silence, S.silence) := by
  rw [hp.output_length, pad_eq hp, output, List.zip_append hp.output, List.zip_replicate']
  rfl

/-- A flush that succeeds hands the encoder all that is buffered for it, and nothing else
happens to the audio. -/
theorem flush_flow (hp : p.Aligned) (hflush : p.flushWithSilence.1 = .ok ()) :
    ∃ handed, Flow p.pad p.flushWithSilence.2 [] [] handed ∧ p.flushWithSilence.2.output = [] := by
  obtain ⟨given, handed, hflow⟩ := emitLoop_flow (pad_aligned hp)
  have hinput := hflow.input.length_eq
  have hpad : p.pad.inL = p.inL := by rw [pad_eq hp]
  have hgiven : given = [] := by
    rw [List.append_nil, (pad_aligned hp).input_length, hpad, hflow.aligned.input_length,
      emitLoop_inL, hpad] at hinput
    have hzero : S.inChunk * given.length = 0 := by omega
    have hpos := S.inChunk_pos
    exact List.length_eq_zero_iff.mp ((Nat.mul_eq_zero.mp hzero).resolve_left (by omega))
  subst hgiven
  refine ⟨handed, hflow, ?_⟩
  have hlt : p.pad.emitLoop.2.output.length < S.frame := by
    rw [hflow.aligned.output_length]
    exact emitLoop_outL hflush
  have hmod := hflow.output.length_mod hlt
  rw [show S.produced p.pad.resampler [] = [] from rfl, List.append_nil, pad_output hp,
    List.length_append, List.length_replicate, add_padding_mod] at hmod
  exact List.length_eq_zero_iff.mp hmod.symm

/-- What a track, pushed after a restart and flushed, has done when it ends. -/
structure Track (p q : Pipeline S) (pushed : List (α × α)) : Prop where
  aligned : q.Aligned
  input : q.input = partialBlock S.inChunk pushed
  output : q.output = []
  resampled : q.resampledFrames = p.resampledFrames ++ (wholeBlocks S.inChunk pushed).flatten
  produced : q.producedFrames = p.producedFrames ++
    S.produced p.resampler (wholeBlocks S.inChunk pushed)
  broadcast : q.broadcast.map Prod.fst = p.broadcast.map Prod.fst ++
    (Mealy.accepted S.encode p.encoder (frames S p.resampler pushed)).map interleaved

/-- A flush after pushes to an empty pipeline ends a track. -/
theorem track_of_flow {pushed : List (α × α)} {given handed : List (List (α × α))}
    (hempty : p.input = [] ∧ p.output = []) (hflow : Flow p q pushed given handed)
    (hin : q.inL.length < S.inChunk) (hflush : q.flushWithSilence.1 = .ok ()) :
    Track p q.flushWithSilence.2 pushed := by
  obtain ⟨handed', hrest, houtput⟩ := flush_flow hflow.aligned hflush
  have hcutIn := hflow.input
  have hcutOut := hflow.output
  have hcutPad := hrest.output
  rw [hempty.1, List.nil_append] at hcutIn
  rw [hempty.2, List.nil_append] at hcutOut
  obtain ⟨rfl, hleftover⟩ := hcutIn.eq_wholeBlocks (hflow.aligned.input_length ▸ hin)
  set out := S.produced p.resampler (wholeBlocks S.inChunk pushed) with hout
  -- what is left of the output is padded as all of it would be
  have hpadding : padding S q.output.length = padding S out.length := by
    rw [← padding_mod S out.length, hcutOut.length_eq, Nat.mul_add_mod, padding_mod]
  rw [show S.produced q.pad.resampler [] = [] from rfl, List.append_nil,
    pad_output hflow.aligned, hpadding, houtput] at hcutPad
  have hframes : handed ++ handed' = frames S p.resampler pushed :=
    ((hcutOut.append hcutPad).eq_wholeBlocks S.frame_pos).1
  have hpad := pad_eq hflow.aligned
  constructor
  case aligned => exact hrest.aligned
  case input =>
    have hflatten := hrest.input.flatten
    rw [List.append_nil] at hflatten
    rw [← hleftover]
    exact hflatten.trans (by rw [hpad]; rfl)
  case output => exact houtput
  case resampled =>
    have h := hrest.resampled_eq
    rw [List.flatten_nil, List.append_nil] at h
    rw [← hflow.resampled_eq, h, hpad]
    rfl
  case produced =>
    have h := hrest.produced_eq
    rw [show S.produced q.pad.resampler [] = [] from rfl, List.append_nil] at h
    rw [← hflow.produced_eq, h, hpad]
    rfl
  case broadcast =>
    have hencoder : q.pad.encoder = q.encoder := by rw [hpad]
    have hbroadcast : q.pad.broadcast = q.broadcast := by rw [hpad]
    rw [hrest.broadcast_eq, hbroadcast, hflow.broadcast_eq, hencoder, hflow.encoder_eq, ← hframes,
      Mealy.accepted_append, List.map_append, List.append_assoc]

theorem track (htakes : S.Takes) (xss : List (List α)) (hwhole : ∀ xs ∈ xss, Even xs.length)
    (hflush : (p.reanchor.pushAll xss).flushWithSilence.1 = .ok ()) :
    Track p.reanchor (p.reanchor.pushAll xss).flushWithSilence.2 (stereoFrames xss.flatten) := by
  have hp : p.reanchor.Aligned := ⟨rfl, rfl⟩
  obtain ⟨given, handed, hflow⟩ := pushAll_flow hp xss
  rw [← stereoFrames_flatten hwhole] at hflow
  exact track_of_flow ⟨rfl, rfl⟩ hflow (pushAll_inL htakes hp S.inChunk_pos xss) hflush

/-! ## Nothing swallowed -/

/-- From `p` to `q`, all that was pushed went through the resampler, and all that it made of it
was broadcast, with silence at the end. -/
structure Drained (p q : Pipeline S) (pushed : List (α × α)) : Prop where
  inL : q.inL = []
  inR : q.inR = []
  outL : q.outL = []
  outR : q.outR = []
  resampled : q.resampledFrames = p.resampledFrames ++ pushed
  encoded : ∃ produced buffers pad, q.producedFrames = p.producedFrames ++ produced ∧
    q.broadcast.map Prod.fst = p.broadcast.map Prod.fst ++ buffers ∧ pad < S.frame ∧
      stereoFrames buffers.flatten = produced ++ List.replicate pad (S.silence, S.silence)

theorem Aligned.columns_eq_nil (hp : p.Aligned) :
    (p.input = [] ↔ p.inL = [] ∧ p.inR = []) ∧ (p.output = [] ↔ p.outL = [] ∧ p.outR = []) := by
  have hin := hp.input
  have hout := hp.output
  simp only [← List.length_eq_zero_iff, hp.input_length, hp.output_length]
  omega

theorem frames_cut (S : Setup α ρ ε) (r : ρ) (pushed : List (α × α)) :
    let out := S.produced r (wholeBlocks S.inChunk pushed)
    Cut S.frame (out ++ List.replicate (padding S out.length) (S.silence, S.silence))
      (frames S r pushed) [] := by
  intro out
  have hcut := cut_wholeBlocks S.frame
    (out ++ List.replicate (padding S out.length) (S.silence, S.silence))
  have hmod := hcut.length_mod (partialBlock_length S.frame_pos _)
  rw [List.length_append, List.length_replicate, add_padding_mod] at hmod
  rwa [List.length_eq_zero_iff.mp hmod.symm] at hcut

/-- Two numbers of frames that make up for the same output are equal. -/
theorem count_eq {n a b out pad pad' : ℕ} (ha : n * a = out + pad) (hb : n * b = out + pad')
    (hpad : pad < n) (hpad' : pad' < n) : a = b := by
  rcases Nat.lt_trichotomy a b with hlt | heq | hgt
  · have h := Nat.mul_le_mul_left n (Nat.succ_le_of_lt hlt)
    rw [Nat.mul_succ] at h
    omega
  · exact heq
  · have h := Nat.mul_le_mul_left n (Nat.succ_le_of_lt hgt)
    rw [Nat.mul_succ] at h
    omega

/-- What the encoder accepts fills the output up by less than a frame only if it accepts all. -/
theorem accepted_all {r : ρ} {e : ε} {pushed : List (α × α)} {pad : ℕ} (hpad : pad < S.frame)
    (h : (Mealy.accepted S.encode e (frames S r pushed)).flatten =
      S.produced r (wholeBlocks S.inChunk pushed) ++ List.replicate pad (S.silence, S.silence)) :
    ∀ answer ∈ Mealy.outputs S.encode e (frames S r pushed), answer.isOk := by
  have hframes := frames_cut S r pushed
  set kept := Mealy.accepted S.encode e (frames S r pushed) with hkept
  set out := S.produced r (wholeBlocks S.inChunk pushed) with hout
  have hcut : Cut S.frame kept.flatten kept [] := by
    refine ⟨List.append_nil _, fun b hb => hframes.block_length b ?_⟩
    exact Mealy.mem_of_mem_accepted S.encode hb
  have hkeptLen : S.frame * kept.length = out.length + pad := by
    rw [← hcut.flatten_length, h, List.length_append, List.length_replicate]
  have hframesLen : S.frame * (frames S r pushed).length =
      out.length + padding S out.length := by
    have hlen := hframes.length_eq
    rw [List.length_append, List.length_replicate, List.length_nil, Nat.add_zero] at hlen
    exact hlen.symm
  refine (Mealy.accepted_length_eq_iff S.encode e _).mp ?_
  exact count_eq hkeptLen hframesLen hpad (padding_lt S _)

/-- A track is drained exactly when its frames fill whole blocks of the resampler and the encoder
refuses none of the frames that come of them. -/
theorem flush_drains_iff (htakes : S.Takes) (xss : List (List α))
    (hwhole : ∀ xs ∈ xss, Even xs.length)
    (hflush : (p.reanchor.pushAll xss).flushWithSilence.1 = .ok ()) :
    Drained p.reanchor (p.reanchor.pushAll xss).flushWithSilence.2 (stereoFrames xss.flatten) ↔
      (stereoFrames xss.flatten).length % S.inChunk = 0 ∧
        ∀ answer ∈ Mealy.outputs S.encode p.encoder
          (frames S p.resampler (stereoFrames xss.flatten)), answer.isOk := by
  have htrack := track htakes xss hwhole hflush
  generalize (p.reanchor.pushAll xss).flushWithSilence.2 = q at htrack ⊢
  generalize stereoFrames xss.flatten = pushed at htrack ⊢
  have hcut := cut_wholeBlocks S.inChunk pushed
  have hlen := hcut.length_mod (partialBlock_length S.inChunk_pos pushed)
  obtain ⟨hin, hout⟩ := htrack.aligned.columns_eq_nil
  constructor
  · rintro ⟨hinL, hinR, -, -, -, produced, buffers, pad, hproduced, hbuffers, hpad, hencoded⟩
    have hinput := (htrack.input).symm.trans (hin.mpr ⟨hinL, hinR⟩)
    obtain rfl := List.append_cancel_left (htrack.produced.symm.trans hproduced)
    obtain rfl := List.append_cancel_left (htrack.broadcast.symm.trans hbuffers)
    rw [flatten_interleaved, stereoFrames_interleaved] at hencoded
    exact ⟨by rw [hlen, hinput]; rfl, accepted_all hpad hencoded⟩
  · rintro ⟨hmod, haccepts⟩
    have hleftover : partialBlock S.inChunk pushed = [] :=
      List.length_eq_zero_iff.mp (hlen.symm.trans hmod)
    have hflatten := hcut.flatten
    rw [hleftover, List.append_nil] at hflatten
    obtain ⟨hinL, hinR⟩ := hin.mp (htrack.input.trans hleftover)
    obtain ⟨houtL, houtR⟩ := hout.mp htrack.output
    refine ⟨hinL, hinR, houtL, houtR, ?_, _, _,
      padding S (S.produced p.resampler (wholeBlocks S.inChunk pushed)).length, htrack.produced,
      htrack.broadcast, padding_lt S _, ?_⟩
    · rw [htrack.resampled, hflatten]
    · have hframes := (frames_cut S p.resampler pushed).flatten
      rw [List.append_nil] at hframes
      rw [flatten_interleaved, stereoFrames_interleaved]
      exact (congrArg List.flatten (Mealy.accepted_eq_self S.encode haccepts)).trans hframes

theorem through_takes : through.Takes := by
  intro r l l' hl hl'
  exact ⟨(l, l'), by simp only [through, if_pos (hl.trans hl'.symm)]⟩

/-- A track of 882 frames, in two pushes. -/
theorem flush_drains_through :
    let p : Pipeline through := fresh () ()
    let xss : List (List ℤ) := [List.replicate 600 1, List.replicate 1164 2]
    Drained p.reanchor (p.reanchor.pushAll xss).flushWithSilence.2 (stereoFrames xss.flatten) := by
  intro p xss
  refine (flush_drains_iff through_takes xss ?_ ?_).mpr ⟨?_, ?_⟩
  all_goals decide +kernel

/-- A track of one frame, which stays behind in the input. -/
theorem flush_swallows :
    let p : Pipeline through := fresh () ()
    let q := (p.reanchor.pushAll [[1, 2]]).flushWithSilence
    through.Takes ∧ q.1 = .ok () ∧ q.2.inL = [1] ∧ q.2.inR = [2] ∧ q.2.resampledFrames = [] ∧
      ¬ Drained p.reanchor q.2 [(1, 2)] := by
  intro p q
  have hleft : q.2.inL = [1] := by decide +kernel
  refine ⟨through_takes, ?_, hleft, ?_, ?_, fun h => ?_⟩
  · decide +kernel
  · decide +kernel
  · decide +kernel
  · cases hleft.symm.trans h.inL

end Pipeline

end SnapcastClient
