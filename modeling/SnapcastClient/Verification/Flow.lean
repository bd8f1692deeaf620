import SnapcastClient.Library.Blocks
import SnapcastClient.Library.Mealy
import SnapcastClient.Verification.Pipeline

/-! # The flow of audio

The left and the right buffers are two columns of one list of stereo frames. Whatever calls are
made, the frames pushed are cut into blocks for the resampler, and its output is cut into frames
for the encoder. -/

namespace SnapcastClient

variable {α ρ ε : Type}

/-! ## Interleaved samples -/

/-- The samples of stereo frames. -/
def interleaved (frames : List (α × α)) : List α :=
  interleave (frames.map Prod.fst) (frames.map Prod.snd)

@[simp] theorem stereoFrames_interleaved (frames : List (α × α)) :
    stereoFrames (interleaved frames) = frames := by
  induction frames with
  | nil => rfl
  | cons frame frames ih => exact congrArg (frame :: ·) ih

theorem interleaved_append (xs ys : List (α × α)) :
    interleaved (xs ++ ys) = interleaved xs ++ interleaved ys := by
  induction xs with
  | nil => rfl
  | cons x xs ih => exact congrArg (x.1 :: x.2 :: ·) ih

theorem stereoFrames_append {xs : List α} (h : Even xs.length) (ys : List α) :
    stereoFrames (xs ++ ys) = stereoFrames xs ++ stereoFrames ys := by
  induction xs using stereoFrames.induct with
  | case1 l r xs ih =>
      refine congrArg ((l, r) :: ·) (ih ?_)
      simpa [Nat.even_add] using h
  | case2 xs hxs =>
      match xs, hxs, h with
      | [], _, _ => rfl
      | [x], _, h => simp at h
      | l :: r :: xs, hxs, _ => exact absurd rfl (hxs l r xs)

theorem stereoFrames_flatten {xss : List (List α)} (h : ∀ xs ∈ xss, Even xs.length) :
    stereoFrames xss.flatten = xss.flatMap stereoFrames := by
  induction xss with
  | nil => rfl
  | cons xs xss ih =>
      rw [List.flatten_cons, stereoFrames_append (h xs List.mem_cons_self), List.flatMap_cons,
        ih fun ys hys => h ys (List.mem_cons_of_mem _ hys)]

/-! ## The devices on stereo frames -/

namespace Setup

variable (S : Setup α ρ ε)

/-- The resampler, on blocks of stereo frames. -/
def resample : Mealy ρ (List (α × α)) (Except String (List (α × α))) := fun r block =>
  let (result, r) := S.process r (block.map Prod.fst) (block.map Prod.snd)
  (result.map fun out => out.1.zip out.2, r)

/-- What the resampler makes of blocks in a row. -/
def produced (r : ρ) (blocks : List (List (α × α))) : List (α × α) :=
  (Mealy.values S.resample r blocks).flatten

/-- The encoder, on stereo frames. -/
def encode : Mealy ε (List (α × α)) (Except String (List UInt8)) := fun e frames =>
  S.encodeFloat e (interleaved frames)

theorem produced_append (r : ρ) (xs ys : List (List (α × α))) :
    S.produced r (xs ++ ys) = S.produced r xs ++ S.produced (Mealy.after S.resample r xs) ys := by
  rw [produced, Mealy.values_append, List.flatten_append]
  rfl

/-- The resampler takes every block of `in_chunk` frames. -/
def Takes : Prop :=
  ∀ r l l', l.length = S.inChunk → l'.length = S.inChunk → ∃ out, (S.process r l l').1 = .ok out

end Setup

namespace Pipeline

variable {S : Setup α ρ ε} {p p' q q₁ q₂ : Pipeline S}

/-! ## The buffers as stereo frames -/

def input (p : Pipeline S) : List (α × α) :=
  p.inL.zip p.inR

def output (p : Pipeline S) : List (α × α) :=
  p.outL.zip p.outR

/-- The left and the right buffers have equal lengths. -/
structure Aligned (p : Pipeline S) : Prop where
  input : p.inL.length = p.inR.length
  output : p.outL.length = p.outR.length

theorem Aligned.input_length (hp : p.Aligned) : p.input.length = p.inL.length := by
  rw [Pipeline.input, List.length_zip, ← hp.input, Nat.min_self]

theorem Aligned.output_length (hp : p.Aligned) : p.output.length = p.outL.length := by
  rw [Pipeline.output, List.length_zip, ← hp.output, Nat.min_self]

/-- Less than a block and less than a frame are buffered. -/
structure Settled (p : Pipeline S) : Prop where
  input : p.inL.length < S.inChunk
  output : p.outL.length < S.frame

/-- The frames given to the resampler so far. -/
def resampledFrames (p : Pipeline S) : List (α × α) :=
  p.resampled.flatMap fun block => block.1.zip block.2

/-- The frames it returned. -/
def producedFrames (p : Pipeline S) : List (α × α) :=
  p.produced.flatMap fun out => out.1.zip out.2

/-! ## The flow from one pipeline to a later one -/

/-- From `p` to `q`, `pushed` came in, `given` went to the resampler and `handed` to the
encoder. -/
structure Flow (p q : Pipeline S) (pushed : List (α × α)) (given handed : List (List (α × α))) :
    Prop where
  aligned : q.Aligned
  input : Cut S.inChunk (p.input ++ pushed) given q.input
  resampler_eq : q.resampler = Mealy.after S.resample p.resampler given
  output : Cut S.frame (p.output ++ S.produced p.resampler given) handed q.output
  encoder_eq : q.encoder = Mealy.after S.encode p.encoder handed
  resampled_eq : q.resampledFrames = p.resampledFrames ++ given.flatten
  produced_eq : q.producedFrames = p.producedFrames ++ S.produced p.resampler given
  handed_eq : q.handed = p.handed ++ handed.map interleaved
  broadcast_eq : q.broadcast.map Prod.fst = p.broadcast.map Prod.fst ++
    (Mealy.accepted S.encode p.encoder handed).map interleaved

theorem Flow.refl (hp : p.Aligned) : Flow p p [] [] [] := by
  constructor
  case aligned => exact hp
  case input => exact (List.append_nil p.input).symm ▸ Cut.nil S.inChunk p.input
  case output => exact (List.append_nil p.output).symm ▸ Cut.nil S.frame p.output
  all_goals simp [Mealy.after, Mealy.accepted, Mealy.outputs, Setup.produced, Mealy.values]

theorem Flow.trans {pushed₁ pushed₂ : List (α × α)} {given₁ given₂ handed₁ handed₂}
    (h₁ : Flow p q pushed₁ given₁ handed₁) (h₂ : Flow q q₁ pushed₂ given₂ handed₂) :
    Flow p q₁ (pushed₁ ++ pushed₂) (given₁ ++ given₂) (handed₁ ++ handed₂) := by
  have hproduced := S.produced_append p.resampler given₁ given₂
  rw [← h₁.resampler_eq] at hproduced
  constructor
  case aligned => exact h₂.aligned
  case input =>
    rw [← List.append_assoc]
    exact h₁.input.append h₂.input
  case resampler_eq => rw [h₂.resampler_eq, h₁.resampler_eq, Mealy.after_append]
  case output =>
    rw [hproduced, ← List.append_assoc]
    exact h₁.output.append h₂.output
  case encoder_eq => rw [h₂.encoder_eq, h₁.encoder_eq, Mealy.after_append]
  case resampled_eq => rw [h₂.resampled_eq, h₁.resampled_eq, List.flatten_append, List.append_assoc]
  case produced_eq => rw [h₂.produced_eq, h₁.produced_eq, hproduced, List.append_assoc]
  case handed_eq => rw [h₂.handed_eq, h₁.handed_eq, List.map_append, List.append_assoc]
  case broadcast_eq =>
    rw [h₂.broadcast_eq, h₁.broadcast_eq, h₁.encoder_eq, Mealy.accepted_append, List.map_append,
      List.append_assoc]

/-- The blocks and the frames of a flow that leaves less than one of each are determined. -/
theorem Flow.eq_wholeBlocks {pushed : List (α × α)} {given handed}
    (h : Flow p q pushed given handed) (hq : q.Settled) :
    given = wholeBlocks S.inChunk (p.input ++ pushed) ∧
      handed = wholeBlocks S.frame (p.output ++ S.produced p.resampler given) := by
  have hin := hq.input
  have hout := hq.output
  rw [← h.aligned.input_length] at hin
  rw [← h.aligned.output_length] at hout
  exact ⟨(h.input.eq_wholeBlocks hin).1, (h.output.eq_wholeBlocks hout).1⟩

/-! ## The flow of one step -/

theorem buffer_flow (hp : p.Aligned) (samples : List α) :
    Flow p (p.buffer samples) (stereoFrames samples) [] [] := by
  have hlen : p.inL.length = p.inR.length := hp.input
  have hinput : (p.buffer samples).input = p.input ++ stereoFrames samples := by
    rw [input, buffer, List.zip_append hlen, ← List.unzip_fst, ← List.unzip_snd, List.zip_unzip]
    rfl
  constructor
  case aligned => exact ⟨by simp [buffer, hlen], hp.output⟩
  case input => exact hinput ▸ Cut.nil S.inChunk _
  case output => exact (List.append_nil p.output).symm ▸ Cut.nil S.frame p.output
  all_goals
    simp [Mealy.after, Mealy.accepted, Mealy.outputs, Setup.produced, Mealy.values, buffer,
      resampledFrames, producedFrames]

theorem Aligned.take_input (hp : p.Aligned) (n : ℕ) :
    (p.input.take n).map Prod.fst = p.inL.take n ∧
      (p.input.take n).map Prod.snd = p.inR.take n := by
  rw [Pipeline.input, List.map_take, List.map_take, List.map_fst_zip hp.input.le,
    List.map_snd_zip hp.input.ge]
  exact ⟨rfl, rfl⟩

theorem Aligned.take_output (hp : p.Aligned) (n : ℕ) :
    (p.output.take n).map Prod.fst = p.outL.take n ∧
      (p.output.take n).map Prod.snd = p.outR.take n := by
  rw [Pipeline.output, List.map_take, List.map_take, List.map_fst_zip hp.output.le,
    List.map_snd_zip hp.output.ge]
  exact ⟨rfl, rfl⟩

theorem zip_drop (ls rs : List α) (n : ℕ) : (ls.drop n).zip (rs.drop n) = (ls.zip rs).drop n :=
  List.drop_zipWith.symm

theorem zip_take (ls rs : List α) (n : ℕ) : (ls.take n).zip (rs.take n) = (ls.zip rs).take n :=
  List.take_zipWith.symm

/-- A block that was given to the resampler flowed, whatever became of it. -/
theorem resampleBlock_flow (hp : p.Aligned) (hlen : S.inChunk ≤ p.inL.length) :
    Flow p p.resampleBlock.2 [] [p.input.take S.inChunk] [] := by
  obtain ⟨hleft, hright⟩ := hp.take_input S.inChunk
  have hcut : Cut S.inChunk (p.input ++ []) [p.input.take S.inChunk]
      ((p.inL.drop S.inChunk).zip (p.inR.drop S.inChunk)) := by
    rw [List.append_nil, zip_drop]
    exact .singleton (hp.input_length ▸ hlen)
  have hin : p.inL.length = p.inR.length := hp.input
  have haligned : (p.inL.drop S.inChunk).length = (p.inR.drop S.inChunk).length := by
    rw [List.length_drop, List.length_drop, hin]
  have hblock : (p.inL.take S.inChunk).zip (p.inR.take S.inChunk) = p.input.take S.inChunk :=
    zip_take ..
  rcases p.resampleBlock_cases with ⟨hshort, -⟩ | ⟨-, ⟨e, resampler, hprocess, hresult⟩ |
    ⟨outL, outR, resampler, hprocess, hresult⟩⟩
  · omega
  · have hstep : S.resample p.resampler (p.input.take S.inChunk) = (.error e, resampler) := by
      rw [Setup.resample, hleft, hright, hprocess]
      rfl
    have hproduced : S.produced p.resampler [p.input.take S.inChunk] = [] := by
      simp [Setup.produced, Mealy.values, Mealy.outputs, hstep, Except.toOption]
    rw [hresult]
    constructor
    case aligned => exact ⟨haligned, hp.output⟩
    case input => exact hcut
    case resampler_eq => rw [Mealy.after, hstep]; rfl
    case output =>
      rw [hproduced, List.append_nil]
      exact .nil S.frame p.output
    case resampled_eq => simp [resampledFrames, resampledBy, hblock]
    case produced_eq => rw [hproduced, List.append_nil]; rfl
    all_goals simp [Mealy.after, Mealy.accepted, Mealy.outputs, resampledBy]
  · have hstep : S.resample p.resampler (p.input.take S.inChunk) =
        (.ok (outL.zip outR), resampler) := by
      rw [Setup.resample, hleft, hright, hprocess]
      rfl
    have hproduced : S.produced p.resampler [p.input.take S.inChunk] = outL.zip outR := by
      simp [Setup.produced, Mealy.values, Mealy.outputs, hstep, Except.toOption]
    have hout : outL.length = outR.length := S.process_length (congrArg Prod.fst hprocess)
    rw [hresult]
    constructor
    case aligned => exact ⟨haligned, by simp [hp.output, hout]⟩
    case input => exact hcut
    case resampler_eq => rw [Mealy.after, hstep]; rfl
    case output =>
      rw [hproduced, output, ← List.zip_append hp.output]
      exact .nil S.frame _
    case resampled_eq => simp [resampledFrames, resampledBy, hblock]
    case produced_eq => rw [hproduced]; simp [producedFrames]
    all_goals simp [Mealy.after, Mealy.accepted, Mealy.outputs, resampledBy]

/-- The buffer that the encoder gets holds the frames at the front of the output. -/
theorem Aligned.encIn_eq (hp : p.Aligned) : p.encIn = interleaved (p.output.take S.frame) := by
  obtain ⟨hleft, hright⟩ := hp.take_output S.frame
  rw [encIn, interleaved, hleft, hright]

/-- A frame that was handed to the encoder flowed, whatever became of it. -/
theorem emitFrame_flow (hp : p.Aligned) (hlen : S.frame ≤ p.outL.length) :
    Flow p p.emitFrame.2 [] [] [p.output.take S.frame] := by
  have hcut : Cut S.frame (p.output ++ []) [p.output.take S.frame]
      ((p.outL.drop S.frame).zip (p.outR.drop S.frame)) := by
    rw [List.append_nil, zip_drop]
    exact .singleton (hp.output_length ▸ hlen)
  have hout : p.outL.length = p.outR.length := hp.output
  have haligned : (p.outL.drop S.frame).length = (p.outR.drop S.frame).length := by
    rw [List.length_drop, List.length_drop, hout]
  have hencIn := hp.encIn_eq
  rcases p.emitFrame_cases with ⟨hshort, -⟩ | ⟨-, ⟨e, encoder, hencode, hresult⟩ |
    ⟨data, encoder, hencode, hresult⟩⟩
  · omega
  · have hstep : S.encode p.encoder (p.output.take S.frame) = (.error e, encoder) := by
      rw [Setup.encode, ← hencIn, hencode]
    rw [hresult]
    constructor
    case aligned => exact ⟨hp.input, haligned⟩
    case input => exact (List.append_nil p.input).symm ▸ .nil S.inChunk p.input
    case output => exact hcut
    case encoder_eq => rw [Mealy.after, hstep]; rfl
    case handed_eq => simp [encodedBy, hencIn]
    case broadcast_eq =>
      simp [encodedBy, Mealy.accepted, Mealy.outputs, hstep, Except.isOk, Except.toBool]
    all_goals
      simp [Mealy.after, Setup.produced, Mealy.values, Mealy.outputs, encodedBy, resampledFrames,
        producedFrames]
  · have hstep : S.encode p.encoder (p.output.take S.frame) = (.ok data, encoder) := by
      rw [Setup.encode, ← hencIn, hencode]
    rw [hresult]
    constructor
    case aligned => exact ⟨hp.input, haligned⟩
    case input => exact (List.append_nil p.input).symm ▸ .nil S.inChunk p.input
    case output => exact hcut
    case encoder_eq => rw [Mealy.after, hstep]; rfl
    case handed_eq => simp [encodedBy, hencIn]
    case broadcast_eq =>
      simp [Mealy.accepted, Mealy.outputs, hstep, Except.isOk, Except.toBool, hencIn]
    all_goals
      simp [Mealy.after, Setup.produced, Mealy.values, Mealy.outputs, encodedBy, resampledFrames,
        producedFrames]

/-! ## The flow of a call -/

/-- The flows of a loop's passes join. -/
theorem loop_flow {L : FallibleLoop (Pipeline S) Fault}
    (hbody : ∀ p, p.Aligned → L.guard p = true →
      ∃ given handed, Flow p (L.body p).2 [] given handed)
    (hp : p.Aligned) : ∃ given handed, Flow p (L.run p).2 [] given handed := by
  revert hp
  refine L.run_rule (P := fun p _ q => p.Aligned → ∃ given handed, Flow p q [] given handed)
    ?_ ?_ ?_ p
  · exact fun p _ hp => ⟨[], [], .refl hp⟩
  · intro p p' r q hguard hpass ih hp
    obtain ⟨given₁, handed₁, hflow⟩ := hbody p hp hguard
    rw [hpass] at hflow
    obtain ⟨given₂, handed₂, hrest⟩ := ih hflow.aligned
    exact ⟨_, _, hflow.trans hrest⟩
  · intro p p' e hguard hfail hp
    obtain ⟨given, handed, hflow⟩ := hbody p hp hguard
    rw [hfail] at hflow
    exact ⟨_, _, hflow⟩

theorem resampleLoop_flow (hp : p.Aligned) :
    ∃ given handed, Flow p p.resampleLoop.2 [] given handed :=
  loop_flow (L := resampling S)
    (fun _ hp hguard => ⟨_, _, resampleBlock_flow hp (of_decide_eq_true hguard)⟩) hp

theorem emitLoop_flow (hp : p.Aligned) : ∃ given handed, Flow p p.emitLoop.2 [] given handed :=
  loop_flow (L := emitting S)
    (fun _ hp hguard => ⟨_, _, emitFrame_flow hp (of_decide_eq_true hguard)⟩) hp

theorem push_flow (hp : p.Aligned) (samples : List α) :
    ∃ given handed, Flow p (p.push samples).2 (stereoFrames samples) given handed := by
  have hbuffer := buffer_flow hp samples
  obtain ⟨given₁, handed₁, hresample⟩ := resampleLoop_flow hbuffer.aligned
  have hfirst := hbuffer.trans hresample
  rw [List.append_nil] at hfirst
  rw [push]
  split
  · rename_i p' hloop
    rw [hloop] at hfirst
    obtain ⟨given₂, handed₂, hemit⟩ := emitLoop_flow hfirst.aligned
    have hall := hfirst.trans hemit
    rw [List.append_nil] at hall
    exact ⟨_, _, hall⟩
  · rename_i fault p' hloop
    rw [hloop] at hfirst
    exact ⟨_, _, hfirst⟩

theorem emitFrame_inL (p : Pipeline S) : p.emitFrame.2.inL = p.inL := by
  rcases p.emitFrame_cases with ⟨-, h⟩ | ⟨-, ⟨e, encoder, -, h⟩ | ⟨data, encoder, -, h⟩⟩ <;>
    rw [h] <;> rfl

theorem emitLoop_inL (p : Pipeline S) : p.emitLoop.2.inL = p.inL :=
  FallibleLoop.run_frame (L := emitting S) Pipeline.inL emitFrame_inL p

theorem emitLoop_outL (h : p.emitLoop.1 = .ok ()) : p.emitLoop.2.outL.length < S.frame :=
  Nat.lt_of_not_le (of_decide_eq_false (FallibleLoop.guard_of_run_ok (L := emitting S) h))

/-- A push that succeeds leaves less than a block and less than a frame. -/
theorem push_settled {samples : List α} (h : (p.push samples).1 = .ok ()) :
    (p.push samples).2.Settled := by
  have hin := FallibleLoop.guard_of_run_ok (L := resampling S) (s := p.buffer samples)
  rw [push] at h ⊢
  split at h
  · rename_i p' hloop
    change (p.buffer samples).resampleLoop.1 = _ → _ at hin
    have hin := of_decide_eq_false (hin (congrArg Prod.fst hloop))
    refine ⟨?_, emitLoop_outL h⟩
    rw [emitLoop_inL]
    change ¬ S.inChunk ≤ (p.buffer samples).resampleLoop.2.inL.length at hin
    rw [hloop] at hin
    exact Nat.lt_of_not_le hin
  · cases h

theorem resize_length {xs : List α} {n : ℕ} (h : xs.length ≤ n) (x : α) :
    resize xs n x = xs ++ List.replicate (n - xs.length) x := by
  rw [resize, List.take_of_length_le h]

/-- The silence that fills the last frame. -/
def padding (S : Setup α ρ ε) (n : ℕ) : ℕ :=
  if n % S.frame ≠ 0 then S.frame - n % S.frame else 0

theorem pad_eq (hp : p.Aligned) : p.pad = { p with
    outL := p.outL ++ List.replicate (padding S p.outL.length) S.silence
    outR := p.outR ++ List.replicate (padding S p.outL.length) S.silence } := by
  have hout : p.outL.length = p.outR.length := hp.output
  by_cases hrem : p.outL.length % S.frame ≠ 0
  · simp only [pad, padding, if_pos hrem]
    rw [resize_length (Nat.le_add_right _ _), resize_length (Nat.le_add_right _ _),
      Nat.add_sub_cancel_left, Nat.add_sub_cancel_left]
  · simp only [pad, padding, if_neg hrem, List.replicate_zero, List.append_nil]

theorem pad_aligned (hp : p.Aligned) : p.pad.Aligned := by
  rw [pad_eq hp]
  exact ⟨hp.input, by simp [hp.output]⟩

theorem flushWithSilence_aligned (hp : p.Aligned) : p.flushWithSilence.2.Aligned := by
  obtain ⟨_, _, hflow⟩ := emitLoop_flow (pad_aligned hp)
  exact hflow.aligned

theorem Micro.aligned (hp : p.Aligned) (h : Micro p p') : p'.Aligned := by
  cases h with
  | buffered samples => exact (buffer_flow hp samples).aligned
  | resampled =>
      rcases Nat.lt_or_ge p.inL.length S.inChunk with hlt | hle
      · rw [resampleBlock, if_pos (.inl hlt)]
        exact hp
      · exact (resampleBlock_flow hp hle).aligned
  | padded => exact pad_aligned hp
  | emitted =>
      rcases Nat.lt_or_ge p.outL.length S.frame with hlt | hle
      · rw [emitFrame, if_pos (.inl hlt)]
        exact hp
      · exact (emitFrame_flow hp hle).aligned
  | reanchored => exact ⟨rfl, rfl⟩

theorem aligned_of_reach {resampler : ρ} {encoder : ε}
    (h : (system S resampler encoder).Reachable p) : p.Aligned :=
  invariant_of_reach h ⟨rfl, rfl⟩ fun _ _ hp hmicro => hmicro.aligned hp

/-! ## Pushes in a row -/

/-- The pipeline after pushes in a row, whatever they return. -/
def pushAll (p : Pipeline S) (xss : List (List α)) : Pipeline S :=
  Mealy.after push p xss

/-- Pushes in a row all return `Ok`. -/
def Succeeds (p : Pipeline S) (xss : List (List α)) : Prop :=
  ∀ result ∈ Mealy.outputs push p xss, result = .ok ()

theorem succeeds_of_isOk {xss : List (List α)}
    (h : (Mealy.outputs push p xss).all Except.isOk = true) : p.Succeeds xss := by
  intro result hresult
  have hok := List.all_eq_true.mp h result hresult
  cases result with
  | ok u => rfl
  | error fault => cases hok

theorem pushAll_flow (hp : p.Aligned) (xss : List (List α)) :
    ∃ given handed, Flow p (p.pushAll xss) (xss.flatMap stereoFrames) given handed := by
  induction xss generalizing p with
  | nil => exact ⟨[], [], .refl hp⟩
  | cons xs xss ih =>
      obtain ⟨given₁, handed₁, hpush⟩ := push_flow hp xs
      obtain ⟨given₂, handed₂, hrest⟩ := ih hpush.aligned
      exact ⟨_, _, hpush.trans hrest⟩

theorem pushAll_settled {xss : List (List α)} (hok : p.Succeeds xss)
    (h : xss ≠ [] ∨ p.Settled) : (p.pushAll xss).Settled := by
  induction xss generalizing p with
  | nil => exact h.resolve_left (absurd rfl)
  | cons xs xss ih =>
      exact ih (fun result hresult => hok result (List.mem_cons_of_mem _ hresult))
        (.inr (push_settled (hok _ List.mem_cons_self)))

/-- The buffers handed to the encoder by pushes that succeed. -/
theorem pushAll_handed (hp : p.Aligned) {xss : List (List α)}
    (hwhole : ∀ xs ∈ xss, Even xs.length) (hok : p.Succeeds xss) (h : xss ≠ [] ∨ p.Settled) :
    (p.pushAll xss).handed = p.handed ++ (wholeBlocks S.frame (p.output ++ S.produced p.resampler
      (wholeBlocks S.inChunk (p.input ++ stereoFrames xss.flatten)))).map interleaved := by
  obtain ⟨given, handed, hflow⟩ := pushAll_flow hp xss
  obtain ⟨rfl, rfl⟩ := hflow.eq_wholeBlocks (pushAll_settled hok h)
  rw [hflow.handed_eq, stereoFrames_flatten hwhole]

/-- How samples are cut into pushes makes no difference to the encoder, which gets the output of
the resampler cut into frames, and no call leaves the channels apart. -/
theorem push_splits {resampler : ρ} {encoder : ε} (h : (system S resampler encoder).Reachable p) :
    (∀ xss yss : List (List α), (∀ xs ∈ xss, Even xs.length) → (∀ ys ∈ yss, Even ys.length) →
      xss.flatten = yss.flatten → p.Succeeds xss → p.Succeeds yss →
        (xss ≠ [] ∧ yss ≠ [] ∨ p.Settled) → (p.pushAll xss).handed = (p.pushAll yss).handed) ∧
      (∀ xss : List (List α), (∀ xs ∈ xss, Even xs.length) → p.Succeeds xss →
        (xss ≠ [] ∨ p.Settled) →
          let frames := wholeBlocks S.frame (p.output ++ S.produced p.resampler
            (wholeBlocks S.inChunk (p.input ++ stereoFrames xss.flatten)))
          ∃ handed, (p.pushAll xss).handed = p.handed ++ handed ∧
            handed = frames.map interleaved ∧ handed.map stereoFrames = frames) ∧
      (∀ samples, (p.push samples).1 = .ok () → (p.push samples).2.Settled) ∧
      (∀ samples, (p.push samples).2.Aligned) ∧ p.flushWithSilence.2.Aligned := by
  have hp := aligned_of_reach h
  refine ⟨?_, ?_, fun _ hok => push_settled hok, ?_, flushWithSilence_aligned hp⟩
  · intro xss yss hxss hyss hflatten hxok hyok hne
    rw [pushAll_handed hp hxss hxok (hne.imp And.left id), hflatten,
      pushAll_handed hp hyss hyok (hne.imp And.right id)]
  · intro xss hxss hok hne
    refine ⟨_, pushAll_handed hp hxss hok hne, rfl, ?_⟩
    rw [List.map_map]
    exact (List.map_congr_left fun frame _ => stereoFrames_interleaved frame).trans (List.map_id _)
  · intro samples
    obtain ⟨_, _, hflow⟩ := push_flow hp samples
    exact hflow.aligned

/-- The samples of 882 frames, pushed at once and in two pieces. -/
theorem push_splits_through :
    let p : Pipeline through := fresh () ()
    let piece (n : ℕ) : List ℤ := List.replicate n 1
    (p.pushAll [piece 1764]).handed = (p.pushAll [piece 600, piece 1164]).handed ∧
      (p.pushAll [piece 1764]).handed.length = 3 := by
  intro p piece
  have hsplits := (push_splits (p := p) (.init rfl)).1 [piece 1764] [piece 600, piece 1164]
  refine ⟨hsplits ?_ ?_ ?_ ?_ ?_ ?_, ?_⟩
  case refine_4 => exact succeeds_of_isOk (by decide +kernel)
  case refine_5 => exact succeeds_of_isOk (by decide +kernel)
  case refine_6 => exact .inl ⟨List.cons_ne_nil _ _, List.cons_ne_nil _ _⟩
  all_goals decide +kernel

end Pipeline

end SnapcastClient
