import SnapcastClient.Model.Sink
import SnapcastClient.Verification.Flush

/-! # Tracks in a row

A sink starts a track with empty buffers, but with the resampler and the encoder as the tracks
before have left them. -/

namespace SnapcastClient

variable {α β ρ ε : Type}

namespace Pipeline

variable {S : Setup α ρ ε} {p p' q q₁ : Pipeline S}

/-! ## What the encoder made -/

/-- From `p` to `q`, buffers went to the encoder, and the packets it made of them were
broadcast. -/
structure Packed (p q : Pipeline S) (bufs : List (List α)) : Prop where
  handed : q.handed = p.handed ++ bufs
  encoder : q.encoder = Mealy.after S.encodeFloat p.encoder bufs
  data : q.broadcast.map (fun b => b.2.data) =
    p.broadcast.map (fun b => b.2.data) ++ Mealy.values S.encodeFloat p.encoder bufs

theorem Packed.trans {bufs₁ bufs₂ : List (List α)} (h₁ : Packed p q bufs₁)
    (h₂ : Packed q q₁ bufs₂) : Packed p q₁ (bufs₁ ++ bufs₂) where
  handed := by rw [h₂.handed, h₁.handed, List.append_assoc]
  encoder := by rw [h₂.encoder, h₁.encoder, Mealy.after_append]
  data := by rw [h₂.data, h₁.data, h₁.encoder, Mealy.values_append, List.append_assoc]

theorem Packed.of_eq (hhanded : q.handed = p.handed) (hencoder : q.encoder = p.encoder)
    (hbroadcast : q.broadcast = p.broadcast) : Packed p q [] where
  handed := by rw [hhanded, List.append_nil]
  encoder := hencoder
  data := by rw [hbroadcast]; exact (List.append_nil _).symm

theorem Micro.packed (h : Micro p p') : ∃ bufs, Packed p p' bufs := by
  cases h with
  | buffered samples => exact ⟨[], .of_eq rfl rfl rfl⟩
  | resampled =>
      refine ⟨[], ?_⟩
      rcases p.resampleBlock_cases with
        ⟨-, h⟩ | ⟨-, ⟨e, resampler, -, h⟩ | ⟨l, r, resampler, -, h⟩⟩ <;>
          rw [h] <;> exact .of_eq rfl rfl rfl
  | padded =>
      refine ⟨[], ?_⟩
      rw [pad]
      dsimp only
      split <;> exact .of_eq rfl rfl rfl
  | emitted =>
      rcases p.emitFrame_cases with
        ⟨-, h⟩ | ⟨-, ⟨e, encoder, hencode, h⟩ | ⟨data, encoder, hencode, h⟩⟩ <;> rw [h]
      · exact ⟨[], .of_eq rfl rfl rfl⟩
      · refine ⟨[p.encIn], rfl, ?_, ?_⟩
        · rw [Mealy.after, hencode]
          rfl
        · simp [Mealy.values, Mealy.outputs, hencode, Except.toOption, encodedBy]
      · refine ⟨[p.encIn], rfl, ?_, ?_⟩
        · rw [Mealy.after, hencode]
          rfl
        · simp [Mealy.values, Mealy.outputs, hencode, Except.toOption]
  | reanchored => exact ⟨[], .of_eq rfl rfl rfl⟩

theorem packed_of_micros (h : Relation.ReflTransGen Micro p q) : ∃ bufs, Packed p q bufs := by
  induction h with
  | refl => exact ⟨[], .of_eq rfl rfl rfl⟩
  | tail _ hlast ih =>
      obtain ⟨bufs₁, h₁⟩ := ih
      obtain ⟨bufs₂, h₂⟩ := hlast.packed
      exact ⟨_, h₁.trans h₂⟩

/-- The packets broadcast are those that the encoder made of the buffers handed to it. -/
theorem packed_of_reach {resampler : ρ} {encoder : ε}
    (h : (system S resampler encoder).Reachable p) :
    p.broadcast.map (fun b => b.2.data) = Mealy.values S.encodeFloat encoder p.handed := by
  obtain ⟨bufs, hpacked⟩ : ∃ bufs, Packed (fresh resampler encoder) p bufs := by
    refine invariant_of_reach (I := fun p => ∃ bufs, Packed (fresh resampler encoder) p bufs) h
      ⟨[], .of_eq rfl rfl rfl⟩ ?_
    rintro p p' ⟨bufs₁, h₁⟩ hmicro
    obtain ⟨bufs₂, h₂⟩ := hmicro.packed
    exact ⟨_, h₁.trans h₂⟩
  have hhanded : p.handed = bufs := hpacked.handed
  rw [hpacked.data, hhanded]
  rfl

/-! ## Nothing refused -/

/-- As much was broadcast as was handed to the encoder. -/
def Unrefused (p q : Pipeline S) : Prop :=
  q.handed.length + p.broadcast.length = p.handed.length + q.broadcast.length

theorem Unrefused.trans (h₁ : Unrefused p q) (h₂ : Unrefused q q₁) : Unrefused p q₁ := by
  rw [Unrefused] at *
  omega

theorem unrefused_emitFrame (h : p.emitFrame.1 = .ok ()) : Unrefused p p.emitFrame.2 := by
  rcases p.emitFrame_cases with
    ⟨-, hemit⟩ | ⟨-, ⟨e, encoder, -, hemit⟩ | ⟨data, encoder, -, hemit⟩⟩ <;> rw [hemit] at h ⊢
  · cases h
  · cases h
  · simp only [Unrefused, encodedBy, List.length_append, List.length_singleton]
    omega

theorem unrefused_loop {L : FallibleLoop (Pipeline S) Fault}
    (hbody : ∀ p, (L.body p).1 = .ok () → Unrefused p (L.body p).2) (h : (L.run p).1 = .ok ()) :
    Unrefused p (L.run p).2 := by
  revert h
  refine L.run_rule (P := fun p r q => r = .ok () → Unrefused p q) ?_ ?_ ?_ p
  · exact fun p _ _ => rfl
  · intro p p' r q _ hpass ih hr
    have hfirst := hbody p (congrArg Prod.fst hpass)
    rw [hpass] at hfirst
    exact hfirst.trans (ih hr)
  · rintro p p' e - - ⟨⟩

theorem unrefused_emitLoop (h : p.emitLoop.1 = .ok ()) : Unrefused p p.emitLoop.2 :=
  unrefused_loop (L := emitting S) (fun _ => unrefused_emitFrame) h

theorem unrefused_resampleLoop (h : p.resampleLoop.1 = .ok ()) :
    Unrefused p p.resampleLoop.2 := by
  refine unrefused_loop (L := resampling S) (fun p _ => ?_) h
  change Unrefused p p.resampleBlock.2
  rcases p.resampleBlock_cases with
    ⟨-, h⟩ | ⟨-, ⟨e, resampler, -, h⟩ | ⟨l, r, resampler, -, h⟩⟩ <;> rw [h] <;> rfl

theorem unrefused_push {samples : List α} (h : (p.push samples).1 = .ok ()) :
    Unrefused p (p.push samples).2 := by
  have hbuffer : Unrefused p (p.buffer samples) := rfl
  rw [push] at h ⊢
  split at h
  next p' hloop =>
    have hresample := unrefused_resampleLoop (congrArg Prod.fst hloop)
    rw [hloop] at hresample
    exact hbuffer.trans (hresample.trans (unrefused_emitLoop h))
  next => cases h

theorem unrefused_flush (hp : p.Aligned) (h : p.flushWithSilence.1 = .ok ()) :
    Unrefused p p.flushWithSilence.2 := by
  have hpad : Unrefused p p.pad := by
    rw [pad_eq hp]
    rfl
  exact hpad.trans (unrefused_emitLoop h)

/-- Then the encoder accepted every buffer. -/
theorem Packed.accepted {bufs : List (List α)} (h : Packed p q bufs) (hall : Unrefused p q) :
    ∀ answer ∈ Mealy.outputs S.encodeFloat p.encoder bufs, answer.isOk := by
  have hdata := congrArg List.length h.data
  have hhanded := congrArg List.length h.handed
  rw [List.length_map, List.length_append, List.length_map] at hdata
  rw [List.length_append] at hhanded
  refine Mealy.isOk_of_values_length S.encodeFloat ?_
  rw [Unrefused] at hall
  omega

/-- A flush after pushes to an empty pipeline hands the encoder the last of the track's frames. -/
theorem flush_frames {pushed : List (α × α)} {given handed : List (List (α × α))}
    (hempty : p.input = [] ∧ p.output = []) (hflow : Flow p q pushed given handed)
    (hin : q.inL.length < S.inChunk) (hflush : q.flushWithSilence.1 = .ok ()) :
    given = wholeBlocks S.inChunk pushed ∧
      ∃ handed', Flow q.pad q.flushWithSilence.2 [] [] handed' ∧
        handed ++ handed' = frames S p.resampler pushed := by
  obtain ⟨handed', hrest, houtput⟩ := flush_flow hflow.aligned hflush
  have hcutIn := hflow.input
  have hcutOut := hflow.output
  have hcutPad := hrest.output
  rw [hempty.1, List.nil_append] at hcutIn
  rw [hempty.2, List.nil_append] at hcutOut
  obtain ⟨rfl, -⟩ := hcutIn.eq_wholeBlocks (hflow.aligned.input_length ▸ hin)
  refine ⟨rfl, handed', hrest, ?_⟩
  have hpadding : padding S q.output.length =
      padding S (S.produced p.resampler (wholeBlocks S.inChunk pushed)).length := by
    rw [← padding_mod S (S.produced _ _).length, hcutOut.length_eq, Nat.mul_add_mod, padding_mod]
  rw [show S.produced q.pad.resampler [] = [] from rfl, List.append_nil,
    pad_output hflow.aligned, hpadding, houtput] at hcutPad
  exact ((hcutOut.append hcutPad).eq_wholeBlocks S.frame_pos).1

end Pipeline

/-! ## Tracks -/

namespace AudioPacket

/-- The stereo frames of a packet; a packet without samples has none. -/
def frames (narrow : β → α) (packet : AudioPacket β) : List (α × α) :=
  match packet.samples with
  | .ok samples => stereoFrames (samples.map narrow)
  | .error _ => []

end AudioPacket

namespace PipelineSink

variable {S : Setup α ρ ε} {narrow : β → α} {s s' s₁ : PipelineSink S}

/-- The sink after calls that all return `Ok`. -/
def callAll (narrow : β → α) : PipelineSink S → List (Call β) → Option (PipelineSink S)
  | s, [] => some s
  | s, c :: calls =>
      match s.call narrow c with
      | (.ok (), s') => callAll narrow s' calls
      | (.error _, _) => none

def track (packets : List (AudioPacket β)) : List (Call β) :=
  .start :: packets.map .write ++ [.stop]

/-- The frames for the encoder of tracks in a row. The resampler goes on from track to track;
what is left of a track's last block never reaches it. -/
def framesOf (S : Setup α ρ ε) : ρ → List (List (α × α)) → List (List (α × α))
  | _, [] => []
  | r, pushed :: tracks =>
      Pipeline.frames S r pushed ++
        framesOf S (Mealy.after S.resample r (wholeBlocks S.inChunk pushed)) tracks

theorem callAll_cons {c : Call β} {calls : List (Call β)}
    (h : s.callAll narrow (c :: calls) = some s') :
    (s.call narrow c).1 = .ok () ∧ (s.call narrow c).2.callAll narrow calls = some s' := by
  rw [callAll] at h
  split at h
  next hcall =>
    rw [hcall]
    exact ⟨rfl, h⟩
  next => cases h

theorem callAll_append {calls rest : List (Call β)}
    (h : s.callAll narrow (calls ++ rest) = some s') :
    ∃ s₁, s.callAll narrow calls = some s₁ ∧ s₁.callAll narrow rest = some s' := by
  induction calls generalizing s with
  | nil => exact ⟨s, rfl, h⟩
  | cons c calls ih =>
      obtain ⟨hok, h⟩ := callAll_cons h
      obtain ⟨s₁, hcalls, hrest⟩ := ih h
      refine ⟨s₁, ?_, hrest⟩
      rw [callAll, show s.call narrow c = (.ok (), (s.call narrow c).2) from Prod.ext hok rfl]
      exact hcalls

theorem onWrite_eq_ok {γ : Type} {x : Outcome γ} {a : γ} : onWrite x = .ok a ↔ x = .ok a := by
  rcases x with (message | reason) | b <;> simp [onWrite]

/-- A packet that is written is pushed. -/
theorem write_ok {packet : AudioPacket β} (h : (s.write narrow packet).1 = .ok ()) :
    ∃ samples, packet.frames narrow = stereoFrames samples ∧
      (s.pipeline.push samples).1 = .ok () ∧
      (s.write narrow packet).2.pipeline = (s.pipeline.push samples).2 ∧
      (s.write narrow packet).2.events = s.events := by
  obtain ⟨samples | samples⟩ := packet
  · cases h
  · exact ⟨samples.map narrow, rfl, onWrite_eq_ok.mp h, rfl, rfl⟩

theorem stop_ok (h : s.stop.1 = .ok ()) :
    s.pipeline.flushWithSilence.1 = .ok () ∧
      s.stop.2.pipeline = s.pipeline.flushWithSilence.2 ∧
      s.stop.2.events = s.events ++ [.stopped] := by
  simp only [stop] at h ⊢
  split at h
  · cases h
  · rename_i hresult
    exact ⟨onWrite_eq_ok.mp hresult, rfl, rfl⟩

open Pipeline in
/-- What packets in a row do to a sink. -/
structure Written (s s' : PipelineSink S) (pushed : List (α × α)) : Prop where
  flow : ∃ given handed, Flow s.pipeline s'.pipeline pushed given handed
  settled : s'.pipeline.Settled
  packed : ∃ bufs, Packed s.pipeline s'.pipeline bufs
  unrefused : Unrefused s.pipeline s'.pipeline
  events : s'.events = s.events

theorem written_of_callAll {packets : List (AudioPacket β)} (hs : s.pipeline.Aligned)
    (hsettled : s.pipeline.Settled) (h : s.callAll narrow (packets.map .write) = some s') :
    Written s s' (packets.flatMap (AudioPacket.frames narrow)) := by
  induction packets generalizing s with
  | nil =>
      obtain rfl := Option.some.inj h
      exact ⟨⟨[], [], .refl hs⟩, hsettled, ⟨[], .of_eq rfl rfl rfl⟩, rfl, rfl⟩
  | cons packet packets ih =>
      obtain ⟨hok, h⟩ := callAll_cons h
      obtain ⟨samples, hframes, hpush, hpipeline, hevents⟩ := write_ok hok
      obtain ⟨given, handed, hflow⟩ := Pipeline.push_flow hs samples
      have hnext := Pipeline.push_settled hpush
      have hunrefused := Pipeline.unrefused_push hpush
      obtain ⟨bufs, hpacked⟩ := Pipeline.packed_of_micros (Pipeline.micro_push s.pipeline samples)
      rw [← hpipeline] at hflow hnext hunrefused hpacked
      obtain ⟨⟨given', handed', hrest⟩, hlast, ⟨bufs', hpacked'⟩, hunrefused', hevents'⟩ :=
        ih hflow.aligned hnext h
      rw [List.flatMap_cons, hframes]
      exact ⟨⟨_, _, hflow.trans hrest⟩, hlast, ⟨_, hpacked.trans hpacked'⟩,
        hunrefused.trans hunrefused', hevents'.trans hevents⟩

open Pipeline in
/-- What tracks in a row have done when the last of them has ended. -/
structure Played (s s' : PipelineSink S) (tracks : List (List (α × α))) : Prop where
  aligned : s'.pipeline.Aligned
  resampler : s'.pipeline.resampler =
    Mealy.after S.resample s.pipeline.resampler (tracks.flatMap (wholeBlocks S.inChunk))
  packed : Packed s.pipeline s'.pipeline
    ((framesOf S s.pipeline.resampler tracks).map SnapcastClient.interleaved)
  unrefused : Unrefused s.pipeline s'.pipeline
  events : s'.events = s.events ++ tracks.flatMap fun _ => [.started, .stopped]

theorem played_track {packets : List (AudioPacket β)}
    (h : s.callAll narrow (track packets) = some s') :
    Played s s' [packets.flatMap (AudioPacket.frames narrow)] := by
  set pushed := packets.flatMap (AudioPacket.frames narrow) with hpushed
  obtain ⟨-, h⟩ := callAll_cons h
  obtain ⟨s₁, hwrites, hstop⟩ := callAll_append h
  obtain ⟨hok, hend⟩ := callAll_cons hstop
  obtain rfl := Option.some.inj hend
  obtain ⟨hflush, hpipeline, hevents⟩ := stop_ok hok
  -- the buffers are empty when the track starts
  have hstart : s.start.2.pipeline.Aligned := ⟨rfl, rfl⟩
  obtain ⟨⟨given, handed, hflow⟩, hsettled, ⟨bufs, hpacked⟩, hunrefused, hevents₁⟩ :=
    written_of_callAll hstart ⟨S.inChunk_pos, S.frame_pos⟩ hwrites
  obtain ⟨rfl, handed', hrest, hframes⟩ :=
    Pipeline.flush_frames ⟨rfl, rfl⟩ hflow hsettled.input hflush
  have hpad := Pipeline.pad_eq hflow.aligned
  obtain ⟨bufs', hpacked'⟩ : ∃ bufs', Pipeline.Packed s₁.pipeline
      s₁.pipeline.flushWithSilence.2 bufs' :=
    Pipeline.packed_of_micros (Pipeline.micro_call s₁.pipeline .flushWithSilence)
  have hall : Pipeline.Packed s.pipeline s₁.stop.2.pipeline (bufs ++ bufs') := by
    have hstarted : Pipeline.Packed s.pipeline s.start.2.pipeline [] := .of_eq rfl rfl rfl
    have htrans := hstarted.trans (hpacked.trans hpacked')
    rw [hpipeline]
    exact htrans
  have hhanded : s₁.stop.2.pipeline.handed = s.pipeline.handed ++
      (framesOf S s.pipeline.resampler [pushed]).map SnapcastClient.interleaved := by
    have hpadHanded : s₁.pipeline.pad.handed = s₁.pipeline.handed := by rw [hpad]
    rw [hpipeline, hrest.handed_eq, hpadHanded, hflow.handed_eq, List.append_assoc,
      ← List.map_append, hframes, framesOf, framesOf, List.append_nil]
    rfl
  have hbufs := List.append_cancel_left (hall.handed.symm.trans hhanded)
  change Played s s₁.stop.2 [pushed]
  constructor
  case aligned =>
    rw [hpipeline]
    exact hrest.aligned
  case resampler =>
    have hpadResampler : s₁.pipeline.pad.resampler = s₁.pipeline.resampler := by rw [hpad]
    rw [hpipeline, hrest.resampler_eq, hpadResampler, hflow.resampler_eq, List.flatMap_cons,
      List.flatMap_nil, List.append_nil]
    rfl
  case packed => exact hbufs ▸ hall
  case unrefused =>
    rw [hpipeline]
    exact hunrefused.trans (Pipeline.unrefused_flush hflow.aligned hflush)
  case events =>
    rw [hevents, hevents₁]
    exact List.append_assoc _ _ _

theorem framesOf_append (r : ρ) (tracks tracks' : List (List (α × α))) :
    framesOf S r (tracks ++ tracks') = framesOf S r tracks ++
      framesOf S (Mealy.after S.resample r (tracks.flatMap (wholeBlocks S.inChunk))) tracks' := by
  induction tracks generalizing r with
  | nil => rfl
  | cons pushed tracks ih =>
      rw [List.cons_append, framesOf, ih, framesOf, List.append_assoc, List.flatMap_cons,
        Mealy.after_append]

theorem Played.trans {tracks tracks' : List (List (α × α))} (h : Played s s₁ tracks)
    (h' : Played s₁ s' tracks') : Played s s' (tracks ++ tracks') where
  aligned := h'.aligned
  resampler := by rw [h'.resampler, h.resampler, List.flatMap_append, Mealy.after_append]
  packed := by
    rw [framesOf_append, List.map_append, ← h.resampler]
    exact h.packed.trans h'.packed
  unrefused := h.unrefused.trans h'.unrefused
  events := by rw [h'.events, h.events, List.flatMap_append, List.append_assoc]

theorem played_of_callAll {tracks : List (List (AudioPacket β))} (hs : s.pipeline.Aligned)
    (h : s.callAll narrow (tracks.flatMap track) = some s') :
    Played s s' (tracks.map fun packets => packets.flatMap (AudioPacket.frames narrow)) := by
  induction tracks generalizing s with
  | nil =>
      obtain rfl := Option.some.inj h
      exact ⟨hs, rfl, .of_eq rfl rfl rfl, rfl, (List.append_nil _).symm⟩
  | cons packets tracks ih =>
      rw [List.flatMap_cons] at h
      obtain ⟨s₁, htrack, hrest⟩ := callAll_append h
      have hplayed := played_track htrack
      exact hplayed.trans (ih hplayed.aligned hrest)

/-- What a sink has broadcast of tracks in a row. -/
structure Broadcast (s s' : PipelineSink S) (tracks : List (List (α × α))) : Prop where
  /-- The packets are those that the encoder makes of all frames in a row. -/
  data : s'.pipeline.broadcast.map (fun b => b.2.data) =
    s.pipeline.broadcast.map (fun b => b.2.data) ++
      Mealy.values S.encode s.pipeline.encoder (framesOf S s.pipeline.resampler tracks)
  /-- It refuses none of them. -/
  accepted : ∀ answer ∈ Mealy.outputs S.encode s.pipeline.encoder
    (framesOf S s.pipeline.resampler tracks), answer.isOk
  events : s'.events = s.events ++ tracks.flatMap fun _ => [.started, .stopped]

theorem outputs_encode (S : Setup α ρ ε) (e : ε) (frames : List (List (α × α))) :
    Mealy.outputs S.encodeFloat e (frames.map SnapcastClient.interleaved) =
      Mealy.outputs S.encode e frames := by
  induction frames generalizing e with
  | nil => rfl
  | cons frame frames ih => exact congrArg (_ :: ·) (ih _)

/-- Tracks in a row, whose calls all return `Ok`, from any sink with aligned buffers on. -/
theorem broadcast_of_tracks {tracks : List (List (AudioPacket β))} (hs : s.pipeline.Aligned)
    (h : s.callAll narrow (tracks.flatMap track) = some s') :
    Broadcast s s' (tracks.map fun packets => packets.flatMap (AudioPacket.frames narrow)) := by
  have hplayed := played_of_callAll hs h
  have houtputs := outputs_encode S s.pipeline.encoder (framesOf S s.pipeline.resampler
    (tracks.map fun packets => packets.flatMap (AudioPacket.frames narrow)))
  constructor
  case data =>
    rw [hplayed.packed.data, Mealy.values, houtputs]
    rfl
  case accepted =>
    rw [← houtputs]
    exact hplayed.packed.accepted hplayed.unrefused
  case events => exact hplayed.events

/-- Two tracks, of 900 frames in two packets and of 882 frames. -/
theorem broadcast_of_tracks_through :
    let s : PipelineSink Pipeline.through := .new (.fresh () ())
    let tracks : List (List (AudioPacket ℤ)) :=
      [[⟨.ok (List.replicate 600 1)⟩, ⟨.ok (List.replicate 1200 2)⟩],
        [⟨.ok (List.replicate 1764 3)⟩]]
    ∃ s', s'.pipeline.broadcast.length = 8 ∧
      Broadcast s s' (tracks.map fun packets => packets.flatMap (AudioPacket.frames id)) := by
  intro s tracks
  have hrun : (s.callAll id (tracks.flatMap track)).any
      (fun s' => s'.pipeline.broadcast.length = 8) = true := by decide +kernel
  obtain ⟨s', hs', hlen⟩ := (Option.any_eq_true _ _).mp hrun
  exact ⟨s', of_decide_eq_true hlen, broadcast_of_tracks ⟨rfl, rfl⟩ hs'⟩

end PipelineSink

end SnapcastClient
