import Mathlib.Logic.Relation
import SnapcastClient.Model.Pipeline

/-! # The steps of a pipeline

Every call of a pipeline is a sequence of a few steps, and what each of them keeps holds of every
pipeline. -/

namespace SnapcastClient

variable {α ρ ε : Type}

/-- The pacer after a chunk was paced and counted. -/
def Pacer.counted (clock : ℕ → ℤ) (chunkUs : ℤ) (q : Pacer) : Pacer :=
  let q := (q.pace clock chunkUs).2
  { q with chunksSinceAnchor := q.chunksSinceAnchor + 1 }

def Pacer.restarted (q : Pacer) : Pacer :=
  { q with t0Us := none, chunksSinceAnchor := 0, paced := q.paced ++ [.restarted] }

namespace Pipeline

variable {S : Setup α ρ ε} {p p' : Pipeline S} {resampler : ρ} {encoder : ε}

inductive Micro (p : Pipeline S) : Pipeline S → Prop where
  | buffered (interleaved : List α) : Micro p (p.buffer interleaved)
  | resampled : Micro p p.resampleBlock.2
  | padded : Micro p p.pad
  | emitted : Micro p p.emitFrame.2
  | reanchored : Micro p p.reanchor

open Relation (ReflTransGen)

/-- A loop takes the steps of its passes. -/
theorem micro_loop {L : FallibleLoop (Pipeline S) Fault} (hbody : ∀ p, Micro p (L.body p).2)
    (p : Pipeline S) : ReflTransGen Micro p (L.run p).2 := by
  refine L.run_rule (P := fun p _ p' => ReflTransGen Micro p p') ?_ ?_ ?_ p
  · exact fun p _ => .refl
  · intro p p' r t _ hpass ih
    have hstep := hbody p
    rw [hpass] at hstep
    exact .head hstep ih
  · intro p p' e _ hfail
    have hstep := hbody p
    rw [hfail] at hstep
    exact .single hstep

theorem micro_emitLoop (p : Pipeline S) : ReflTransGen Micro p p.emitLoop.2 :=
  micro_loop (L := emitting S) (fun _ => .emitted) p

theorem micro_resampleLoop (p : Pipeline S) : ReflTransGen Micro p p.resampleLoop.2 :=
  micro_loop (L := resampling S) (fun _ => .resampled) p

theorem micro_push (p : Pipeline S) (interleaved : List α) :
    ReflTransGen Micro p (p.push interleaved).2 := by
  have hbuffer : Micro p (p.buffer interleaved) := .buffered interleaved
  have hresample := micro_resampleLoop (p.buffer interleaved)
  rw [push]
  split
  · rename_i p' hloop
    rw [hloop] at hresample
    exact (hresample.head hbuffer).trans (micro_emitLoop p')
  · rename_i fault p' hloop
    rw [hloop] at hresample
    exact hresample.head hbuffer

theorem micro_call (p : Pipeline S) (c : Call α) : ReflTransGen Micro p (p.call c).2 := by
  cases c with
  | push interleaved => exact micro_push p interleaved
  | flushWithSilence => exact (micro_emitLoop p.pad).head .padded
  | reanchor => exact .single .reanchored
  | emitFrame => exact .single .emitted

theorem step_eq_some {c : Call α} (h : p.step c = some p') : p' = (p.call c).2 := by
  rw [step] at h
  split at h
  · cases h
  · rename_i hcall
    exact (Option.some.inj h).symm.trans (congrArg Prod.snd hcall).symm

/-- What holds of a new pipeline and is kept by every step holds of every pipeline. -/
theorem invariant_of_reach {I : Pipeline S → Prop} (h : (system S resampler encoder).Reachable p)
    (hfresh : I (fresh resampler encoder)) (hmicro : ∀ p p', I p → Micro p p' → I p') : I p := by
  refine h.invariant ?_ ?_
  · rintro p rfl
    exact hfresh
  · intro p c p' hp _ hstep
    have hsteps := micro_call p c
    rw [← step_eq_some hstep] at hsteps
    clear hstep
    induction hsteps with
    | refl => exact hp
    | tail _ hlast ih => exact hmicro _ _ ih hlast

/-! ## What one step does -/

/-- The pipeline after a block went to the resampler. -/
def resampledBy (p : Pipeline S) (l r : List α) (resampler : ρ) : Pipeline S :=
  { p with
    inL := p.inL.drop S.inChunk, inR := p.inR.drop S.inChunk, resampler
    resampled := p.resampled ++ [(l, r)] }

/-- A block is short, refused or resampled. -/
theorem resampleBlock_cases (p : Pipeline S) :
    (p.inL.length < S.inChunk ∨ p.inR.length < S.inChunk) ∧
        p.resampleBlock = (abort .sliceIndex, p) ∨
      (S.inChunk ≤ p.inL.length ∧ S.inChunk ≤ p.inR.length) ∧
        ((∃ e resampler,
            S.process p.resampler (p.inL.take S.inChunk) (p.inR.take S.inChunk) =
              (.error e, resampler) ∧
            p.resampleBlock = (bail e,
              p.resampledBy (p.inL.take S.inChunk) (p.inR.take S.inChunk) resampler)) ∨
          ∃ outL outR resampler,
            S.process p.resampler (p.inL.take S.inChunk) (p.inR.take S.inChunk) =
              (.ok (outL, outR), resampler) ∧
            p.resampleBlock = (.ok (), {
              p.resampledBy (p.inL.take S.inChunk) (p.inR.take S.inChunk) resampler with
              outL := p.outL ++ outL, outR := p.outR ++ outR
              produced := p.produced ++ [(outL, outR)] })) := by
  rw [resampleBlock]
  split
  · rename_i hshort
    exact .inl ⟨hshort, rfl⟩
  · rename_i hshort
    rw [not_or, Nat.not_lt, Nat.not_lt] at hshort
    refine .inr ⟨hshort, ?_⟩
    dsimp only
    split
    · rename_i e resampler hprocess
      exact .inl ⟨e, resampler, hprocess, rfl⟩
    · rename_i outL outR resampler hprocess
      exact .inr ⟨outL, outR, resampler, hprocess, rfl⟩

/-- The pipeline after a frame went to the encoder. -/
def encodedBy (p : Pipeline S) (encIn : List α) (encoder : ε) : Pipeline S :=
  { p with
    outL := p.outL.drop S.frame, outR := p.outR.drop S.frame, encoder
    handed := p.handed ++ [encIn] }

/-- The buffer that the next frame fills. -/
def encIn (p : Pipeline S) : List α :=
  interleave (p.outL.take S.frame) (p.outR.take S.frame)

/-- A frame is short, refused or broadcast. -/
theorem emitFrame_cases (p : Pipeline S) :
    (p.outL.length < S.frame ∨ p.outR.length < S.frame) ∧
        p.emitFrame = (abort .sliceIndex, p) ∨
      (S.frame ≤ p.outL.length ∧ S.frame ≤ p.outR.length) ∧
        ((∃ e encoder, S.encodeFloat p.encoder p.encIn = (.error e, encoder) ∧
            p.emitFrame = (bail ("opus: " ++ e), p.encodedBy p.encIn encoder)) ∨
          ∃ data encoder, S.encodeFloat p.encoder p.encIn = (.ok data, encoder) ∧
            p.emitFrame = (.ok (), {
              p.encodedBy p.encIn encoder with
              toPacer := p.toPacer.counted S.clock S.chunkUs
              broadcast := p.broadcast ++
                [(p.encIn, ⟨.fromMicros (p.toPacer.pace S.clock S.chunkUs).1, data⟩)] })) := by
  rw [emitFrame]
  split
  · rename_i hshort
    exact .inl ⟨hshort, rfl⟩
  · rename_i hshort
    rw [not_or, Nat.not_lt, Nat.not_lt] at hshort
    refine .inr ⟨hshort, ?_⟩
    have hencIn : interleave (p.outL.take S.frame) (p.outR.take S.frame) = p.encIn := rfl
    rcases hencode : S.encodeFloat p.encoder p.encIn with ⟨e | data, encoder⟩
    · refine .inl ⟨e, encoder, rfl, ?_⟩
      simp only [hencIn, hencode, opus]
      rfl
    · refine .inr ⟨data, encoder, rfl, ?_⟩
      simp only [hencIn, hencode, opus]
      rfl

/-- What a step does to the anchor, and what it broadcasts. -/
theorem Micro.pacer (h : Micro p p') :
    (p'.toPacer = p.toPacer ∧ p'.broadcast = p.broadcast) ∨
      (p'.toPacer = p.toPacer.counted S.clock S.chunkUs ∧ ∃ encIn data,
        p'.broadcast = p.broadcast ++
          [(encIn, ⟨.fromMicros (p.toPacer.pace S.clock S.chunkUs).1, data⟩)]) ∨
      p'.toPacer = p.toPacer.restarted ∧ p'.broadcast = p.broadcast := by
  cases h with
  | buffered interleaved => exact .inl ⟨rfl, rfl⟩
  | resampled =>
      refine .inl ?_
      rcases p.resampleBlock_cases with
        ⟨-, h⟩ | ⟨-, ⟨e, resampler, -, h⟩ | ⟨l, r, resampler, -, h⟩⟩ <;>
          rw [h] <;> exact ⟨rfl, rfl⟩
  | padded =>
      rw [pad]
      dsimp only
      split <;> exact .inl ⟨rfl, rfl⟩
  | emitted =>
      rcases p.emitFrame_cases with
        ⟨-, h⟩ | ⟨-, ⟨e, encoder, -, h⟩ | ⟨data, encoder, -, h⟩⟩ <;> rw [h]
      · exact .inl ⟨rfl, rfl⟩
      · exact .inl ⟨rfl, rfl⟩
      · exact .inr (.inl ⟨rfl, _, _, rfl⟩)
  | reanchored => exact .inr (.inr ⟨rfl, rfl⟩)

/-! ## A pipeline to run -/

/-- A resampler that changes nothing and an encoder of empty packets, on a clock that runs ever
faster. -/
def through : Setup ℤ Unit Unit where
  silence := 0
  newResampler _ _ _ _ _ := .ok ()
  inputFramesNext _ := 882
  process _ l r := (if l.length = r.length then .ok (l, r) else .error "channels", ())
  newEncoder := .ok ()
  setBitrate _ _ := .ok ()
  encodeFloat _ _ := (.ok [], ())
  clock i := 200 * (i * i : ℕ)
  inputFrames_pos _ := by decide
  process_length {s l r outL outR} h := by
    by_cases hlen : l.length = r.length
    · rw [if_pos hlen] at h
      cases h
      exact hlen
    · rw [if_neg hlen] at h
      cases h
  chunkMs := 5
  supported := by decide
  inChunk := 882
  inChunk_pos := by decide

end Pipeline

end SnapcastClient
