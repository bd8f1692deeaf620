import SnapcastClient.Library.Loop
import SnapcastClient.Library.Transition
import SnapcastClient.Model.Registry

/-! # `Pipeline`

Interleaved samples are resampled, encoded and paced. The resampler, the encoder and the clock
are parameters, and a pipeline records what it hands to them. -/

namespace SnapcastClient

def sourceRate : ℕ := 44100

def outputRate : ℕ := 48000

def resampleInChunk : ℕ := 882

/-- The length of `enc_out`. -/
def encOutBytes : ℕ := 4096

/-- The error of the encoder, by its `Debug` text. -/
def opus {α : Type} : Except String α → Outcome α
  | .ok a => .ok a
  | .error e => bail ("opus: " ++ e)

/-- `rubato`, `audiopus` and the clock, which is looked at in one moment after the other. -/
structure Devices (α ρ ε : Type) where
  silence : α
  newResampler : (fsIn fsOut chunk subChunks channels : ℕ) → Except String ρ
  inputFramesNext : ρ → ℕ
  process : ρ → List α → List α → Except String (List α × List α) × ρ
  newEncoder : Except String ε
  setBitrate : ε → Int32 → Except String ε
  /-- The packet that is written into `enc_out`. -/
  encodeFloat : ε → List α → Except String (List UInt8) × ε
  clock : ℕ → ℤ
  inputFrames_pos : ∀ {r}, newResampler sourceRate outputRate resampleInChunk 2 2 = .ok r →
    0 < inputFramesNext r
  process_length : ∀ {s l r outL outR}, (process s l r).1 = .ok (outL, outR) →
    outL.length = outR.length

/-- What `Pipeline::new` sets once. -/
structure Setup (α ρ ε : Type) extends Devices α ρ ε where
  chunkMs : ℕ
  supported : chunkMs ∈ [5, 10, 20, 40, 60]
  inChunk : ℕ
  inChunk_pos : 0 < inChunk

variable {α ρ ε : Type}

namespace Setup

variable (S : Setup α ρ ε)

def frame : ℕ := outputRate * S.chunkMs / 1000

def chunkUs : ℤ := S.chunkMs * 1000

theorem frame_eq : S.frame = 48 * S.chunkMs := by
  rw [frame, outputRate]
  omega

theorem frame_pos : 0 < S.frame := by
  have h := S.supported
  simp only [List.mem_cons, List.not_mem_nil, or_false] at h
  rw [frame_eq]
  omega

theorem chunkUs_nonneg : 0 ≤ S.chunkUs := by
  rw [chunkUs]
  omega

end Setup

/-- The stereo frames of interleaved samples; an odd last sample is none. -/
def stereoFrames : List α → List (α × α)
  | l :: r :: samples => (l, r) :: stereoFrames samples
  | _ => []

def interleave : List α → List α → List α
  | l :: ls, r :: rs => l :: r :: interleave ls rs
  | _, _ => []

/-- `Vec::resize`. -/
def resize (xs : List α) (n : ℕ) (x : α) : List α :=
  xs.take n ++ List.replicate (n - xs.length) x

/-- One return of `pace`: the timestamp, the reading it was compared with, whether that reading
became the anchor, and the clock at the return. -/
structure Stamp where
  timestamp : ℤ
  compared : ℤ
  reanchored : Bool
  returned : ℤ
  deriving DecidableEq, Repr

inductive PaceEvent where
  | stamped (stamp : Stamp)
  | restarted
  deriving DecidableEq, Repr

/-- A sleep, by the moment of the waking and the time asked for. -/
structure Sleep where
  woke : ℕ
  target : ℤ
  deriving DecidableEq, Repr

/-- The anchor, with a record of the moments used, the sleeps and the returns of `pace`. -/
structure Pacer where
  t0Us : Option ℤ
  chunksSinceAnchor : ℤ
  moments : ℕ
  sleeps : List Sleep
  paced : List PaceEvent

namespace Pacer

variable (clock : ℕ → ℤ)

def nowUs (q : Pacer) : ℤ × Pacer :=
  (clock q.moments, { q with moments := q.moments + 1 })

/-- Sleep until the clock shows `target`. -/
def sleepUntil (q : Pacer) (target : ℤ) : ℤ × Pacer :=
  (clock q.moments,
    { q with moments := q.moments + 1, sleeps := q.sleeps ++ [⟨q.moments, target⟩] })

/-- The anchor, set if there is none. -/
def anchor (q : Pacer) : ℤ × Pacer :=
  match q.t0Us with
  | some t0 => (t0, q)
  | none =>
      let (now, q) := q.nowUs clock
      (now, { q with t0Us := some now })

/-- Sleep until the clock shows `target`, unless it has passed; with the clock afterwards. -/
def wait (q : Pacer) (target : ℤ) : ℤ × Pacer :=
  let (now, q) := q.nowUs clock
  if now < target then q.sleepUntil clock target else (now, q)

def pace (chunkUs : ℤ) (q : Pacer) : ℤ × Pacer :=
  let (t0, q) := q.anchor clock
  let due := t0 + q.chunksSinceAnchor * chunkUs
  let (compared, q) := q.nowUs clock
  let late : Bool := chunkUs < compared - due
  let q := if late then { q with t0Us := some compared, chunksSinceAnchor := 0 } else q
  let target := if late then compared else due
  let (returned, q) := q.wait clock target
  (target, { q with paced := q.paced ++ [.stamped ⟨target, compared, late, returned⟩] })

end Pacer

/-- The buffers and the anchor, with a record of the blocks given to the resampler and its
results, of the buffers handed to the encoder, and of those broadcast. -/
structure Pipeline (S : Setup α ρ ε) extends Pacer where
  resampler : ρ
  inL : List α
  inR : List α
  outL : List α
  outR : List α
  encoder : ε
  resampled : List (List α × List α)
  produced : List (List α × List α)
  handed : List (List α)
  broadcast : List (List α × EncodedChunk)

namespace Pipeline

variable {S : Setup α ρ ε}

def fresh (resampler : ρ) (encoder : ε) : Pipeline S where
  resampler
  inL := []
  inR := []
  outL := []
  outR := []
  encoder
  t0Us := none
  chunksSinceAnchor := 0
  moments := 0
  sleeps := []
  paced := []
  resampled := []
  produced := []
  handed := []
  broadcast := []

def new (D : Devices α ρ ε) (chunkMs : UInt32) (opusBitrate : Int32) :
    Outcome ((S : Setup α ρ ε) × Pipeline S) :=
  if hsupported : chunkMs.toNat ∈ [5, 10, 20, 40, 60] then
    match hresampler : D.newResampler sourceRate outputRate resampleInChunk 2 2 with
    | .error e => bail e
    | .ok resampler => do
      let encoder ← opus D.newEncoder
      let encoder ← opus (D.setBitrate encoder opusBitrate)
      let S : Setup α ρ ε :=
        { D with
          chunkMs := chunkMs.toNat, supported := hsupported
          inChunk := D.inputFramesNext resampler, inChunk_pos := D.inputFrames_pos hresampler }
      return ⟨S, fresh resampler encoder⟩
  else bail s!"chunk_ms must be one of 5, 10, 20, 40, 60 (opus frame sizes), got {chunkMs}"

/-! ## Resampling and encoding -/

/-- `drain(..frame)` panics on a shorter buffer. -/
def emitFrame (p : Pipeline S) : Outcome Unit × Pipeline S :=
  if p.outL.length < S.frame ∨ p.outR.length < S.frame then (abort .sliceIndex, p)
  else
    let encIn := interleave (p.outL.take S.frame) (p.outR.take S.frame)
    let (result, encoder) := S.encodeFloat p.encoder encIn
    let p : Pipeline S :=
      { p with
        outL := p.outL.drop S.frame, outR := p.outR.drop S.frame, encoder := encoder
        handed := p.handed ++ [encIn] }
    match opus result with
    | .error fault => (.error fault, p)
    | .ok data =>
        let (timestamp, pacer) := p.toPacer.pace S.clock S.chunkUs
        (.ok (), { p with
          toPacer := { pacer with chunksSinceAnchor := pacer.chunksSinceAnchor + 1 }
          broadcast := p.broadcast ++ [(encIn, ⟨.fromMicros timestamp, data⟩)] })

theorem emitFrame_length {p p' : Pipeline S} (h : p.emitFrame = (.ok (), p')) :
    p'.outL.length < p.outL.length := by
  rw [emitFrame] at h
  split at h
  · cases h
  · rename_i hlen
    dsimp only at h
    split at h
    · cases h
    · obtain ⟨-, rfl⟩ := Prod.mk.inj h
      have hpos := S.frame_pos
      rw [List.length_drop]
      omega

/-- The loop that emits whole frames. -/
def emitting (S : Setup α ρ ε) : FallibleLoop (Pipeline S) Fault where
  guard p := S.frame ≤ p.outL.length
  body := emitFrame
  size p := p.outL.length
  decreasing := emitFrame_length

def emitLoop (p : Pipeline S) : Outcome Unit × Pipeline S :=
  (emitting S).run p

/-- The body of the loop in `push` that resamples whole blocks. -/
def resampleBlock (p : Pipeline S) : Outcome Unit × Pipeline S :=
  if p.inL.length < S.inChunk ∨ p.inR.length < S.inChunk then (abort .sliceIndex, p)
  else
    let l := p.inL.take S.inChunk
    let r := p.inR.take S.inChunk
    let p : Pipeline S :=
      { p with
        inL := p.inL.drop S.inChunk, inR := p.inR.drop S.inChunk
        resampled := p.resampled ++ [(l, r)] }
    match S.process p.resampler l r with
    | (.error e, resampler) => (bail e, { p with resampler })
    | (.ok (outL, outR), resampler) =>
        (.ok (), { p with
          resampler, outL := p.outL ++ outL, outR := p.outR ++ outR
          produced := p.produced ++ [(outL, outR)] })

theorem resampleBlock_length {p p' : Pipeline S} (h : p.resampleBlock = (.ok (), p')) :
    p'.inL.length < p.inL.length := by
  rw [resampleBlock] at h
  split at h
  · cases h
  · rename_i hlen
    dsimp only at h
    split at h
    · cases h
    · obtain ⟨-, rfl⟩ := Prod.mk.inj h
      have hpos := S.inChunk_pos
      rw [List.length_drop]
      omega

def resampling (S : Setup α ρ ε) : FallibleLoop (Pipeline S) Fault where
  guard p := S.inChunk ≤ p.inL.length
  body := resampleBlock
  size p := p.inL.length
  decreasing := resampleBlock_length

def resampleLoop (p : Pipeline S) : Outcome Unit × Pipeline S :=
  (resampling S).run p

/-- The new frames behind those that wait. -/
def buffer (p : Pipeline S) (interleaved : List α) : Pipeline S :=
  { p with
    inL := p.inL ++ (stereoFrames interleaved).map Prod.fst
    inR := p.inR ++ (stereoFrames interleaved).map Prod.snd }

def push (p : Pipeline S) (interleaved : List α) : Outcome Unit × Pipeline S :=
  match (p.buffer interleaved).resampleLoop with
  | (.ok (), p') => p'.emitLoop
  | (.error fault, p') => (.error fault, p')

/-- Silence up to the next whole frame. -/
def pad (p : Pipeline S) : Pipeline S :=
  let rem := p.outL.length % S.frame
  if rem ≠ 0 then
    let pad := S.frame - rem
    { p with
      outL := resize p.outL (p.outL.length + pad) S.silence
      outR := resize p.outR (p.outR.length + pad) S.silence }
  else p

def flushWithSilence (p : Pipeline S) : Outcome Unit × Pipeline S :=
  p.pad.emitLoop

def reanchor (p : Pipeline S) : Pipeline S :=
  { p with
    t0Us := none, chunksSinceAnchor := 0, inL := [], inR := [], outL := [], outR := []
    paced := p.paced ++ [.restarted] }

/-! ## Runs -/

inductive Call (α : Type) where
  | push (interleaved : List α)
  | flushWithSilence
  | reanchor
  | emitFrame
  deriving DecidableEq, Repr

def call (p : Pipeline S) : Call α → Outcome Unit × Pipeline S
  | .push interleaved => p.push interleaved
  | .flushWithSilence => p.flushWithSilence
  | .reanchor => (.ok (), p.reanchor)
  | .emitFrame => p.emitFrame

/-- The pipeline after a call that returned, with `Ok` or with `Err`. -/
def step (p : Pipeline S) (c : Call α) : Option (Pipeline S) :=
  match p.call c with
  | (.error (.panicked _), _) => none
  | (_, p') => some p'

/-- The runs of a new pipeline. -/
def system (S : Setup α ρ ε) (resampler : ρ) (encoder : ε) :
    TransitionSystem (Pipeline S) (Call α) :=
  .ofStep (fresh resampler encoder) step

end Pipeline

end SnapcastClient
