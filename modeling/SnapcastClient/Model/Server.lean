import SnapcastClient.Model.Net
import SnapcastClient.Model.Sink

/-! # The server program

librespot's player thread feeds the sink, whose pipeline broadcasts every chunk it makes before
it goes on, and the task of the player's events broadcasts the volume. The threads of the
connections run beside both. -/

namespace SnapcastClient

/-- The percentage for librespot's volume. -/
def percent (volume : UInt16) : UInt8 :=
  ((volume.toUInt32 * 100 + 32767) / 65535).toUInt8

variable {α β ρ ε : Type}

/-- A session of the server. `scanned` counts the sink's chunks whose broadcast has begun, and
`volumes` records what librespot reported. -/
structure Server (S : Setup α ρ ε) where
  net : Net
  sink : PipelineSink S
  scanned : ℕ
  volumes : List UInt16

namespace Server

variable {S : Setup α ρ ε}

def start (resampler : ρ) (encoder : ε) (bufferMs : UInt32) : Server S where
  net := .new bufferMs 100
  sink := .new (.fresh resampler encoder)
  scanned := 0
  volumes := []

/-- The last `broadcast_chunk` has returned, its wedged clients disconnected. -/
def Returned (s : Server S) : Prop :=
  s.net.scan = none ∧ s.net.wedged = []

instance (s : Server S) : Decidable s.Returned :=
  inferInstanceAs (Decidable (_ ∧ _))

/-- The chunk that is broadcast next. -/
def next? (s : Server S) : Option EncodedChunk :=
  s.sink.pipeline.broadcast[s.scanned]?.map Prod.snd

inductive Label (β : Type) where
  | thread (l : Net.Label)
  | call (c : PipelineSink.Call β)
  | broadcast
  | volumeChanged (volume : UInt16)

/-- What the calls of `broadcast_chunk` and `broadcast_settings` begin with is left to the threads
that make them. -/
def begins : Net.Label → Bool
  | .startScan _ => true
  | .storeVolume _ => true
  | _ => false

/-- The sink returns from a call when all its chunks are broadcast, and the task takes the next
event when the settings are sent. -/
def netLabel? (s : Server S) : Label β → Option Net.Label
  | .thread l => if begins l then none else some l
  | .call _ => none
  | .broadcast => if s.Returned then s.next?.map .startScan else none
  | .volumeChanged volume =>
      if s.net.pending = [] then some (.storeVolume (percent volume)) else none

def step (json : SerdeJson) (narrow : β → α) (s : Server S) (l : Label β) : Option (Server S) :=
  match l with
  | .call c =>
      if s.Returned ∧ s.scanned = s.sink.pipeline.broadcast.length then
        (s.sink.step narrow c).map fun sink => { s with sink }
      else none
  | .broadcast => do
      let net ← s.net.step json (← s.netLabel? l)
      return { s with net, scanned := s.scanned + 1 }
  | .volumeChanged volume => do
      let net ← s.net.step json (← s.netLabel? l)
      return { s with net, volumes := s.volumes ++ [volume] }
  | .thread _ => do
      let net ← s.net.step json (← s.netLabel? l)
      return { s with net }

/-- The runs of the server, in any interleaving of its threads. -/
def system (json : SerdeJson) (narrow : β → α) (resampler : ρ) (encoder : ε) (bufferMs : UInt32) :
    TransitionSystem (Server S) (Label β) :=
  .ofStep (start resampler encoder bufferMs) (step json narrow)

end Server

end SnapcastClient
