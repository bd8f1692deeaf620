import SnapcastClient.Model.Pipeline

/-! # `PipelineSink`

librespot's player starts a sink, writes packets to it and stops it. A packet is known by what its
`samples` returns; the narrowing of a sample is a parameter. -/

namespace SnapcastClient

/-- The discontinuities of the source. -/
inductive SourceEvent where
  | started
  | stopped
  | paused
  | trackChanged
  deriving DecidableEq, Repr

/-- How a call of a sink ends when it does not end in `Ok`. -/
inductive SinkFault where
  | onWrite (message : String)
  | panicked (reason : Panic)
  deriving DecidableEq, Repr

/-- `map_err(|e| SinkError::OnWrite(e.to_string()))`. -/
def onWrite {β : Type} : Outcome β → Except SinkFault β
  | .ok b => .ok b
  | .error (.error message) => .error (.onWrite message)
  | .error (.panicked reason) => .error (.panicked reason)

/-- The samples of a packet, or the error for a packet without. -/
structure AudioPacket (β : Type) where
  samples : Except String (List β)

variable {α β ρ ε : Type}

/-- The sink, with a record of the events it sent. Whether they were received is ignored. -/
structure PipelineSink (S : Setup α ρ ε) where
  pipeline : Pipeline S
  events : List SourceEvent
  interleaved : List α

namespace PipelineSink

variable {S : Setup α ρ ε}

def new (pipeline : Pipeline S) : PipelineSink S where
  pipeline
  events := []
  interleaved := []

def start (s : PipelineSink S) : Except SinkFault Unit × PipelineSink S :=
  (.ok (), { s with pipeline := s.pipeline.reanchor, events := s.events ++ [.started] })

def stop (s : PipelineSink S) : Except SinkFault Unit × PipelineSink S :=
  let (result, pipeline) := s.pipeline.flushWithSilence
  match onWrite result with
  | .error fault => (.error fault, { s with pipeline })
  | .ok () => (.ok (), { s with pipeline, events := s.events ++ [.stopped] })

def write (narrow : β → α) (s : PipelineSink S) (packet : AudioPacket β) :
    Except SinkFault Unit × PipelineSink S :=
  match packet.samples with
  | .error e => (.error (.onWrite e), s)
  | .ok samples =>
      let interleaved := samples.map narrow
      let (result, pipeline) := s.pipeline.push interleaved
      (onWrite result, { s with pipeline, interleaved })

/-! ## Runs -/

inductive Call (β : Type) where
  | start
  | stop
  | write (packet : AudioPacket β)

def call (narrow : β → α) (s : PipelineSink S) : Call β → Except SinkFault Unit × PipelineSink S
  | .start => s.start
  | .stop => s.stop
  | .write packet => s.write narrow packet

/-- The sink after a call that returned. -/
def step (narrow : β → α) (s : PipelineSink S) (c : Call β) : Option (PipelineSink S) :=
  match s.call narrow c with
  | (.error (.panicked _), _) => none
  | (_, s') => some s'

end PipelineSink

end SnapcastClient
