import SnapcastClient.Model.ConnectedClient
import SnapcastClient.Model.Players
import SnapcastClient.Model.Playing

/-! # The client program

`main` ticks the client, and the thread of `handle_samples` plays. They share the decoder and the
player, each under a lock, and a channel of chunks. `main` holds a lock for one assignment only;
the playing thread holds both to the end of its iteration. -/

namespace SnapcastClient

/-- A timestamp and a payload on the channel. -/
structure Chunk where
  audibleAt : TimeVal
  samples : List UInt8
  deriving DecidableEq, Repr

/-- `main` waits for a message, serves a codec header, or is done. -/
inductive MainState (σ : Type) where
  | ticking
  | storingDecoder (ch : CodecHeader) (d : Decoder σ)
  | makingPlayer (ch : CodecHeader)
  | storingPlayer (p : Player)
  | returned (message : String)
  | panicked
  deriving DecidableEq, Repr

/-- The end of `main`. -/
def MainState.ofFault {σ : Type} : Fault → MainState σ
  | .error message => returned message
  | .panicked _ => panicked

/-- The playing thread: `locking` holds the lock of the decoder, `decoding` and `writing` both, and
`dead` tells which of them a panic poisoned. The write of so many samples began at `since`. -/
inductive SamplesState where
  | receiving
  | received (c : Chunk)
  | sleeping (c : Chunk) (wake : ℕ)
  | locking (c : Chunk)
  | decoding (c : Chunk)
  | writing (c : Chunk) (count since : ℕ)
  | dead (decoder player : Bool)
  deriving DecidableEq, Repr

/-- What became of a chunk. Times are in nanoseconds on the client clock, that of a played chunk
is when its write began. Decoders and players go by the number of their codec header. -/
inductive Fate where
  | inThePast (elapsed : ℕ)
  | noDecoder
  | noPlayer
  | played (elapsed : ℕ) (decoder player : ℕ) (samples : List Int16)
  | panicked
  deriving DecidableEq, Repr

/-- Both threads and what they share, with a record of the codec headers whose decoder was stored,
of the messages with whether the client was synchronized before, and of the chunks. -/
structure App (σ : Type) where
  client : ConnectedClient
  main : MainState σ
  queue : List Chunk
  dec : Option (ℕ × Decoder σ)
  player : Option (ℕ × Player)
  thread : SamplesState
  elapsed : ℕ
  playerLatMs : UInt16
  samplesOut : List Int16
  headers : List CodecHeader
  heard : List (Bool × Message)
  handled : List (Chunk × Fate)

namespace App

variable {σ : Type}

def start (client : ConnectedClient) : App σ where
  client
  main := .ticking
  queue := []
  dec := none
  player := none
  thread := .receiving
  elapsed := 0
  playerLatMs := 1
  samplesOut := List.replicate SnapcastClient.samplesOut 0
  headers := []
  heard := []
  handled := []

/-! ## `main` -/

/-- The text of `std`'s send error. -/
def closedMessage : String := "sending on a closed channel"

/-- A tick has returned a message. -/
def hear (a : App σ) (client : ConnectedClient) (inSync : Bool) (message : Message) : App σ :=
  { a with client, heard := a.heard ++ [(inSync, message)] }

/-- The arms of the loop. -/
def serve (codecs : Codecs σ) (a : App σ) (inSync : Bool) : Message → App σ
  | .codecHeader ch =>
      match Decoder.ofMetadata codecs ch.metadata with
      | .ok d => { a with main := .storingDecoder ch d }
      | .error fault => { a with main := MainState.ofFault fault }
  | .wireChunk wc audibleAt =>
      if inSync then
        match a.thread with
        | .dead _ _ => { a with main := .returned closedMessage }
        | _ => { a with queue := a.queue ++ [⟨audibleAt, wc.payload⟩] }
      else a
  | _ => a

def tick (json : SerdeJson) (codecs : Codecs σ) (a : App σ) (input : TickInput) :
    Option (App σ) :=
  match a.main with
  | .ticking =>
      let inSync := decide a.client.machine.Synchronized
      match a.client.tick json input with
      | (.ok message, client) =>
          some ((a.hear client inSync message).serve codecs inSync message)
      | (.error fault, client) => some { a with client, main := MainState.ofFault fault }
  | _ => none

/-- The guard of a poisoned lock is not unwrapped. -/
def storeDecoder (a : App σ) : Option (App σ) :=
  match a.main with
  | .storingDecoder ch d =>
      match a.thread with
      | .locking _ => none
      | .decoding _ => none
      | .writing _ _ _ => none
      | .dead true _ => some { a with main := .panicked }
      | _ =>
          some { a with
            main := .makingPlayer ch
            dec := some (a.headers.length, d)
            headers := a.headers ++ [ch] }
  | _ => none

/-- `make_player`, with the error that the file or the connection may meet. -/
def makePlayer (a : App σ) (backend : PlayerBackend) (error : Option String) : Option (App σ) :=
  match a.main, error with
  | .makingPlayer ch, none =>
      some { a with main := .storingPlayer (.new backend ch.metadata.rate) }
  | .makingPlayer _, some message => some { a with main := .returned message }
  | _, _ => none

def storePlayer (a : App σ) : Option (App σ) :=
  match a.main with
  | .storingPlayer p =>
      match a.thread with
      | .decoding _ => none
      | .writing _ _ _ => none
      | .dead _ true => some { a with main := .panicked }
      | _ => some { a with main := .ticking, player := some (a.headers.length - 1, p) }
  | _ => none

/-! ## `handle_samples` -/

/-- The process ends with `main`. -/
def Running (a : App σ) : Prop :=
  match a.main with
  | .returned _ => False
  | .panicked => False
  | _ => True

instance (a : App σ) : Decidable a.Running := by
  rw [Running]
  split <;> infer_instance

/-- The iteration ends, with or without a panic. -/
def finish (a : App σ) (c : Chunk) (fate : Fate) (thread : SamplesState) : App σ :=
  { a with thread, handled := a.handled ++ [(c, fate)] }

def recv (a : App σ) : Option (App σ) :=
  match a.thread, a.queue with
  | .receiving, c :: queue => some { a with thread := .received c, queue }
  | _, _ => none

/-- The wait until the chunk is due begins, if it is not past. -/
def schedule (a : App σ) : Option (App σ) :=
  match a.thread with
  | .received c =>
      match handleSample c.audibleAt a.elapsed a.playerLatMs with
      | .ok .inThePast => some (a.finish c (.inThePast a.elapsed) .receiving)
      | .ok (.due sleepUs) =>
          some { a with thread := .sleeping c (a.elapsed + 1000 * sleepUs.toNat) }
      | .error _ => some (a.finish c .panicked (.dead false false))
  | _ => none

def lockDecoder (a : App σ) : Option (App σ) :=
  match a.thread with
  | .sleeping c wake =>
      if wake ≤ a.elapsed then
        match a.dec with
        | none => some (a.finish c .noDecoder .receiving)
        | some _ => some { a with thread := .locking c }
      else none
  | _ => none

def lockPlayer (a : App σ) : Option (App σ) :=
  match a.thread with
  | .locking c =>
      match a.player with
      | none => some (a.finish c .noPlayer .receiving)
      | some _ => some { a with thread := .decoding c }
  | _ => none

/-- Ask for the latency and decode, on an allocation of the payload. -/
def decode (codecs : Codecs σ) (a : App σ) (oddAddress : Bool) (device : Option UInt16) :
    Option (App σ) :=
  match a.thread, a.dec, a.player with
  | .decoding c, some (n, d), some (_, p) =>
      match p.backend.latencyMs device with
      | none => some (a.finish c .panicked (.dead true true))
      | some latencyMs =>
          let a := { a with playerLatMs := max 1 latencyMs }
          match d.decodeSample codecs oddAddress c.samples a.samplesOut with
          | (.error _, d) =>
              some ({ a with dec := some (n, d) }.finish c .panicked (.dead true true))
          | (.ok (count, samplesOut), d) =>
              some { a with
                dec := some (n, d), samplesOut, thread := .writing c count a.elapsed }
  | _, _, _ => none

/-- `play` and `write` return, or one of them fails. Both may take their time. -/
def write (a : App σ) (failsAfter : Option ℕ) : Option (App σ) :=
  match a.thread, a.dec, a.player with
  | .writing c count since, some (n, _), some (m, p) =>
      let samples := a.samplesOut.take count
      match p.write samples failsAfter with
      | (true, p) =>
          some ({ a with player := some (m, p) }.finish c (.played since n m samples) .receiving)
      | (false, p) =>
          some ({ a with player := some (m, p) }.finish c .panicked (.dead true true))
  | _, _, _ => none

/-! ## Runs -/

inductive Label where
  | elapse (nanos : ℕ)
  | tick (input : TickInput)
  | storeDecoder
  | makePlayer (error : Option String)
  | storePlayer
  | recv
  | schedule
  | lockDecoder
  | lockPlayer
  | decode (oddAddress : Bool) (device : Option UInt16)
  | write (failsAfter : Option ℕ)

def step (json : SerdeJson) (codecs : Codecs σ) (backend : PlayerBackend) (a : App σ) (l : Label) :
    Option (App σ) :=
  if a.Running then
    match l with
    | .elapse nanos => some { a with elapsed := a.elapsed + nanos }
    | .tick input => a.tick json codecs input
    | .storeDecoder => a.storeDecoder
    | .makePlayer error => a.makePlayer backend error
    | .storePlayer => a.storePlayer
    | .recv => a.recv
    | .schedule => a.schedule
    | .lockDecoder => a.lockDecoder
    | .lockPlayer => a.lockPlayer
    | .decode oddAddress device => a.decode codecs oddAddress device
    | .write failsAfter => a.write failsAfter
  else none

/-- The runs of the program on a connection, in any interleaving of its threads. -/
def system (json : SerdeJson) (codecs : Codecs σ) (backend : PlayerBackend)
    (client : ConnectedClient) : TransitionSystem (App σ) Label :=
  .ofStep (start client) (step json codecs backend)

end App

end SnapcastClient
