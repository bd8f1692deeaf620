import SnapcastClient.Library.Transition
import SnapcastClient.Model.Registry
import SnapcastClient.Model.ServerSession
import Mathlib.Logic.Function.Basic

/-! # The server's threads

A reader and a writer thread for each connection, and the calls of `broadcast_chunk` and
`broadcast_settings`, share the registry and the clients' queues. A step is what a thread
does between two points where another may come in. Sockets are not part of the state: a read
or a write may fail at any time, and its step is taken when the socket lets it return. -/

namespace SnapcastClient

/-- What the reader does next for a client it has registered. -/
inductive Greeting where
  | currentSettings
  | sendSettings (s : ServerSettings)
  | sendCodecHeader
  deriving DecidableEq, Repr

/-- Where `reader_loop` is. Before the connection is accepted and after `run_reader` has
returned no reader runs. -/
inductive Reader where
  | stopped
  | reading
  | cloning
  | registering (tx : ChannelId)
  | greeting (id : ClientId) (tx : ChannelId) (stage : Greeting)
  | replying (tx : ChannelId) (refersTo : UInt16) (clientSent received : TimeVal)
  | leaving
  deriving DecidableEq, Repr

/-- The channel the reader holds a sender of, besides `my_tx`. -/
def Reader.tx? : Reader → Option ChannelId
  | registering tx => some tx
  | greeting _ tx _ => some tx
  | replying tx _ _ _ => some tx
  | _ => none

/-- The id of the client being greeted. -/
def Reader.greets : Reader → Option ClientId
  | greeting id _ _ => some id
  | _ => none

/-- The state of a reader thread. -/
structure Conn where
  session : ServerSession
  reader : Reader
  myId : Option ClientId
  myTx : Option ChannelId
  deriving DecidableEq, Repr

namespace Conn

def absent : Conn := ⟨.new, .stopped, none, none⟩

def new : Conn := ⟨.new, .reading, none, none⟩

def Holds (c : Conn) (tx : ChannelId) : Prop :=
  c.reader.tx? = some tx ∨ c.myTx = some tx

instance (c : Conn) (tx : ChannelId) : Decidable (c.Holds tx) :=
  inferInstanceAs (Decidable (_ ∨ _))

/-- What the loop does with the outcome of a packet. A panic unwinds past the cleanup. -/
def handled (c : Conn) : Outcome SessionOutput → Conn
  | .error (.error _) => { c with reader := .leaving }
  | .error (.panicked _) => { c with reader := .stopped, myTx := none }
  | .ok .none => c
  | .ok (.hello _) => { c with reader := .cloning }
  | .ok (.timeRequest id clientSent received) =>
      match c.myTx with
      | some tx => { c with reader := .replying tx id clientSent received }
      | none => c

end Conn

inductive WriterState where
  | receiving
  | writing (msg : Outbound)
  | stopped
  deriving DecidableEq, Repr

/-- The state of a writer thread, with the buffers written so far. -/
structure Writer where
  state : WriterState
  id : UInt16
  written : List (List UInt8)
  deriving DecidableEq, Repr

/-- A `broadcast_chunk` that holds the lock. The map is walked in no particular order. -/
structure Scan where
  chunk : EncodedChunk
  limit : ℤ
  remaining : List ClientId
  wedged : List ClientId
  deriving DecidableEq, Repr

/-- `wedged` lists the clients that running `broadcast_chunk` calls still have to disconnect,
`pending` the sends that running `broadcast_settings` calls still have to do. -/
structure Net where
  registry : Registry
  scan : Option Scan
  wedged : List ClientId
  pending : List (ChannelId × ServerSettings)
  conns : ConnId → Conn
  accepted : ConnId
  channels : ChannelId → Channel channelSlots Outbound
  writers : ChannelId → Writer
  created : ChannelId

namespace Net

def new (bufferMs : UInt32) (initialVolume : UInt8) : Net where
  registry := .new bufferMs initialVolume
  scan := none
  wedged := []
  pending := []
  conns := fun _ => .absent
  accepted := 0
  channels := fun _ => .absent
  writers := fun _ => ⟨.stopped, 0, []⟩
  created := 0

def setConn (s : Net) (k : ConnId) (c : Conn) : Net :=
  { s with conns := Function.update s.conns k c }

def setReader (s : Net) (k : ConnId) (reader : Reader) : Net :=
  s.setConn k { s.conns k with reader }

def setChannel (s : Net) (tx : ChannelId) (c : Channel channelSlots Outbound) : Net :=
  { s with channels := Function.update s.channels tx c }

def setWriter (s : Net) (tx : ChannelId) (w : Writer) : Net :=
  { s with writers := Function.update s.writers tx w }

/-! ## `accept_loop` and `run_reader` -/

def accept (s : Net) : Net :=
  { s.setConn s.accepted .new with accepted := s.accepted + 1 }

/-- The socket delivers what the session asked for. -/
def read (json : SerdeJson) (s : Net) (k : ConnId) (bytes : List UInt8) (now : ℤ) :
    Option Net :=
  let c := s.conns k
  let action := c.session.nextAction
  if c.reader = .reading ∧ bytes.length = action.bytes then
    let (result, session) := c.session.handleEvent json (action.event bytes) (.fromMicros now)
    some (s.setConn k ({ c with session }.handled result))
  else none

def readFails (s : Net) (k : ConnId) : Option Net :=
  if (s.conns k).reader = .reading then some (s.setReader k .leaving) else none

/-- Create the channel, and spawn the writer on a clone of the socket. -/
def spawn (s : Net) (k : ConnId) : Option Net :=
  if (s.conns k).reader = .cloning then
    let s := ((s.setReader k (.registering s.created)).setChannel s.created .new).setWriter
      s.created ⟨.receiving, 0, []⟩
    some { s with created := s.created + 1 }
  else none

/-- One of the two `try_clone`s fails. -/
def cloneFails (s : Net) (k : ConnId) : Option Net :=
  match (s.conns k).reader with
  | .cloning => some (s.setReader k .leaving)
  | .registering _ => some (s.setReader k .leaving)
  | _ => none

def register (s : Net) (k : ConnId) : Option Net :=
  match (s.conns k).reader with
  | .registering tx =>
      if s.scan = none then
        let (id, registry) := s.registry.register tx k
        some ({ s with registry }.setReader k (.greeting id tx .currentSettings))
      else none
  | _ => none

def currentSettings (s : Net) (k : ConnId) : Option Net :=
  match (s.conns k).reader with
  | .greeting id tx .currentSettings =>
      if s.scan = none then
        some (s.setReader k (.greeting id tx (.sendSettings s.registry.currentSettings)))
      else none
  | _ => none

/-- A blocking send of a reader, which goes on as `next`; an error ends its loop. -/
def sendFrom (s : Net) (k : ConnId) (tx : ChannelId) (msg : Outbound) (next : Conn) :
    Option Net :=
  match (s.channels tx).trySend msg with
  | (.sent, c) => some ((s.setChannel tx c).setConn k next)
  | (.full, _) => none
  | (.disconnected, _) => some (s.setReader k .leaving)

def send (s : Net) (k : ConnId) : Option Net :=
  let c := s.conns k
  match c.reader with
  | .greeting id tx (.sendSettings st) =>
      s.sendFrom k tx (.settings st) { c with reader := .greeting id tx .sendCodecHeader }
  | .greeting id tx .sendCodecHeader =>
      s.sendFrom k tx .codecHeader { c with reader := .reading, myId := some id, myTx := some tx }
  | .replying tx refersTo clientSent received =>
      s.sendFrom k tx (.timeReply refersTo clientSent received) { c with reader := .reading }
  | _ => none

/-- The end of `run_reader`. -/
def leave (s : Net) (k : ConnId) : Option Net :=
  let c := s.conns k
  let stopped := { c with reader := .stopped, myTx := none }
  if c.reader = .leaving then
    match c.myId with
    | some id =>
        if s.scan = none then
          some ({ s with registry := s.registry.unregister id }.setConn k stopped)
        else none
    | none => some (s.setConn k stopped)
  else none

/-! ## `run_writer` -/

/-- The writer returns and drops its receiver. -/
def stopWriter (s : Net) (tx : ChannelId) : Net :=
  (s.setChannel tx (s.channels tx).close).setWriter tx { s.writers tx with state := .stopped }

def recv (s : Net) (tx : ChannelId) : Option Net :=
  if (s.writers tx).state = .receiving then
    match (s.channels tx).recv with
    | some (msg, c) =>
        some ((s.setChannel tx c).setWriter tx { s.writers tx with state := .writing msg })
    | none => none
  else none

def write (json : SerdeJson) (s : Net) (tx : ChannelId) (now : ℤ) : Option Net :=
  let w := s.writers tx
  match w.state with
  | .writing msg =>
      match msg.asBuf json w.id (.fromMicros now) with
      | .ok buf => some (s.setWriter tx ⟨.receiving, w.id + 1, w.written ++ [buf]⟩)
      | .error _ => some (s.stopWriter tx)
  | _ => none

def writeFails (s : Net) (tx : ChannelId) : Option Net :=
  match (s.writers tx).state with
  | .writing _ => some (s.stopWriter tx)
  | _ => none

/-- Some thread holds a sender of the channel. -/
def Held (s : Net) (tx : ChannelId) : Prop :=
  (∃ p ∈ s.registry.clients, p.2.tx = tx) ∨ (∃ p ∈ s.pending, p.1 = tx) ∨
    ∃ k < s.accepted, (s.conns k).Holds tx

instance (s : Net) (tx : ChannelId) : Decidable (s.Held tx) :=
  inferInstanceAs (Decidable (_ ∨ _ ∨ _))

/-- `recv` fails: the queue is empty and all senders are gone. -/
def hangup (s : Net) (tx : ChannelId) : Option Net :=
  if (s.writers tx).state = .receiving ∧ (s.channels tx).queue = [] ∧ ¬ s.Held tx then
    some (s.stopWriter tx)
  else none

/-! ## `broadcast_settings` -/

def storeVolume (s : Net) (volume : UInt8) : Option Net :=
  if s.scan = none then
    let (sends, registry) := s.registry.storeVolume volume
    some { s with registry, pending := s.pending ++ sends }
  else none

/-- A blocking send outside the lock; its error is ignored. -/
def sendSettings (s : Net) (tx : ChannelId) (st : ServerSettings) : Option Net :=
  if (tx, st) ∈ s.pending then
    let s' := { s with pending := s.pending.erase (tx, st) }
    match (s.channels tx).trySend (.settings st) with
    | (.sent, c) => some (s'.setChannel tx c)
    | (.full, _) => none
    | (.disconnected, _) => some s'
  else none

/-! ## `broadcast_chunk` -/

def startScan (s : Net) (chunk : EncodedChunk) : Option Net :=
  if s.scan = none then do
    let limit ← s.registry.wedgeLimit
    let remaining := s.registry.clients.map Prod.fst
    return { s with scan := some { chunk, limit, remaining, wedged := [] } }
  else none

/-- One iteration of the loop over the clients, with its two clock readings. -/
def offer (s : Net) (id : ClientId) (now later : ℤ) : Option Net :=
  match s.scan with
  | some scan =>
      if id ∈ scan.remaining then
        match s.registry.get? id with
        | some h =>
            let (result, c) := (s.channels h.tx).trySend (.chunk scan.chunk)
            let (h', wedged) := h.offered scan.limit now later result
            some ({ s with
              registry := s.registry.setHandle id h'
              scan := some { scan with
                remaining := scan.remaining.erase id
                wedged := if wedged then scan.wedged ++ [id] else scan.wedged } }.setChannel
              h.tx c)
        | none => none
      else none
  | none => none

/-- The lock is released once every client was offered the chunk. -/
def endScan (s : Net) : Option Net :=
  match s.scan with
  | some scan =>
      if scan.remaining = [] then
        some { s with scan := none, wedged := s.wedged ++ scan.wedged }
      else none
  | none => none

def disconnect (s : Net) (id : ClientId) : Option Net :=
  if s.scan = none ∧ id ∈ s.wedged then
    some { s with registry := s.registry.disconnect id, wedged := s.wedged.erase id }
  else none

/-! ## Runs -/

inductive Label where
  | accept
  | read (k : ConnId) (bytes : List UInt8) (now : ℤ)
  | readFails (k : ConnId)
  | spawn (k : ConnId)
  | cloneFails (k : ConnId)
  | register (k : ConnId)
  | currentSettings (k : ConnId)
  | send (k : ConnId)
  | leave (k : ConnId)
  | recv (tx : ChannelId)
  | write (tx : ChannelId) (now : ℤ)
  | writeFails (tx : ChannelId)
  | hangup (tx : ChannelId)
  | storeVolume (volume : UInt8)
  | sendSettings (tx : ChannelId) (st : ServerSettings)
  | startScan (chunk : EncodedChunk)
  | offer (id : ClientId) (now later : ℤ)
  | endScan
  | disconnect (id : ClientId)

def step (json : SerdeJson) (s : Net) : Label → Option Net
  | .accept => some s.accept
  | .read k bytes now => s.read json k bytes now
  | .readFails k => s.readFails k
  | .spawn k => s.spawn k
  | .cloneFails k => s.cloneFails k
  | .register k => s.register k
  | .currentSettings k => s.currentSettings k
  | .send k => s.send k
  | .leave k => s.leave k
  | .recv tx => s.recv tx
  | .write tx now => s.write json tx now
  | .writeFails tx => s.writeFails tx
  | .hangup tx => s.hangup tx
  | .storeVolume volume => s.storeVolume volume
  | .sendSettings tx st => s.sendSettings tx st
  | .startScan chunk => s.startScan chunk
  | .offer id now later => s.offer id now later
  | .endScan => s.endScan
  | .disconnect id => s.disconnect id

/-- The runs of a server, in any interleaving of its threads. -/
def system (json : SerdeJson) (bufferMs : UInt32) (initialVolume : UInt8) :
    TransitionSystem Net Label :=
  .ofStep (new bufferMs initialVolume) (step json)

end Net

end SnapcastClient
