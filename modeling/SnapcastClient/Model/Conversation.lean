import SnapcastClient.Model.ConnectedClient
import SnapcastClient.Model.Exchange
import SnapcastClient.Verification.Delivery

/-! # One client among the connections of a server

The client at the other end of a connection is a client machine that `ConnectedClient::tick`
serves, in steps that read one header or one payload. Bytes travel in order in both directions,
each on its own; the server's other connections and threads go on meanwhile. -/

namespace SnapcastClient

/-- The server with the record of the connection, the client's machine and request buffer, the
bytes it has written and the server has not read, the requests among them so far, the number of
bytes it has read of those written on its connection, the messages it made of them, and the
fault that ended it. -/
structure Conversation where
  server : TransitionSystem.WithHistory Net Service
  machine : ClientMachine
  txBuf : List UInt8
  up : List UInt8
  requests : List Request
  read : ℕ
  messages : List Message
  fault : Option Fault

namespace Conversation

/-- A client that has connected to a new server and written its greeting. -/
def start (bufferMs : UInt32) (initialVolume : UInt8) (greeting : List UInt8) : Conversation where
  server := ⟨.new bufferMs initialVolume, .empty⟩
  machine := .new
  txBuf := List.replicate Time.wireSize 0
  up := greeting
  requests := []
  read := 0
  messages := []
  fault := none

/-- All that `run_writer` has written for the connection. -/
def written (c : Conversation) : List UInt8 :=
  c.server.history.tx.elim [] fun tx => (c.server.state.writers tx).written.flatten

/-- What of it the client has not read. -/
def down (c : Conversation) : List UInt8 :=
  c.written.drop c.read

/-- What is left of the client's bytes: a read of its connection takes them from the front. -/
def takes (k : ConnId) (c : Conversation) : Net.Label → Option (List UInt8)
  | .read j bytes _ =>
      if j = k then
        if c.up.take bytes.length = bytes then some (c.up.drop bytes.length) else none
      else some c.up
  | _ => some c.up

/-- A step of the server. -/
def serve (json : SerdeJson) (k : ConnId) (c : Conversation) (l : Net.Label) :
    Option Conversation := do
  let up ← c.takes k l
  let server ← TransitionSystem.stepWithHistory (Net.step json) (Net.attend json k) c.server l
  return { c with server, up }

/-- A turn of the loop that drains `poll_transmit` into the socket. -/
def poll (c : Conversation) (now : ℤ) : Option Conversation :=
  if c.fault = none then
    match c.machine.pollTransmit now c.txBuf with
    | .error fault => some { c with fault := some fault }
    | .ok (none, txBuf, machine) => some { c with machine, txBuf }
    | .ok (some n, txBuf, machine) =>
        let bytes := txBuf.take n
        some { c with
          machine, txBuf, up := c.up ++ bytes
          requests := c.requests ++ [⟨c.machine.pktId, now, bytes⟩] }
  else none

/-- What comes of the bytes the machine asked for. -/
def heard (c : Conversation) : Action → Outcome Message × ClientMachine → Conversation
  | action, (.error fault, machine) =>
      { c with machine, read := c.read + action.bytes, fault := some fault }
  | .readHeader, (.ok _, machine) =>
      { c with machine, read := c.read + Base.baseSize }
  | .readPacket len, (.ok message, machine) =>
      { c with machine, read := c.read + len.toNat, messages := c.messages ++ [message] }

/-- A read of what the machine asks for. -/
def hear (json : SerdeJson) (c : Conversation) (now : ℤ) : Option Conversation :=
  let action := c.machine.nextAction
  if c.fault = none ∧ action.bytes ≤ c.down.length then
    some (c.heard action
      (c.machine.handleEvent json (action.event (c.down.take action.bytes)) now))
  else none

/-- The write of a request fails, with `n` of its bytes written. -/
def pollFails (c : Conversation) (now : ℤ) (n : ℕ) : Option Conversation :=
  if c.fault = none then
    match c.machine.pollTransmit now c.txBuf with
    | .ok (some len, txBuf, machine) =>
        some { c with
          machine, txBuf, up := c.up ++ (txBuf.take len).take n
          fault := some (.error "writing time request") }
    | _ => none
  else none

/-- A read times out with `n` of the bytes it waits for, which are gone. -/
def timeout (c : Conversation) (n : ℕ) : Option Conversation :=
  if c.fault = none ∧ n < c.machine.nextAction.bytes ∧ n ≤ c.down.length then
    some { c with read := c.read + n }
  else none

/-- A read ends in another error, as it does at the end of the stream. -/
def hearFails (c : Conversation) (message : String) : Option Conversation :=
  if c.fault = none then some { c with fault := some (.error message) } else none

inductive Label where
  | serve (l : Net.Label)
  | poll (now : ℤ)
  | hear (now : ℤ)
  | pollFails (now : ℤ) (n : ℕ)
  | timeout (n : ℕ)
  | hearFails (message : String)

def step (json : SerdeJson) (k : ConnId) (c : Conversation) : Label → Option Conversation
  | .serve l => c.serve json k l
  | .poll now => c.poll now
  | .hear now => c.hear json now
  | .pollFails now n => c.pollFails now n
  | .timeout n => c.timeout n
  | .hearFails message => c.hearFails message

/-- The runs of a client that greets the server as `hello`, on connection `k`. -/
def system (json : SerdeJson) (k : ConnId) (hello : ClientHello) (bufferMs : UInt32)
    (initialVolume : UInt8) : TransitionSystem Conversation Label where
  Init c := ∃ greeting, hello.asBuf json = .ok greeting ∧ c = start bufferMs initialVolume greeting
  Step c l c' := c.step json k l = some c'

/-- The writer of the connection meets no write error, and neither do the client's calls. Its
reads time out between headers and payloads only. A chunk leaves room in its payload for its
timestamp and its length. -/
def healthy (c : Conversation) : Label → Bool
  | .serve (.writeFails tx) => c.server.history.tx ≠ some tx
  | .serve (.startScan chunk) => chunk.data.length ≤ Base.maxPayload - 12
  | .pollFails _ _ => false
  | .timeout n => n = 0
  | .hearFails _ => false
  | _ => true

end Conversation

end SnapcastClient
