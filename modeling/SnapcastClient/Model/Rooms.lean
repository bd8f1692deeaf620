import SnapcastClient.Model.Conversation

/-! # A server and its clients

Every connection has a genuine client at its other end. Each of them sees a conversation of its
own; the server's threads serve them all. -/

namespace SnapcastClient

/-- A client at the other end of a connection, as in `Conversation`. -/
structure Listener where
  machine : ClientMachine
  txBuf : List UInt8
  up : List UInt8
  requests : List Request
  read : ℕ
  messages : List Message
  fault : Option Fault

/-- The server, the record of every connection, and the clients. -/
structure Rooms where
  server : Net
  services : ConnId → Service
  listeners : ConnId → Listener

namespace Rooms

/-- The clients have written their greetings to a new server. -/
def start (bufferMs : UInt32) (initialVolume : UInt8) (greetings : ConnId → List UInt8) :
    Rooms where
  server := .new bufferMs initialVolume
  services _ := .empty
  listeners k := ⟨.new, List.replicate Time.wireSize 0, greetings k, [], 0, [], none⟩

/-- What the client on a connection has part in. -/
def view (r : Rooms) (k : ConnId) : Conversation where
  server := ⟨r.server, r.services k⟩
  machine := (r.listeners k).machine
  txBuf := (r.listeners k).txBuf
  up := (r.listeners k).up
  requests := (r.listeners k).requests
  read := (r.listeners k).read
  messages := (r.listeners k).messages
  fault := (r.listeners k).fault

def setListener (r : Rooms) (k : ConnId) (c : Conversation) : Rooms :=
  { r with
    listeners := Function.update r.listeners k
      ⟨c.machine, c.txBuf, c.up, c.requests, c.read, c.messages, c.fault⟩ }

/-- A read takes the bytes from the front of those of its client. -/
def takes (r : Rooms) : Net.Label → Option Rooms
  | .read k bytes now =>
      ((r.view k).takes k (.read k bytes now)).map fun up => r.setListener k { r.view k with up }
  | _ => some r

/-- A step of the server. -/
def serve (json : SerdeJson) (r : Rooms) (l : Net.Label) : Option Rooms := do
  let server ← r.server.step json l
  let taken ← r.takes l
  return { taken with server, services := fun k => r.server.attend json k (r.services k) l }

/-- The steps of the server, and those that a client takes in its conversation. -/
inductive Label where
  | serve (l : Net.Label)
  | client (k : ConnId) (l : Conversation.Label)

def step (json : SerdeJson) (r : Rooms) : Label → Option Rooms
  | .serve l => r.serve json l
  | .client _ (.serve _) => none
  | .client k l => ((r.view k).step json k l).map (r.setListener k)

/-- The runs of a server whose clients greet it. -/
def system (json : SerdeJson) (hellos : ConnId → ClientHello) (bufferMs : UInt32)
    (initialVolume : UInt8) : TransitionSystem Rooms Label where
  Init r := ∃ greetings, (∀ k, (hellos k).asBuf json = .ok (greetings k)) ∧
    r = start bufferMs initialVolume greetings
  Step r l r' := r.step json l = some r'

end Rooms

end SnapcastClient
