import SnapcastClient.Model.Rooms
import SnapcastClient.Verification.Synchrony

/-! # Clients in step

The clients of a server play a chunk together. Each of them sees a conversation of its own, whose
clock errors are all that can set it apart from the others. -/

namespace SnapcastClient

open TransitionSystem (WithHistory)

namespace Rooms

variable {json : SerdeJson} {k : ConnId} {r r' : Rooms} {bufferMs : UInt32} {initialVolume : UInt8}

/-- What a step of the whole is to the client on a connection. -/
def Label.at? (k : ConnId) : Label → Option Conversation.Label
  | .serve l => some (.serve l)
  | .client j l => if j = k then some l else none

/-- Note the readings of a step for every client. -/
def note (json : SerdeJson) (r : Rooms) (readings : ConnId → Readings) (l : Label) :
    ConnId → Readings :=
  fun k => (l.at? k).elim (readings k) ((r.view k).note json k (readings k))

def clockedSystem (json : SerdeJson) (hellos : ConnId → ClientHello) (bufferMs : UInt32)
    (initialVolume : UInt8) : TransitionSystem (WithHistory Rooms (ConnId → Readings)) Label :=
  (system json hellos bufferMs initialVolume).withHistory (fun _ => .empty) (note json)

/-- A client's conversation with its readings. -/
def seen (p : WithHistory Rooms (ConnId → Readings)) (k : ConnId) :
    WithHistory Conversation Readings :=
  ⟨p.state.view k, p.history k⟩

/-- The steps of the whole that are orderly to the client on a connection. -/
def orderly (json : SerdeJson) (k : ConnId) (p : WithHistory Rooms (ConnId → Readings))
    (l : Label) : Bool :=
  (l.at? k).all (Conversation.orderly json k (seen p k))

variable {greeters : ConnId → Greeter} {p p' : WithHistory Rooms (ConnId → Readings)}
  {ok : WithHistory Rooms (ConnId → Readings) → Label → Prop}

end Rooms

end SnapcastClient
