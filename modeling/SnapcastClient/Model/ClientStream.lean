import SnapcastClient.Library.Transcript
import SnapcastClient.Model.ClientRun

/-! # A stream of frames served by one client machine

Requests are polled at any time, also between the header of a frame and its packet. The
`Nothing` that answers an accepted header is not heard: the driver goes on with the packet. -/

namespace SnapcastClient

/-- A call of `poll_transmit`. -/
structure Poll where
  nowUs : ℤ
  out : List UInt8

/-- What the driver hears of a call. -/
inductive Heard where
  | polled (result : Outcome (Option ℕ × List UInt8))
  | header (result : Outcome Message)
  | packet (result : Outcome Message)
  deriving DecidableEq, Repr

/-- Between frames: a request may be polled, a header may be refused. -/
inductive StreamEntry where
  | poll (poll : Poll)
  | refused (header : List UInt8) (refused : ∀ base, Base.tryFrom header ≠ .ok base) (nowUs : ℤ)
  | frame (frame : Frame) (headerUs : ℤ) (polls : List Poll) (packetUs : ℤ)

namespace ClientMachine

def servePoll (m : ClientMachine) (poll : Poll) : Transcript Heard ClientMachine :=
  match m.pollTransmit poll.nowUs poll.out with
  | .ok (n, out, m') => ⟨[.polled (.ok (n, out))], some m'⟩
  | .error fault => ⟨[.polled (.error fault)], none⟩

def serve (json : SerdeJson) (m : ClientMachine) : StreamEntry → Transcript Heard ClientMachine
  | .poll poll => m.servePoll poll
  | .refused header _ nowUs =>
      let x := m.handleEvent json (.headerReceived header) nowUs
      ⟨[.header x.1], left x⟩
  | .frame frame headerUs polls packetUs =>
      let x := m.handleEvent json (.headerReceived frame.header) headerUs
      ((⟨[], left x⟩ : Transcript Heard ClientMachine).andThen fun m =>
        .run servePoll m polls).andThen fun m =>
          let x := m.handleEvent json (.packetReceived frame.payload) packetUs
          ⟨[.packet x.1], left x⟩

/-- Serve the entries of a stream. -/
def hear (json : SerdeJson) (m : ClientMachine) (entries : List StreamEntry) :
    Transcript Heard ClientMachine :=
  .run (serve json) m entries

end ClientMachine

/-! ## Rejected frames -/

/-- The types the client takes. -/
def MessageType.served : List MessageType := [.codecHeader, .serverSettings, .wireChunk, .time]

/-- A type the client does not take, or a short `Time` payload. -/
def Base.Rejects (b : Base) (payload : List UInt8) : Prop :=
  b.mtype ∉ MessageType.served ∨ b.mtype = .time ∧ payload.length < 8

instance (b : Base) (payload : List UInt8) : Decidable (b.Rejects payload) :=
  inferInstanceAs (Decidable (_ ∨ _))

/-- A stream entry without its frame, if the frame is rejected. -/
def StreamEntry.keep : StreamEntry → List StreamEntry
  | frame f headerUs polls packetUs =>
      if f.base.Rejects f.payload then polls.map poll else [frame f headerUs polls packetUs]
  | poll p => [poll p]
  | refused header h nowUs => [refused header h nowUs]

/-- The reply to a rejected packet. -/
def Heard.isRejection : Heard → Bool
  | packet (.error (.error _)) => true
  | _ => false

end SnapcastClient
