import SnapcastClient.Library.Transition
import SnapcastClient.Model.ClientMachine
import SnapcastClient.Model.ServerSession

/-! # A client machine and a server session exchanging `Time` messages

Requests and replies travel independently of each other, and frames of other types arrive
in between. Both clocks are read in microseconds, each on its own base. -/

namespace SnapcastClient

/-- A request on its way to the server, with the client clock it was stamped from. -/
structure Request where
  id : UInt16
  stamp : ℤ
  bytes : List UInt8
  deriving DecidableEq

/-- A reply on its way to the client, with the server clock at both ends of its stay. -/
structure Reply where
  request : Request
  received : ℤ
  sent : ℤ
  bytes : List UInt8
  deriving DecidableEq

/-- A frame whose header the client has handled. -/
inductive Incoming where
  | reply (r : Reply)
  | other (frame : Frame)

/-- A handled reply: the client clock then, the stamp of the newest request by then, and the
sample pushed. -/
structure Answer where
  reply : Reply
  handled : ℤ
  newest : ℤ
  sample : TimeVal

structure Exchange where
  machine : ClientMachine
  session : ServerSession
  requests : List Request
  replies : List Reply
  pending : Option Incoming
  answers : List Answer
  settings : Option ServerSettings

namespace Exchange

/-- A new machine and a session that has seen the greeting. -/
def new : Exchange where
  machine := .new
  session := ⟨.new, true⟩
  requests := []
  replies := []
  pending := none
  answers := []
  settings := none

inductive Label where
  | request (now : ℤ)
  | serve (q : Request) (received sent : ℤ)
  | replyHeader (r : Reply)
  | otherHeader (frame : Frame)
  | packet (now : ℤ)

inductive Step (json : SerdeJson) : Exchange → Label → Exchange → Prop where
  | request {s : Exchange} {now : ℤ} {n : ℕ} {out out' : List UInt8} {machine : ClientMachine} :
      Time.wireSize ≤ out.length →
      s.machine.pollTransmit now out = .ok (some n, out', machine) →
      Step json s (.request now)
        { s with machine, requests := s.requests ++ [⟨s.machine.pktId, now, out'.take n⟩] }
  /-- The session handles a request, and `run_writer` encodes what it asks for. -/
  | serve {s : Exchange} {q : Request} {received sent : ℤ} {refersTo id : UInt16}
      {clientSent receivedTv : TimeVal} {session : ServerSession} {bytes : List UInt8} :
      q ∈ s.requests →
      s.session.feed json q.bytes (.fromMicros received) =
        (.ok (.timeRequest refersTo clientSent receivedTv), session) →
      Time.asBuf id refersTo (.fromMicros sent) receivedTv clientSent = .ok bytes →
      Step json s (.serve q received sent)
        { s with
          session, requests := s.requests.erase q,
          replies := s.replies ++ [⟨q, received, sent, bytes⟩] }
  | replyHeader {s : Exchange} {r : Reply} {now : ℤ} {message : Message}
      {machine : ClientMachine} :
      r ∈ s.replies → s.pending = none →
      s.machine.handleEvent json (.headerReceived (r.bytes.take Base.baseSize)) now =
        (.ok message, machine) →
      Step json s (.replyHeader r)
        { s with machine, replies := s.replies.erase r, pending := some (.reply r) }
  | otherHeader {s : Exchange} {frame : Frame} {now : ℤ} {message : Message}
      {machine : ClientMachine} :
      frame.base.mtype ≠ .time → s.pending = none →
      s.machine.handleEvent json (.headerReceived frame.header) now = (.ok message, machine) →
      Step json s (.otherHeader frame) { s with machine, pending := some (.other frame) }
  | replyPacket {s : Exchange} {r : Reply} {now : ℤ} {message : Message}
      {machine : ClientMachine} :
      s.pending = some (.reply r) →
      s.machine.handleEvent json (.packetReceived (r.bytes.drop Base.baseSize)) now =
        (.ok message, machine) →
      Step json s (.packet now)
        { s with
          machine, pending := none,
          answers := s.answers ++ [{
            reply := r, handled := now, newest := s.machine.lastTimeSentUs,
            sample := machine.latencyBuf.items.getLastD .zero }] }
  | otherPacket {s : Exchange} {frame : Frame} {now : ℤ} {message : Message}
      {machine : ClientMachine} :
      s.pending = some (.other frame) →
      s.machine.handleEvent json (.packetReceived frame.payload) now = (.ok message, machine) →
      Step json s (.packet now)
        { s with machine, pending := none, settings := message.settings.or s.settings }

/-- The runs of one client. -/
def system (json : SerdeJson) : TransitionSystem Exchange Label where
  Init s := s = new
  Step := Step json

end Exchange

end SnapcastClient
